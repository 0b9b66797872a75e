import ModelKeep.Concurrency.Crash
import ModelKeep.ExtensionAlone

/-!
# An extension that meets faults

Any step of an extension may be refused, and the extension may be cut off
after any of them.  How far it has come is told by the log of its steps: which
files it has renamed into the revision, and whether it has swapped the
manifest.
-/

namespace ModelKeep
namespace Extension

open Concurrency Program

/-- A shared state and the steps that led to it. -/
abbrev Logged : Type := Shared Unit × List (Event interface)

/-- The files that were renamed into the revision. -/
def moves (steps : List (Event interface)) : List (List String × Bytes) :=
  steps.filterMap fun
    | ⟨.moveFile path content, .ok ()⟩ => some (path, content)
    | _ => none

/-- Whether the replacement manifest was renamed into place. -/
def swapped (steps : List (Event interface)) : Bool :=
  steps.any fun
    | ⟨.renamePart, .ok ()⟩ => true
    | _ => false

/-- How far an extension has come. -/
structure Course where
  revision : RevisionDir
  moves : List (List String × Bytes)
  swapped : Bool

def courseOf (state : Logged) : Course :=
  ⟨state.1.revision, moves state.2, Extension.swapped state.2⟩

/-- What stands at a place once these files were moved. -/
def afterMoves (moves : List (List String × Bytes)) (place : List String)
    (node : Option (FileNode Bytes)) : Option (FileNode Bytes) :=
  moves.foldl (fun node move =>
    if move.1 = place then some (.file move.2) else node) node

@[simp] theorem afterMoves_nil
    (place : List String)
    (node : Option (FileNode Bytes)) :
    afterMoves [] place node = node := rfl

@[simp] theorem afterMoves_append
    (moves : List (List String × Bytes))
    (move : List String × Bytes)
    (place : List String)
    (node : Option (FileNode Bytes)) :
    afterMoves (moves ++ [move]) place node =
      if move.1 = place then some (.file move.2)
      else afterMoves moves place node := by
  simp [afterMoves]

/-- The files were moved into the tree, and directories were made for them. -/
def Grown (before : FileTree Bytes) (moves : List (List String × Bytes))
    (after : FileTree Bytes) : Prop :=
  ∀ place,
    after.lookup place = afterMoves moves place (before.lookup place) ∨
      afterMoves moves place (before.lookup place) = none ∧
        after.lookup place = some .directory

theorem Grown.refl (tree : FileTree Bytes) : Grown tree [] tree :=
  fun _ => Or.inl rfl

theorem Grown.makeDirectory
    {before middle after : FileTree Bytes}
    {moves : List (List String × Bytes)}
    {path : List String}
    (grown : Grown before moves middle)
    (made : middle.makeDirectory path = some after) :
    Grown before moves after := by
  intro place
  rcases FileTree.lookup_makeDirectory made place with
    same | ⟨_, absent, added⟩
  · rw [same]
    exact grown place
  · rcases grown place with same | ⟨_, directory⟩
    · exact Or.inr ⟨same.symm.trans absent, added⟩
    · rw [absent] at directory
      cases directory

theorem Grown.placeFile
    {before middle after : FileTree Bytes}
    {moves : List (List String × Bytes)}
    {path : List String}
    {content : Bytes}
    (grown : Grown before moves middle)
    (placed : middle.placeFile path content = some after) :
    Grown before (moves ++ [(path, content)]) after := by
  intro place
  rw [FileTree.lookup_placeFile placed, afterMoves_append]
  by_cases same : place = path
  · subst same
    simp
  · rw [if_neg same, if_neg fun equal => same equal.symm]
    exact grown place

/-- Every file that was moved is a requested one that the manifest did not
list, and the manifest was swapped for one that lists them all. -/
structure Proper (request : RevisionExtensionRequest) (start : RevisionDir)
    (course : Course) : Prop where
  grown : Grown start.tree course.moves course.revision.tree
  requested : ∀ move ∈ course.moves, ∃ path ∈ request.files,
    filePlace path = some move.1 ∧
      ∃ manifest, start.manifest = .decoded manifest ∧
        path ∉ manifest.paths
  unswapped : course.swapped = false →
    course.revision.manifest = start.manifest
  swapped : course.swapped = true → course.moves ≠ [] ∧
    ∃ manifest live, start.manifest = .decoded manifest ∧
      course.revision.manifest = .decoded live ∧
      live.files.length = manifest.files.length + course.moves.length

/-- Nothing has been done to the revision yet. -/
def Course.initial (start : RevisionDir) : Course := ⟨start, [], false⟩

theorem proper_initial
    (request : RevisionExtensionRequest)
    (start : RevisionDir) :
    Proper request start (.initial start) where
  grown := Grown.refl _
  requested := by simp [Course.initial]
  unswapped := fun _ => rfl
  swapped := by simp [Course.initial]

/-! ## Steps that leave the revision alone -/

/-- The steps that neither touch the revision nor count. -/
def Quiet : Op → Prop
  | .createDirectory _ => False
  | .moveFile _ _ => False
  | .renamePart => False
  | _ => True

variable {repoType : RepositoryType} {request : RevisionExtensionRequest}
  {start : RevisionDir} {before after : Logged}

theorem course_quiet
    {op : Op}
    {reply : op.Reply}
    (quiet : Quiet op)
    (step : logged (exec repoType ()) op before reply after) :
    courseOf after = courseOf before := by
  obtain ⟨issued, steps⟩ := step
  have revision : after.1.revision = before.1.revision := by
    cases op with
    | createDirectory path => exact quiet.elim
    | moveFile path content => exact quiet.elim
    | renamePart => exact quiet.elim
    | revisionIsDir => rw [issued.2]
    | readManifest => rw [issued.1]
    | lock =>
        rcases issued with ⟨_, _, same⟩ | ⟨_, _, same⟩ <;> rw [same]
    | createPart =>
        rcases issued with ⟨_, same⟩ | ⟨_, _, same⟩ <;> rw [same]
        rfl
    | writePart manifest =>
        rcases issued with ⟨_, same⟩ | ⟨_, _, same⟩ <;> rw [same]
        rfl
    | removePart =>
        rcases issued with same | same <;> rw [same]
        rfl
    | unlock =>
        have same : after.1 = before.1.unlock () := issued
        rw [same]
        rfl
    | _ =>
        have same : after.1 = before.1 := issued
        rw [same]
  have movesSame : moves after.2 = moves before.2 := by
    rw [steps, moves, List.filterMap_append]
    cases op <;> first | exact quiet.elim | simp [moves]
  have swappedSame : Extension.swapped after.2 =
      Extension.swapped before.2 := by
    rw [steps, Extension.swapped, List.any_append]
    cases op <;> first | exact quiet.elim | simp [Extension.swapped]
  simp only [courseOf, revision, movesSame, swappedSame]

/-- The states an extension passes through. -/
abbrev Passes (request : RevisionExtensionRequest) (start : RevisionDir)
    (state : Logged) : Prop :=
  Proper request start (courseOf state)

/-- A quiet step, of which the reply may say something. -/
theorem guards_quiet
    (op : Op)
    {post : op.Reply → Logged → Prop}
    (quiet : Quiet op)
    (passes : Passes request start before)
    (ends : ∀ reply after, exec repoType () op before.1 reply after.1 →
      courseOf after = courseOf before → post reply after) :
    Guards (logged (exec repoType ())) (Passes request start)
      (Extension.perform op) post before := by
  apply guards_perform passes
  intro reply after step
  have same := course_quiet quiet step
  refine ⟨?_, ends reply after step.1 same⟩
  rw [Passes, same]
  exact passes

theorem guards_outcome
    {α : Type}
    {outcome : Except ArchiveError α}
    {post : Except ArchiveError α → Logged → Prop}
    (passes : Passes request start before)
    (ends : post outcome before) :
    Guards (logged (exec repoType ())) (Passes request start)
      (Extension.check outcome).run post before :=
  ⟨passes, ends⟩

theorem guards_readExtendable
    (passes : Passes request start before)
    (early : (courseOf before).swapped = false) :
    Guards (logged (exec repoType ())) (Passes request start)
      (readExtendableManifest request).run
      (fun outcome state => courseOf state = courseOf before ∧
        ∀ manifest, outcome = .ok manifest →
          start.manifest = .decoded manifest) before := by
  unfold readExtendableManifest
  apply Guards.exceptBind
  apply guards_quiet .readManifest trivial passes
  intro reply after issued same
  cases reply with
  | error error => exact ⟨same, nofun⟩
  | ok manifest =>
      have passesAfter : Passes request start after := by
        rw [Passes, same]
        exact passes
      refine guards_outcome passesAfter ⟨same, ?_⟩
      intro found extendable
      obtain ⟨_, read | ⟨_, failed⟩⟩ := issued
      · have decoded :=
          (RevisionDir.readManifestFor_eq_ok.mp read.symm).1
        have unchanged := passes.unswapped early
        change before.1.revision.manifest = _ at unchanged
        rw [unchanged] at decoded
        unfold ensureExtendable at extendable
        split at extendable
        · cases extendable
        · split at extendable
          · cases extendable
          · cases extendable
            exact decoded
      · cases failed

/-- Staging touches nothing that is published. -/
theorem guards_stage
    {paths : List String}
    {staging : FileTree Bytes}
    {staged : List Staged}
    (passes : Passes request start before)
    (placed : ∀ file ∈ staged, filePlace file.path = some file.place) :
    Guards (logged (exec repoType ())) (Passes request start)
      (stageExtensionFiles paths staging staged).run
      (fun outcome state => courseOf state = courseOf before ∧
        ∀ result, outcome = .ok result →
          result.map Staged.path = staged.map Staged.path ++ paths ∧
          ∀ file ∈ result, filePlace file.path = some file.place)
      before := by
  induction paths generalizing before staging staged with
  | nil =>
      refine guards_outcome passes ⟨rfl, ?_⟩
      rintro _ ⟨⟩
      exact ⟨by simp, placed⟩
  | cons path rest inductionHypothesis =>
      unfold stageExtensionFiles
      apply Guards.exceptBind
      cases valid : validateRelativeFilePath path with
      | error error => exact guards_outcome passes ⟨rfl, by rintro _ ⟨⟩⟩
      | ok _ =>
      refine guards_outcome passes ?_
      apply Guards.exceptBind
      apply guards_quiet (.copySource path) trivial passes
      intro reply after _ same
      cases reply with
      | error error => exact ⟨same, by rintro _ ⟨⟩⟩
      | ok content =>
      have passesAfter : Passes request start after := by
        rw [Passes, same]
        exact passes
      dsimp only
      apply Guards.exceptBind
      cases leads : placeOf path with
      | error error =>
          exact guards_outcome passesAfter ⟨same, by rintro _ ⟨⟩⟩
      | ok place =>
      refine guards_outcome passesAfter ?_
      apply Guards.exceptBind
      cases stageFile staging place content with
      | error error =>
          exact guards_outcome passesAfter ⟨same, by rintro _ ⟨⟩⟩
      | ok grown =>
      refine guards_outcome passesAfter ?_
      have leadsTo : filePlace path = some place := by
        unfold placeOf at leads
        split at leads
        · cases leads
        · cases leads
          assumption
      apply (inductionHypothesis passesAfter ?_).mono
      · rintro outcome final _ ⟨sameLater, stages⟩
        refine ⟨sameLater.trans same, ?_⟩
        intro result done
        obtain ⟨paths, all⟩ := stages result done
        exact ⟨by simpa using paths, all⟩
      · intro file member
        rcases List.mem_append.mp member with older | new
        · exact placed file older
        · rw [List.mem_singleton] at new
          subst new
          exact leadsTo

/-! ## Under the lock -/

/-- What was moved is what the loop says, and the manifest still stands. -/
structure Placing (request : RevisionExtensionRequest) (start : RevisionDir)
    (added : List Staged) (state : Logged) : Prop where
  passes : Passes request start state
  moves : (courseOf state).moves =
    added.map fun file => (file.place, file.content)
  unswapped : (courseOf state).swapped = false

/-- A file that may be moved. -/
structure Movable (request : RevisionExtensionRequest) (start : RevisionDir)
    (file : Staged) : Prop where
  requested : file.path ∈ request.files
  place : filePlace file.path = some file.place

theorem Placing.of_course
    {added : List Staged}
    (placing : Placing request start added before)
    (same : courseOf after = courseOf before) :
    Placing request start added after := by
  refine ⟨?_, ?_, ?_⟩
  · rw [Passes, same]
    exact placing.passes
  · rw [same, placing.moves]
  · rw [same, placing.unswapped]

theorem guards_createDirectories
    {added : List Staged}
    {paths : List (List String)}
    (placing : Placing request start added before) :
    Guards (logged (exec repoType ())) (Passes request start)
      (createDirectories paths).run
      (fun _ state => Placing request start added state) before := by
  induction paths generalizing before with
  | nil => exact guards_outcome placing.passes placing
  | cons path rest inductionHypothesis =>
      unfold createDirectories
      apply Guards.exceptBind
      apply guards_perform placing.passes
      rintro reply after ⟨issued, steps⟩
      have quietly : moves after.2 = moves before.2 ∧
          Extension.swapped after.2 = Extension.swapped before.2 := by
        rw [steps]
        simp [moves, Extension.swapped]
      have made : Placing request start added after := by
        rcases issued with ⟨_, tree, made, same⟩ | ⟨_, _, same⟩
        · have proper := placing.passes
          refine ⟨⟨?_, ?_, ?_, ?_⟩, ?_, ?_⟩
          · simp only [courseOf, quietly.1, same]
            exact proper.grown.makeDirectory made
          · simp only [courseOf, quietly.1]
            exact proper.requested
          · simp only [courseOf, quietly.2, same]
            exact proper.unswapped
          · simp only [courseOf, quietly.1, quietly.2, same]
            exact proper.swapped
          · simp only [courseOf, quietly.1]
            exact placing.moves
          · simp only [courseOf, quietly.2]
            exact placing.unswapped
        · apply placing.of_course
          simp only [courseOf, quietly.1, quietly.2, same]
      refine ⟨made.passes, ?_⟩
      cases reply with
      | error error => exact made
      | ok _ => exact inductionHypothesis made


/-- One file is renamed into the revision. -/
theorem guards_moveFile
    {added : List Staged}
    {file : Staged}
    {manifest : Manifest}
    (placing : Placing request start added before)
    (read : start.manifest = .decoded manifest)
    (movable : Movable request start file)
    (unlisted : file.path ∉ manifest.paths) :
    Guards (logged (exec repoType ())) (Passes request start)
      (Extension.perform (.moveFile file.place file.content))
      (fun reply state => reply = .ok () →
        Placing request start (added ++ [file]) state) before := by
  apply guards_perform placing.passes
  rintro reply after ⟨⟨rfl, tree, placed, same⟩ | ⟨_, rfl, same⟩, steps⟩
  · have moved : moves after.2 =
        moves before.2 ++ [(file.place, file.content)] := by
      rw [steps]
      simp [moves]
    have unswapped : Extension.swapped after.2 = false := by
      have early : Extension.swapped before.2 = false := placing.unswapped
      rw [steps, Extension.swapped, List.any_append]
      simpa [Extension.swapped] using early
    have proper := placing.passes
    have passes : Passes request start after := by
      refine ⟨?_, ?_, ?_, ?_⟩
      · simp only [courseOf, moved, same]
        exact proper.grown.placeFile placed
      · simp only [courseOf, moved]
        intro move member
        rcases List.mem_append.mp member with older | new
        · exact proper.requested move older
        · rw [List.mem_singleton] at new
          subst new
          exact ⟨file.path, movable.requested, movable.place, manifest, read,
            unlisted⟩
      · intro _
        simp only [courseOf, same]
        exact proper.unswapped placing.unswapped
      · simp [courseOf, unswapped]
    refine ⟨passes, fun _ => ⟨passes, ?_, unswapped⟩⟩
    simp only [courseOf, moved, List.map_append, List.map_cons, List.map_nil]
    rw [← placing.moves]
    rfl
  · have quietly : courseOf after = courseOf before := by
      simp [courseOf, same, steps, moves, Extension.swapped]
    refine ⟨(placing.of_course quietly).passes, nofun⟩

/-- The loop moves every staged file that is not listed. -/
theorem guards_placeStaged
    {manifest : Manifest}
    {files : List Staged}
    {placed : Placed}
    (placing : Placing request start placed.added before)
    (read : start.manifest = .decoded manifest)
    (movable : ∀ file ∈ files, Movable request start file) :
    Guards (logged (exec repoType ())) (Passes request start)
      (placeStaged manifest.paths files placed).run
      (fun outcome state => ∀ result, outcome = .ok result →
        Placing request start result.added state ∧
          result.added = placed.added ++
            files.filter fun file => file.path ∉ manifest.paths) before := by
  induction files generalizing before placed with
  | nil =>
      refine guards_outcome placing.passes ?_
      rintro _ ⟨⟩
      exact ⟨placing, by simp⟩
  | cons file rest inductionHypothesis =>
      have others : ∀ file ∈ rest, Movable request start file :=
        fun other member => movable other (List.mem_cons_of_mem _ member)
      unfold placeStaged
      split
      · next listed =>
          rw [List.filter_cons_of_neg (by simpa using listed)]
          exact inductionHypothesis placing others
      · next unlisted =>
          rw [List.filter_cons_of_pos (by simpa using unlisted)]
          apply Guards.exceptBind
          apply (guards_createDirectories placing).mono
          intro outcome made _ placingMade
          cases outcome with
          | error error => rintro _ ⟨⟩
          | ok _ =>
          dsimp only
          apply Guards.exceptBind
          apply (guards_moveFile placingMade read
            (movable file List.mem_cons_self) unlisted).mono
          intro reply moved _ placingMoved
          cases reply with
          | error error => rintro _ ⟨⟩
          | ok _ =>
          apply (inductionHypothesis (placingMoved rfl) others).mono
          intro outcome final _ ends result done
          obtain ⟨placingFinal, added⟩ := ends result done
          refine ⟨placingFinal, ?_⟩
          rw [added, List.append_assoc]
          rfl

theorem guards_syncDirectories
    {added : List Staged}
    {paths : List (List String)}
    (placing : Placing request start added before) :
    Guards (logged (exec repoType ())) (Passes request start)
      (syncDirectories paths).run
      (fun _ state => Placing request start added state) before := by
  induction paths generalizing before with
  | nil => exact guards_outcome placing.passes placing
  | cons path rest inductionHypothesis =>
      unfold syncDirectories
      apply Guards.exceptBind
      apply guards_quiet (.syncDirectory path) trivial placing.passes
      intro reply after _ same
      have placingAfter := placing.of_course same
      cases reply with
      | error error => exact placingAfter
      | ok _ => exact inductionHypothesis placingAfter

/-! ## The swap -/

/-- The replacement lists what was moved beside what was listed. -/
structure Replaces (start : RevisionDir) (added : List Staged)
    (replacement : Manifest) : Prop where
  nonempty : added ≠ []
  longer : ∃ manifest, start.manifest = .decoded manifest ∧
    replacement.files.length = manifest.files.length + added.length

theorem guards_renamePart
    {added : List Staged}
    {replacement : Manifest}
    (placing : Placing request start added before)
    (replaces : Replaces start added replacement)
    (whole : before.1.part () = .whole replacement) :
    Guards (logged (exec repoType ())) (Passes request start)
      (Extension.perform .renamePart)
      (fun reply state => reply = .ok () →
        (courseOf state).moves = (courseOf before).moves ∧
          (courseOf state).swapped = true) before := by
  apply guards_perform placing.passes
  rintro reply after ⟨⟨rfl, same⟩ | ⟨_, rfl, same⟩, steps⟩
  · have moved : moves after.2 = moves before.2 := by
      rw [steps]
      simp [moves]
    have done : Extension.swapped after.2 = true := by
      rw [steps]
      simp [Extension.swapped]
    have proper := placing.passes
    have revision : after.1.revision =
        { before.1.revision with manifest := .decoded replacement } := by
      rw [same, Shared.swap, whole]
    refine ⟨⟨?_, ?_, ?_, ?_⟩, fun _ => ⟨moved, done⟩⟩
    · simp only [courseOf, moved, revision]
      exact proper.grown
    · simp only [courseOf, moved]
      exact proper.requested
    · simp [courseOf, done]
    · intro _
      obtain ⟨manifest, read, longer⟩ := replaces.longer
      have count : (moves before.2).length = added.length := by
        have same := congrArg List.length placing.moves
        simpa [courseOf] using same
      simp only [courseOf, moved, revision]
      refine ⟨?_, manifest, replacement, read, rfl, by rw [longer, count]⟩
      rw [← List.length_pos_iff, count, List.length_pos_iff]
      exact replaces.nonempty
  · have quietly : courseOf after = courseOf before := by
      simp [courseOf, same, steps, moves, Extension.swapped]
    exact ⟨(placing.of_course quietly).passes, by rintro ⟨⟩⟩

/-- What was moved is listed from now on. -/
structure Live (request : RevisionExtensionRequest) (start : RevisionDir)
    (added : List Staged) (state : Logged) : Prop where
  passes : Passes request start state
  moves : (courseOf state).moves =
    added.map fun file => (file.place, file.content)
  swapped : (courseOf state).swapped = true

theorem Live.of_course
    {added : List Staged}
    (live : Live request start added before)
    (same : courseOf after = courseOf before) :
    Live request start added after := by
  refine ⟨?_, ?_, ?_⟩
  · rw [Passes, same]
    exact live.passes
  · rw [same, live.moves]
  · rw [same, live.swapped]

theorem guards_swapManifest
    {added : List Staged}
    {replacement : Manifest}
    (placing : Placing request start added before)
    (replaces : Replaces start added replacement) :
    Guards (logged (exec repoType ())) (Passes request start)
      (swapManifest replacement).run
      (fun outcome state => outcome = .ok () →
        Live request start added state) before := by
  unfold swapManifest
  apply Guards.exceptBind
  apply guards_quiet .createPart trivial placing.passes
  intro reply created _ same
  replace placing := placing.of_course same
  cases reply with
  | error error => nofun
  | ok _ =>
  apply Guards.exceptBind
  apply guards_quiet (.writePart replacement) trivial placing.passes
  intro reply written issued same
  replace placing := placing.of_course same
  cases reply with
  | error error => nofun
  | ok _ =>
  have whole : written.1.part () = .whole replacement := by
    rcases issued with ⟨_, stands⟩ | ⟨_, failed, _⟩
    · rw [stands]
      simp [Shared.setPart]
    · cases failed
  apply Guards.exceptBind
  apply guards_quiet .syncPart trivial placing.passes
  intro reply synced issued same
  replace placing := placing.of_course same
  cases reply with
  | error error => nofun
  | ok _ =>
  have whole : synced.1.part () = .whole replacement := by
    have stands : synced.1 = written.1 := issued
    rw [stands, whole]
  apply Guards.exceptBind
  apply (guards_renamePart placing replaces whole).mono
  intro reply renamed passes swaps
  cases reply with
  | error error => nofun
  | ok _ =>
  have live : Live request start added renamed := by
    obtain ⟨moved, done⟩ := swaps rfl
    exact ⟨passes, moved.trans placing.moves, done⟩
  apply Guards.exceptBind
  apply guards_quiet (.syncDirectory []) trivial live.passes
  intro reply flushed _ same
  replace live := live.of_course same
  cases reply with
  | error error => nofun
  | ok _ =>
  apply guards_quiet .syncRevisions trivial live.passes
  intro reply final _ same _
  exact live.of_course same


theorem guards_replaceManifest
    {added : List Staged}
    {replacement : Manifest}
    (placing : Placing request start added before)
    (replaces : Replaces start added replacement) :
    Guards (logged (exec repoType ())) (Passes request start)
      (replaceRevisionManifest replacement).run
      (fun outcome state => outcome = .ok () →
        Live request start added state) before := by
  unfold replaceRevisionManifest
  apply Guards.bind
  apply (guards_swapManifest placing replaces).mono
  intro outcome stopped passes swaps
  cases outcome with
  | ok _ => exact ⟨passes, fun _ => swaps rfl⟩
  | error error =>
      apply Guards.bind
      apply guards_quiet .removePart trivial passes
      intro reply cleaned _ same
      refine ⟨?_, nofun⟩
      rw [Passes, same]
      exact passes

/-! ## The whole extension -/

/-- A completed extension has moved exactly the files that were not listed,
and lists them if there are any. -/
structure Completes (request : RevisionExtensionRequest)
    (start : RevisionDir) (course : Course) : Prop where
  moved : ∃ manifest, start.manifest = .decoded manifest ∧
    course.moves.map (fun move => some move.1) =
      (request.files.filter fun path => path ∉ manifest.paths).map filePlace
  swapped : course.swapped = true ∨ course.moves = []

theorem places_of_movable
    {files : List Staged}
    (placed : ∀ file ∈ files, filePlace file.path = some file.place) :
    files.map (fun file => some file.place) =
      (files.map Staged.path).map filePlace := by
  rw [List.map_map]
  apply List.map_congr_left
  intro file member
  exact (placed file member).symm

theorem guards_extendUnderLock
    {sha256 : Bytes → String}
    {staged : List Staged}
    {skipped : List String}
    {manifest : Manifest}
    (passes : Passes request start before)
    (early : courseOf before = .initial start)
    (read : start.manifest = .decoded manifest)
    (paths : staged.map Staged.path =
      request.files.filter fun path => path ∉ manifest.paths)
    (placed : ∀ file ∈ staged, filePlace file.path = some file.place) :
    Guards (logged (exec repoType ())) (Passes request start)
      (extendUnderLock sha256 repoType request staged skipped).run
      (fun outcome state => ∀ extension, outcome = .ok extension →
        Completes request start (courseOf state)) before := by
  have unlisted : (staged.filter fun file =>
      file.path ∉ manifest.paths) = staged := by
    apply List.filter_eq_self.mpr
    intro file member
    have inPaths := List.mem_map_of_mem (f := Staged.path) member
    rw [paths, List.mem_filter] at inPaths
    exact inPaths.2
  have movable : ∀ file ∈ staged, Movable request start file := by
    intro file member
    refine ⟨?_, placed file member⟩
    have inPaths := List.mem_map_of_mem (f := Staged.path) member
    rw [paths, List.mem_filter] at inPaths
    exact inPaths.1
  have moved : ∀ {course : Course},
      course.moves = (staged.map fun file => (file.place, file.content)) →
      course.moves.map (fun move => some move.1) =
        (request.files.filter fun path => path ∉ manifest.paths).map
          filePlace := by
    intro course same
    rw [same, List.map_map, ← paths, ← places_of_movable placed]
    rfl
  unfold extendUnderLock
  apply Guards.exceptBind
  apply (guards_readExtendable passes (by rw [early]; rfl)).mono
  rintro outcome later _ ⟨same, reads⟩
  cases outcome with
  | error error => nofun
  | ok again =>
  cases read.symm.trans (reads again rfl)
  dsimp only
  have placing : Placing request start
      (⟨[], skipped, []⟩ : Placed).added later := by
    refine ⟨?_, ?_, ?_⟩
    · rw [Passes, same]
      exact passes
    · rw [same, early]
      rfl
    · rw [same, early]
      rfl
  apply Guards.exceptBind
  apply (guards_placeStaged placing read movable).mono
  intro outcome full passesFull ends
  cases outcome with
  | error error => nofun
  | ok result =>
  obtain ⟨placingFull, added⟩ := ends result rfl
  rw [unlisted, List.nil_append] at added
  dsimp only
  split
  · next nothing =>
      refine guards_outcome passesFull ?_
      rintro _ ⟨⟩
      refine ⟨⟨manifest, read, moved ?_⟩, Or.inr ?_⟩
      · rw [placingFull.moves, added]
      · rw [placingFull.moves, nothing]
        rfl
  · next nonempty =>
      have replaces : Replaces start result.added
          (extendedManifest sha256 repoType request manifest
            result.added) := by
        refine ⟨nonempty, manifest, read, ?_⟩
        simp [extendedManifest]
      apply Guards.exceptBind
      apply (guards_syncDirectories placingFull).mono
      intro outcome flushed _ placingFlushed
      cases outcome with
      | error error => nofun
      | ok _ =>
      dsimp only
      apply Guards.exceptBind
      apply guards_quiet (.syncDirectory []) trivial placingFlushed.passes
      intro reply rooted _ same
      have placingRooted := placingFlushed.of_course same
      cases reply with
      | error error => nofun
      | ok _ =>
      apply Guards.exceptBind
      apply (guards_replaceManifest placingRooted replaces).mono
      intro outcome swapped passesSwapped live
      cases outcome with
      | error error => nofun
      | ok _ =>
      refine guards_outcome passesSwapped ?_
      rintro _ ⟨⟩
      refine ⟨⟨manifest, read, moved ?_⟩, Or.inl (live rfl).swapped⟩
      rw [(live rfl).moves, added]

theorem guards_check
    {α β : Type}
    {outcome : Except ArchiveError α}
    {rest : α → Action β}
    {post : Except ArchiveError β → Logged → Prop}
    (passes : Passes request start before)
    (fails : ∀ error, post (.error error) before)
    (continues : ∀ value, outcome = .ok value →
      Guards (logged (exec repoType ())) (Passes request start)
        (rest value).run post before) :
    Guards (logged (exec repoType ())) (Passes request start)
      (Extension.check outcome >>= rest).run post before := by
  apply Guards.exceptBind
  refine guards_outcome passes ?_
  cases outcome with
  | error error => exact fails error
  | ok value => exact continues value rfl

/-- An extension passes through proper courses only, and completes one. -/
theorem guards_extendRevision
    (sha256 : Bytes → String)
    (repoType : RepositoryType)
    (request : RevisionExtensionRequest)
    (start : RevisionDir) :
    Guards (logged (exec repoType ())) (Passes request start)
      (extendRevision sha256 repoType request).run
      (fun outcome state => ∀ extension, outcome = .ok extension →
        Completes request start (courseOf state))
      (.still start, []) := by
  have passes : Passes request start (.still start, []) :=
    proper_initial request start
  have early : courseOf (.still start, []) = .initial start := rfl
  generalize ((Shared.still start, []) : Logged) = before at passes early ⊢
  unfold extendRevision
  refine guards_check passes (by rintro _ _ ⟨⟩) fun _ _ => ?_
  refine guards_check passes (by rintro _ _ ⟨⟩) fun _ _ => ?_
  apply Guards.exceptBind
  apply Guards.bind
  apply guards_quiet .revisionIsDir trivial passes
  intro reply looked _ same
  have again : ∀ {later : Logged}, courseOf later = courseOf before →
      Passes request start later ∧ courseOf later = .initial start := by
    intro later same
    refine ⟨?_, same.trans early⟩
    rw [Passes, same]
    exact passes
  obtain ⟨passes, early⟩ := again same
  refine ⟨passes, ?_⟩
  dsimp only
  split
  · exact guards_outcome passes (by rintro _ ⟨⟩)
  clear again same
  apply Guards.exceptBind
  apply (guards_readExtendable passes (by rw [early]; rfl)).mono
  rintro outcome read passesRead ⟨same, reads⟩
  have earlyRead := same.trans early
  cases outcome with
  | error error => rintro _ ⟨⟩
  | ok manifest =>
  have decoded := reads manifest rfl
  dsimp only
  refine guards_check passesRead (by rintro _ _ ⟨⟩) fun sorted classified => ?_
  have candidates := classify_candidates classified
  rw [List.nil_append] at candidates
  split
  · next nothing =>
      refine guards_outcome passesRead ?_
      rintro _ ⟨⟩
      rw [earlyRead]
      refine ⟨⟨manifest, decoded, ?_⟩, Or.inr rfl⟩
      rw [← candidates, nothing]
      rfl
  clear same passes early
  apply Guards.exceptBind
  apply guards_quiet .canonicalizeSourceRoot trivial passesRead
  intro reply rooted _ same
  cases reply with
  | error error => rintro _ ⟨⟩
  | ok _ =>
  have passesRooted : Passes request start rooted := by
    rw [Passes, same]
    exact passesRead
  dsimp only
  apply Guards.exceptBind
  apply guards_quiet .createStaging trivial passesRooted
  intro reply created _ sameCreated
  cases reply with
  | error error => rintro _ ⟨⟩
  | ok _ =>
  have passesCreated : Passes request start created := by
    rw [Passes, sameCreated]
    exact passesRooted
  dsimp only
  apply Guards.exceptBind
  apply (guards_stage passesCreated (by simp)).mono
  rintro outcome filled passesFilled ⟨sameFilled, stages⟩
  cases outcome with
  | error error => rintro _ ⟨⟩
  | ok staged =>
  obtain ⟨paths, placed⟩ := stages staged rfl
  rw [List.map_nil, List.nil_append, candidates] at paths
  dsimp only
  apply Guards.exceptBind
  apply guards_quiet .lock trivial passesFilled
  intro reply locked _ sameLocked
  cases reply with
  | error error => rintro _ ⟨⟩
  | ok _ =>
  have earlyLocked : courseOf locked = .initial start := by
    rw [sameLocked, sameFilled, sameCreated, same, earlyRead]
  have passesLocked : Passes request start locked := by
    rw [Passes, sameLocked]
    exact passesFilled
  apply Guards.bind
  apply (guards_extendUnderLock passesLocked earlyLocked decoded paths
    placed).mono
  intro outcome ended passesEnded completes
  apply Guards.bind
  apply guards_quiet .unlock trivial passesEnded
  intro reply final _ sameFinal
  refine ⟨?_, ?_⟩
  · rw [Passes, sameFinal]
    exact passesEnded
  · intro extension done
    rw [sameFinal]
    exact completes extension done

end Extension
end ModelKeep
