import ModelKeep.Importing.Plan

/-!
# Copying a snapshot

What a publication reads is what the cache holds, and what it stages is the
revision that the cache asks for, unless a step is refused.  Until it is
renamed into place, only its staging directory changes.
-/

namespace FileTree

variable {α : Type}

/-- A tree is what can be looked up in it. -/
theorem eq_of_lookup
    {one other : FileTree α}
    (same : ∀ path, one.lookup path = other.lookup path) :
    one = other := by
  ext1
  funext path
  by_cases root : path = []
  · rw [root, one.rootless, other.rootless]
  · rw [← lookup_of_ne_nil _ root, ← lookup_of_ne_nil _ root, same]

/-- A file that is there can be replaced. -/
theorem exists_placeFile
    {tree : FileTree α}
    {path : List String}
    {old : α}
    (stands : tree.lookup path = some (.file old))
    (content : α) :
    ∃ after, tree.placeFile path content = some after := by
  have nonempty : path ≠ [] := by
    rintro rfl
    cases stands
  have present : (tree.lookup path).isSome := by simp [stands]
  refine ⟨_, dif_pos ⟨nonempty, tree.legal_of_lookup present, ?_,
    tree.isDirectory_dropLast present⟩⟩
  unfold isDirectory
  rw [stands]

theorem placeFile_self
    {tree : FileTree α}
    {path : List String}
    {content : α}
    (stands : tree.lookup path = some (.file content)) :
    tree.placeFile path content = some tree := by
  obtain ⟨after, placed⟩ := exists_placeFile stands content
  rw [placed, Option.some.injEq]
  apply eq_of_lookup
  intro other
  rw [lookup_placeFile placed]
  split
  · next same => rw [same, stands]
  · rfl

/-- The last content counts. -/
theorem placeFile_placeFile
    {tree middle : FileTree α}
    {path : List String}
    {first : α}
    (placed : tree.placeFile path first = some middle)
    (second : α) :
    middle.placeFile path second = tree.placeFile path second := by
  have stands : middle.lookup path = some (.file first) := by
    rw [lookup_placeFile placed, if_pos rfl]
  obtain ⟨after, again⟩ := exists_placeFile stands second
  have fits : ∃ direct, tree.placeFile path second = some direct := by
    unfold placeFile at placed ⊢
    split at placed
    · next fits => exact ⟨_, dif_pos fits⟩
    · cases placed
  obtain ⟨direct, placedToo⟩ := fits
  rw [again, placedToo, Option.some.injEq]
  apply eq_of_lookup
  intro other
  rw [lookup_placeFile again, lookup_placeFile placedToo,
    lookup_placeFile placed]
  split <;> rfl

end FileTree

namespace ModelKeep
namespace Importing

open Concurrency Program

/-- An archive and the steps that were taken. -/
abbrev Logged : Type := World × List (Event interface)

/-- No error that the import passes over. -/
def Mishap (error : ArchiveError) : Prop :=
  ∀ commit, error ≠ .alreadyPublished commit

section copying

variable {cache : Cache} {refusable : Op → Prop} {α β : Type}

/-! ## Errors -/

theorem mishap_io (kind : IoErrorKind) : Mishap (.io kind) := nofun

theorem mishap_invalidPath (path : String) : Mishap (.invalidPath path) :=
  nofun

theorem mishap_of_bind
    {first : Except ArchiveError α}
    {rest : α → Except ArchiveError β}
    {error : ArchiveError}
    (failed : first >>= rest = .error error)
    (firstly : ∀ error, first = .error error → Mishap error)
    (secondly : ∀ value error, rest value = .error error → Mishap error) :
    Mishap error := by
  cases first with
  | error other =>
      cases failed
      exact firstly error rfl
  | ok value => exact secondly value error failed

theorem mishap_of_validateComponent
    {value : String}
    {error : ArchiveError}
    (invalid : validateComponent value = .error error) :
    Mishap error := by
  unfold validateComponent at invalid
  split at invalid <;> cases invalid
  exact mishap_invalidPath _

theorem mishap_of_validateRepoId
    {repoId : String}
    {error : ArchiveError}
    (invalid : validateRepoId repoId = .error error) :
    Mishap error := by
  unfold validateRepoId at invalid
  split at invalid
  · split at invalid
    · cases invalid
      exact mishap_invalidPath _
    · refine mishap_of_bind invalid
        (fun _ => mishap_of_validateComponent) fun _ error invalid => ?_
      exact mishap_of_bind invalid
        (fun _ => mishap_of_validateComponent) nofun
  · cases invalid
    exact mishap_invalidPath _

theorem mishap_of_validateRevision
    {commit : String}
    {error : ArchiveError}
    (invalid : validateRevision commit = .error error) :
    Mishap error := by
  unfold validateRevision at invalid
  split at invalid <;> cases invalid
  exact mishap_invalidPath _

theorem mishap_of_validateRelativeFilePath
    {path : String}
    {error : ArchiveError}
    (invalid : validateRelativeFilePath path = .error error) :
    Mishap error := by
  unfold validateRelativeFilePath at invalid
  split at invalid <;> cases invalid
  exact mishap_invalidPath _

theorem mishap_of_placeOf
    {path : String}
    {error : ArchiveError}
    (invalid : Extension.placeOf path = .error error) :
    Mishap error := by
  unfold Extension.placeOf at invalid
  split at invalid <;> cases invalid
  exact mishap_io _

theorem mishap_of_checkRequest
    {request : FileSystem.SourcePublishRequest}
    {error : ArchiveError}
    (invalid : checkRequest request = .error error) :
    Mishap error := by
  refine mishap_of_bind invalid (fun _ => mishap_of_validateRepoId)
    fun _ error invalid => ?_
  refine mishap_of_bind invalid (fun _ => mishap_of_validateComponent)
    fun _ error invalid => ?_
  refine mishap_of_bind invalid (fun _ => mishap_of_validateRevision)
    fun _ error invalid => ?_
  split at invalid
  · cases invalid
    exact mishap_invalidPath _
  · cases invalid

theorem mishap_of_metadata
    {path : List String}
    {error : ArchiveError}
    (failed : cache.disk.metadata path = .error error) :
    Mishap error := by
  unfold Disk.metadata at failed
  split at failed <;> cases failed
  exact mishap_io _

theorem mishap_of_canonicalize
    {path : List String}
    {error : ArchiveError}
    (failed : cache.disk.canonicalize path = .error error) :
    Mishap error := by
  unfold Disk.canonicalize at failed
  split at failed <;> cases failed
  exact mishap_io _

theorem mishap_of_answer
    {op : Look}
    {error : ArchiveError}
    (failed : cache.answer op = .error error) :
    Mishap error := by
  cases op with
  | canonicalize path => exact mishap_of_canonicalize failed
  | readDir path =>
      refine mishap_of_bind failed (fun _ => mishap_of_canonicalize)
        fun place error failed => ?_
      split at failed
      · cases failed
      · cases failed
        exact mishap_io _
  | nextEntry path => cases failed
  | fileType path =>
      change cache.disk.symlinkMetadata path = _ at failed
      unfold Disk.symlinkMetadata at failed
      split at failed <;> cases failed
      exact mishap_io _
  | metadata path => exact mishap_of_metadata failed
  | openFile path =>
      cases found : cache.disk.metadata path with
      | error other =>
          simp only [Cache.answer, found, Except.map] at failed
          cases failed
          exact mishap_of_metadata found
      | ok node =>
          simp only [Cache.answer, found, Except.map] at failed
          cases failed
  | readToString path =>
      refine mishap_of_bind failed (fun error failed => ?_)
        fun bytes error failed => ?_
      · refine mishap_of_bind failed (fun _ => mishap_of_metadata)
          fun node error failed => ?_
        split at failed <;> cases failed
        exact mishap_io _
      · split at failed <;> cases failed
        exact mishap_io _

/-! ## Looking -/

variable (cache refusable) in
/-- The program only looks at the cache, and finds this. -/
def Reads (action : Action α) (found : Option α) : Prop :=
  ∀ start : Logged, Guards (logged (Effect cache refusable))
    (fun state => state.1 = start.1 ∧ pending state.2 = pending start.2)
    action.run
    (fun outcome _ =>
      match outcome with
      | .ok value => found = some value
      | .error error =>
          Mishap error ∧ ((∃ op, refusable op) ∨ found = none)) start

theorem reads_ok (value : α) :
    Reads cache refusable (check (.ok value)) (some value) :=
  fun _ => ⟨⟨rfl, rfl⟩, rfl⟩

theorem reads_error
    {error : ArchiveError}
    (mishap : Mishap error) :
    Reads cache refusable (check (.error error) : Action α) none :=
  fun _ => ⟨⟨rfl, rfl⟩, mishap, Or.inr rfl⟩

theorem reads_look (op : Look) :
    Reads cache refusable (look op) (cache.answer op).toOption := by
  intro start
  apply guards_perform ⟨rfl, rfl⟩
  rintro reply after ⟨⟨rfl, same⟩ | ⟨may, ⟨kind, rfl⟩, same⟩, steps⟩
  · refine ⟨⟨same, by rw [steps, pending_append]; rfl⟩, ?_⟩
    cases answered : cache.answer op with
    | ok value => rfl
    | error error => exact ⟨mishap_of_answer answered, Or.inr rfl⟩
  · refine ⟨⟨same, by rw [steps, pending_append]; rfl⟩, ?_⟩
    exact ⟨mishap_io kind, Or.inl ⟨_, may⟩⟩

theorem Reads.bind
    {action : Action α}
    {rest : α → Action β}
    {found : Option α}
    {result : Option β}
    (first : Reads cache refusable action found)
    (second : ∀ value, found = some value →
      Reads cache refusable (rest value) result)
    (fails : found = none → result = none) :
    Reads cache refusable (action >>= rest) result := by
  intro start
  apply Guards.exceptBind
  apply (first start).mono
  rintro outcome middle ⟨same, still⟩ ends
  cases outcome with
  | ok value =>
      apply (second value ends middle).widen
      rintro state ⟨sameToo, stillToo⟩
      exact ⟨sameToo.trans same, stillToo.trans still⟩
  | error error => exact ⟨ends.1, ends.2.imp_right fails⟩

/-- What is looked up is what stands there. -/
theorem toOption_eq_some
    {outcome : Except ArchiveError α}
    {value : α} :
    outcome.toOption = some value ↔ outcome = .ok value := by
  cases outcome <;> simp [Except.toOption]

theorem toOption_eq_none {outcome : Except ArchiveError α} :
    outcome.toOption = none ↔ ∃ error, outcome = .error error := by
  cases outcome <;> simp [Except.toOption]

theorem Reads.look_bind
    {op : Look}
    {rest : op.Answer → Action β}
    {result : Option β}
    (second : ∀ value, cache.answer op = .ok value →
      Reads cache refusable (rest value) result)
    (fails : ∀ error, cache.answer op = .error error → result = none) :
    Reads cache refusable (look op >>= rest) result := by
  refine (reads_look op).bind (fun value same => ?_) fun none => ?_
  · exact second value (toOption_eq_some.mp same)
  · obtain ⟨error, failed⟩ := toOption_eq_none.mp none
    exact fails error failed

/-- The loop over the entries of a directory. -/
theorem reads_eachEntry
    {directory : List String}
    {visit : String → α → Action α}
    {found : α → String → Option α}
    (visits : ∀ name value,
      Reads cache refusable (visit name value) (found value name))
    (names : List String)
    (value : α) :
    Reads cache refusable (eachEntry directory visit names value)
      (names.foldlM found value) := by
  induction names generalizing value with
  | nil => exact .look_bind (fun _ _ => reads_ok value) nofun
  | cons name rest inductionHypothesis =>
      refine .look_bind (fun _ _ => ?_) nofun
      rw [List.foldlM_cons]
      refine (visits name value).bind (fun next same => ?_) fun none => ?_
      · rw [same]
        exact inductionHypothesis next
      · rw [none]
        rfl

theorem reads_collectFiles
    (snapshot : List String)
    (levels : Nat)
    (current : List String)
    (files : List FileSystem.SourceFile) :
    Reads cache refusable
      (collectFiles cache snapshot levels current files)
      (cache.collectFiles snapshot levels current files) := by
  induction levels generalizing current files with
  | zero => exact reads_error (mishap_io _)
  | succ levels inductionHypothesis =>
      refine .look_bind (fun names listed => ?_) fun error failed => ?_
      · replace listed : cache.readDir current = .ok names := listed
        rw [Cache.collectFiles, listed]
        apply reads_eachEntry
        intro name value
        unfold Cache.collectEntry
        refine .look_bind (fun node stands => ?_) fun error failed => ?_
        · replace stands : cache.disk.symlinkMetadata (current ++ [name]) =
            .ok node := stands
          rw [stands]
          cases node with
          | directory => exact inductionHypothesis _ _
          | file content => exact reads_ok _
          | link target => exact reads_ok _
        · replace failed : cache.disk.symlinkMetadata (current ++ [name]) =
            .error error := failed
          rw [failed]
      · replace failed : cache.readDir current = .error error := failed
        rw [Cache.collectFiles, failed]

/-! ## Staging -/

@[simp] theorem setStaging_setStaging
    (world : World)
    (staging : String)
    (first second : Option RevisionDir) :
    (world.setStaging staging first).setStaging staging second =
      world.setStaging staging second := by
  simp [World.setStaging]

@[simp] theorem staging_setStaging
    (world : World)
    (staging : String)
    (revision : Option RevisionDir) :
    (world.setStaging staging revision).staging staging = revision :=
  Function.update_self ..

@[simp] theorem shown_setStaging
    (world : World)
    (staging : String)
    (revision : Option RevisionDir) :
    (world.setStaging staging revision).shown = world.shown := rfl

/-- Beside the archive there is a staging directory with this in it. -/
def At (world : World) (staging : String) (revision : RevisionDir)
    (state : Logged) : Prop :=
  state.1 = world.setStaging staging (some revision) ∧
    pending state.2 = false

/-- Nothing but a staging directory has changed. -/
def Within (world : World) (staging : String) (state : Logged) : Prop :=
  (∃ left, state.1 = world.setStaging staging left) ∧
    pending state.2 = false

theorem At.within
    {world : World}
    {staging : String}
    {revision : RevisionDir}
    {state : Logged}
    (here : At world staging revision state) :
    Within world staging state :=
  ⟨⟨_, here.1⟩, here.2⟩

section fills

variable {world : World} {staging : String} {revision : RevisionDir}
  {action : Action α} {rest : α → Action β}
  {found : Option (α × RevisionDir)} {result : Option (β × RevisionDir)}

variable (cache refusable world staging) in
/-- The program makes this of the staging directory, and answers this. -/
def Fills (action : Action α) (revision : RevisionDir)
    (result : Option (α × RevisionDir)) : Prop :=
  ∀ start, At world staging revision start →
    Guards (logged (Effect cache refusable)) (Within world staging)
      action.run
      (fun outcome state =>
        match outcome with
        | .ok value => ∃ next, result = some (value, next) ∧
            At world staging next state
        | .error error =>
            Mishap error ∧ ((∃ op, refusable op) ∨ result = none)) start

theorem fills_ok (value : α) :
    Fills cache refusable world staging (check (.ok value)) revision
      (some (value, revision)) :=
  fun _ here => ⟨here.within, revision, rfl, here⟩

theorem fills_error
    {error : ArchiveError}
    (mishap : Mishap error) :
    Fills cache refusable world staging (check (.error error) : Action α)
      revision none :=
  fun _ here => ⟨here.within, mishap, Or.inr rfl⟩

theorem Reads.fills
    {value : Option α}
    (reads : Reads cache refusable action value) :
    Fills cache refusable world staging action revision
      (value.map fun value => (value, revision)) := by
  intro start here
  have still : ∀ {state : Logged}, state.1 = start.1 ∧
      pending state.2 = pending start.2 →
        At world staging revision state := fun same =>
    ⟨same.1.trans here.1, same.2.trans here.2⟩
  apply Guards.widen _ fun state same => (still same).within
  apply (reads start).mono
  intro outcome state same ends
  cases outcome with
  | ok found =>
      refine ⟨revision, ?_, still same⟩
      rw [show value = some found from ends]
      rfl
  | error error =>
      refine ⟨ends.1, ends.2.imp_right fun none => ?_⟩
      rw [none]
      rfl

theorem Fills.bind
    (first : Fills cache refusable world staging action revision found)
    (second : ∀ value next, found = some (value, next) →
      Fills cache refusable world staging (rest value) next result)
    (fails : found = none → result = none) :
    Fills cache refusable world staging (action >>= rest) revision
      result := by
  intro start here
  apply Guards.exceptBind
  apply (first start here).mono
  intro outcome middle _ ends
  cases outcome with
  | ok value =>
      obtain ⟨next, same, there⟩ := ends
      exact second value next same middle there
  | error error => exact ⟨ends.1, ends.2.imp_right fails⟩

theorem Fills.look_bind
    {op : Look}
    {rest : op.Answer → Action β}
    (second : ∀ value, cache.answer op = .ok value →
      Fills cache refusable world staging (rest value) revision result)
    (fails : ∀ error, cache.answer op = .error error → result = none) :
    Fills cache refusable world staging (look op >>= rest) revision
      result := by
  refine (reads_look op).fills.bind (fun value next same => ?_) fun none => ?_
  · obtain ⟨_, answered, same⟩ := Option.map_eq_some_iff.mp same
    cases same
    exact second value (toOption_eq_some.mp answered)
  · obtain ⟨error, failed⟩ :=
      toOption_eq_none.mp (Option.map_eq_none_iff.mp none)
    exact fails error failed

theorem Fills.check_bind
    {outcome : Except ArchiveError α}
    (mishap : ∀ error, outcome = .error error → Mishap error)
    (second : ∀ value, outcome = .ok value →
      Fills cache refusable world staging (rest value) revision result)
    (fails : ∀ error, outcome = .error error → result = none) :
    Fills cache refusable world staging (check outcome >>= rest) revision
      result := by
  cases outcome with
  | ok value =>
      exact (fills_ok value).bind
        (by rintro _ _ ⟨⟩; exact second value rfl) nofun
  | error error =>
      exact (fills_error (mishap error rfl)).bind nofun
        fun _ => fails error rfl

theorem fills_stage (op : StageOp) :
    Fills cache refusable world staging (stage staging op) revision
      ((op.apply revision).map fun next => ((), next)) := by
  rintro start here
  apply guards_perform here.within
  obtain ⟨same, settled⟩ := here
  rintro reply after ⟨changes | ⟨may, ⟨kind, rfl⟩, left, changed⟩, steps⟩
  · have still : pending after.2 = false := by
      rw [steps, pending_append, settled]
      rfl
    simp only [Succeeds, same, staging_setStaging, Option.bind_some,
      setStaging_setStaging] at changes
    cases applied : op.apply revision with
    | some next =>
        rw [applied] at changes
        obtain ⟨rfl, changed⟩ := changes
        exact ⟨⟨⟨_, changed⟩, still⟩, next, rfl, changed, still⟩
    | none =>
        rw [applied] at changes
        obtain ⟨⟨kind, rfl⟩, left, changed⟩ := changes
        exact ⟨⟨⟨left, changed⟩, still⟩, mishap_io kind, Or.inr rfl⟩
  · rw [same, setStaging_setStaging] at changed
    refine ⟨⟨⟨left, changed⟩, ?_⟩, mishap_io kind, Or.inl ⟨_, may⟩⟩
    rw [steps, pending_append, settled]
    rfl

theorem Fills.stage_bind
    {op : StageOp}
    {rest : Unit → Action β}
    (second : ∀ next, op.apply revision = some next →
      Fills cache refusable world staging (rest ()) next result)
    (fails : op.apply revision = none → result = none) :
    Fills cache refusable world staging (stage staging op >>= rest) revision
      result := by
  refine (fills_stage op).bind (fun value next same => ?_) fun none => ?_
  · obtain ⟨_, applied, same⟩ := Option.map_eq_some_iff.mp same
    cases same
    exact second next applied
  · exact fails (Option.map_eq_none_iff.mp none)

/-- `write_all` of one chunk after the other. -/
theorem fills_appendAll
    {place : List String}
    {written : Bytes}
    (chunks : List Bytes)
    (stands : revision.tree.lookup place = some (.file written)) :
    Fills cache refusable world staging (appendAll staging place chunks)
      revision ((revision.tree.placeFile place
        (written ++ chunks.flatten)).map fun tree =>
          ((), { revision with tree := tree })) := by
  induction chunks generalizing revision written with
  | nil =>
      rw [List.flatten_nil, List.append_nil, FileTree.placeFile_self stands]
      exact fills_ok ()
  | cons chunk rest inductionHypothesis =>
      obtain ⟨tree, placed⟩ :=
        FileTree.exists_placeFile stands (written ++ chunk)
      have applied : (StageOp.append place chunk).apply revision =
          some { revision with tree := tree } := by
        simp only [StageOp.apply, stands, placed]
        rfl
      refine .stage_bind (fun next same => ?_) fun none => ?_
      · cases applied.symm.trans same
        have grown : tree.lookup place =
            some (.file (written ++ chunk)) := by
          rw [FileTree.lookup_placeFile placed, if_pos rfl]
        have remaining := @inductionHypothesis
          { revision with tree := tree } _ grown
        rwa [FileTree.placeFile_placeFile placed, List.append_assoc,
          ← List.flatten_cons] at remaining
      · rw [applied] at none
        cases none

/-- A question whether something is a file, where it has to be. -/
theorem Fills.isFile_bind
    {path : List String}
    {error : ArchiveError}
    {rest : Action β}
    (mishap : Mishap error)
    (second : ∀ content, cache.disk.metadata path = .ok (.file content) →
      Fills cache refusable world staging rest revision result)
    (fails : (∀ content, cache.disk.metadata path ≠ .ok (.file content)) →
      result = none) :
    Fills cache refusable world staging
      (always (isFile path) >>= fun found =>
        if found = false then check (.error error) else rest)
      revision result := by
  rintro start here
  apply Guards.exceptBind
  rw [run_always]
  apply Guards.bind
  unfold isFile
  apply Guards.bind
  apply guards_perform here.within
  rintro reply after answers
  have still : At world staging revision after := by
    obtain ⟨⟨_, same⟩ | ⟨_, _, same⟩, steps⟩ := answers <;>
      exact ⟨same.trans here.1, by rw [steps, pending_append, here.2]; rfl⟩
  refine ⟨still.within, ?_⟩
  obtain ⟨⟨rfl, _⟩ | ⟨may, ⟨kind, rfl⟩, _⟩, _⟩ := answers
  · split
    · next content found =>
        exact ⟨still.within, still.within, second content found after still⟩
    · next missing =>
        refine ⟨still.within, still.within, still.within, mishap, Or.inr ?_⟩
        exact fails fun content found => missing content found
  · exact ⟨still.within, still.within, still.within, mishap,
      Or.inl ⟨_, may⟩⟩

/-- The loop that copies a file to one that is empty. -/
theorem fills_copyChunks
    {source place : List String}
    {content : Bytes}
    {rest : Bytes → Action β}
    (found : cache.disk.metadata source = .ok (.file content))
    (stands : revision.tree.lookup place = some (.file []))
    (second : ∀ tree, revision.tree.placeFile place content = some tree →
      Fills cache refusable world staging (rest content)
        { revision with tree := tree } result) :
    Fills cache refusable world staging
      (do
        let (chunks, failure) ← always (perform (.readChunks source))
        appendAll staging place chunks
        let content ← check
          (FileSystem.Setting.wholeContent chunks failure)
        rest content)
      revision result := by
  rintro start here
  apply Guards.exceptBind
  rw [run_always]
  apply Guards.bind
  apply guards_perform here.within
  rintro ⟨chunks, failure⟩ after ⟨reads, steps⟩
  have still : At world staging revision after := by
    refine ⟨?_, by rw [steps, pending_append, here.2]; rfl⟩
    rcases reads with ⟨_, same⟩ | ⟨_, _, _, same⟩ <;>
      exact same.trans here.1
  refine ⟨still.within, still.within, ?_⟩
  have appended := @fills_appendAll cache refusable world staging revision
    place [] chunks stands
  rcases reads with ⟨whole, _⟩ | ⟨may, _, failed, _⟩
  · obtain ⟨rfl, rfl⟩ := whole content found
    refine appended.bind (fun _ next same => ?_) (fun none => ?_) after still
    · obtain ⟨tree, placed, same⟩ := Option.map_eq_some_iff.mp same
      cases same
      exact second tree placed
    · obtain ⟨tree, placed⟩ := FileTree.exists_placeFile stands
        ([] ++ chunks.flatten)
      rw [placed] at none
      cases none
  · obtain ⟨kind, rfl⟩ := Option.isSome_iff_exists.mp failed
    have ends : Fills cache refusable world staging
        (do
          appendAll staging place chunks
          let content ← check (FileSystem.Setting.wholeContent chunks
            (some kind))
          rest content) revision none :=
      appended.bind (fun _ _ _ => (fills_error (mishap_io kind)).bind nofun
        fun _ => rfl) fun _ => rfl
    apply (ends after still).mono
    intro outcome state _ ends
    cases outcome with
    | ok value =>
        obtain ⟨_, impossible, _⟩ := ends
        cases impossible
    | error error => exact ⟨ends.1, Or.inl ⟨_, may⟩⟩

/-! ### The files of a snapshot -/

/-- Whether a file can be created does not depend on its content. -/
theorem exists_createFile
    {tree after : FileTree Bytes}
    {path : List String}
    {content : Bytes}
    (created : tree.createFile path content = some after)
    (other : Bytes) :
    ∃ after, tree.createFile path other = some after := by
  obtain ⟨absent, placed⟩ :=
    FileSystem.placed_of_createFile created
  have stands : after.lookup path = some (.file content) := by
    rw [FileTree.lookup_placeFile placed, if_pos rfl]
  obtain ⟨final, replaced⟩ := FileTree.exists_placeFile stands other
  refine ⟨final, ?_⟩
  rw [FileTree.placeFile_placeFile placed] at replaced
  rw [FileTree.createFile, absent]
  exact replaced

variable (cache) in
/-- What the copy of one file makes of a staging directory. -/
def copied (sha256 : Bytes → String) (sourceRoot : List String)
    (file : FileSystem.SourceFile) (tree : FileTree Bytes) :
    Except ArchiveError (FileTree Bytes × ManifestFile) := do
  validateRelativeFilePath file.path
  let content ← cache.content sourceRoot file
  let place ← Extension.placeOf file.path
  let tree ← Extension.stageFile tree place content
  return (tree, ⟨file.path, content.length, sha256 content⟩)

variable {sha256 : Bytes → String} {sourceRoot : List String}

/-- The tree of a staging directory and what is returned. -/
def staged {γ : Type} (revision : RevisionDir) :
    Except ArchiveError (FileTree Bytes × γ) → Option (γ × RevisionDir)
  | .ok (tree, value) => some (value, { revision with tree := tree })
  | .error _ => none

theorem staged_eq_none
    {γ : Type}
    {outcome : Except ArchiveError (FileTree Bytes × γ)} :
    staged revision outcome = none ↔ ∃ error, outcome = .error error := by
  cases outcome <;> simp [staged]

/-- A copy succeeds when all of its parts do. -/
theorem copied_eq_ok
    {file : FileSystem.SourceFile}
    {tree after : FileTree Bytes}
    {entry : ManifestFile} :
    copied cache sha256 sourceRoot file tree = .ok (after, entry) ↔
      validateRelativeFilePath file.path = .ok () ∧
        ∃ content place, cache.content sourceRoot file = .ok content ∧
          Extension.placeOf file.path = .ok place ∧
          Extension.stageFile tree place content = .ok after ∧
          entry = ⟨file.path, content.length, sha256 content⟩ := by
  unfold copied
  constructor
  · intro made
    obtain ⟨⟨⟩, valid, made⟩ := bind_eq_ok.mp made
    obtain ⟨content, found, made⟩ := bind_eq_ok.mp made
    obtain ⟨place, leads, made⟩ := bind_eq_ok.mp made
    obtain ⟨tree, staged, made⟩ := bind_eq_ok.mp made
    cases made
    exact ⟨valid, content, place, found, leads, staged, rfl⟩
  · rintro ⟨valid, content, place, found, leads, staged, rfl⟩
    rw [valid, found, leads]
    change (Extension.stageFile tree place content >>= _) = _
    rw [staged]
    rfl

theorem staged_copied_eq_none
    {file : FileSystem.SourceFile}
    (fails : ∀ content place tree,
      validateRelativeFilePath file.path = .ok () →
      cache.content sourceRoot file = .ok content →
      Extension.placeOf file.path = .ok place →
      Extension.stageFile revision.tree place content ≠ .ok tree) :
    staged revision (copied cache sha256 sourceRoot file revision.tree) =
      none := by
  rw [staged_eq_none]
  cases made : copied cache sha256 sourceRoot file revision.tree with
  | error error => exact ⟨error, rfl⟩
  | ok made' =>
      obtain ⟨valid, content, place, found, leads, staged, _⟩ :=
        copied_eq_ok.mp made
      exact absurd staged (fails content place _ valid found leads)

/-- What a file holds that leads to this place. -/
theorem content_of_leads
    {file : FileSystem.SourceFile}
    {source : List String}
    (leads : cache.answer (.canonicalize file.source) = .ok source) :
    cache.content sourceRoot file =
      (if ¬sourceRoot <+: source then .error (.invalidPath file.path)
      else match cache.disk.metadata source with
        | .ok (.file content) => .ok content
        | _ => .error (.invalidPath file.path)) := by
  unfold Cache.content
  change (cache.answer (.canonicalize file.source) >>= _) = _
  rw [leads]
  rfl

theorem fills_writeSourceFile (file : FileSystem.SourceFile) :
    Fills cache refusable world staging
      (writeSourceFile sha256 staging sourceRoot file) revision
      (staged revision
        (copied cache sha256 sourceRoot file revision.tree)) := by
  unfold writeSourceFile
  refine .check_bind (fun _ => mishap_of_validateRelativeFilePath)
    (fun _ valid => ?_) fun error invalid => ?_
  on_goal 2 =>
    apply staged_copied_eq_none
    intro _ _ _ valid
    rw [invalid] at valid
    cases valid
  refine .look_bind (fun source leads => ?_) fun error failed => ?_
  on_goal 2 =>
    apply staged_copied_eq_none
    intro _ _ _ _ found
    obtain ⟨source, leads, _⟩ := bind_eq_ok.mp found
    cases leads.symm.trans failed
  have content_eq := @content_of_leads cache sourceRoot file source leads
  split
  · next outside =>
      rw [staged_copied_eq_none]
      · exact fills_error (mishap_invalidPath _)
      · intro _ _ _ _ found
        rw [content_eq, if_pos outside] at found
        cases found
  next inside =>
  rw [if_neg inside] at content_eq
  refine .isFile_bind (mishap_invalidPath _) (fun content found => ?_)
    fun missing => ?_
  on_goal 2 =>
    apply staged_copied_eq_none
    intro _ _ _ _ found
    rw [content_eq] at found
    split at found
    · next content stands => exact absurd stands (missing content)
    · cases found
  rw [found] at content_eq
  refine .check_bind (fun _ => mishap_of_placeOf) (fun place leads => ?_)
    fun error homeless => ?_
  on_goal 2 =>
    apply staged_copied_eq_none
    intro _ _ _ _ _ leads
    rw [homeless] at leads
    cases leads
  have fails : (∀ tree,
      Extension.stageFile revision.tree place content ≠ .ok tree) →
      staged revision
        (copied cache sha256 sourceRoot file revision.tree) = none := by
    intro fails
    apply staged_copied_eq_none
    intro _ _ tree _ same leadsToo
    cases content_eq.symm.trans same
    cases leads.symm.trans leadsToo
    exact fails tree
  refine .stage_bind (fun next made => ?_) fun none => ?_
  on_goal 2 =>
    apply fails
    intro tree made
    unfold Extension.stageFile at made
    split at made
    · cases made
    · next prepared makes =>
        change (revision.tree.makeDirectories place.dropLast).bind _ = _
          at none
        rw [makes] at none
        cases none
  obtain ⟨prepared, makes, same⟩ := Option.bind_eq_some_iff.mp made
  cases same
  refine .look_bind (fun _ _ => ?_) fun error failed => ?_
  on_goal 2 =>
    change (cache.disk.metadata source).map _ = _ at failed
    rw [found] at failed
    cases failed
  refine .stage_bind (fun next made => ?_) fun none => ?_
  on_goal 2 =>
    apply fails
    intro tree made
    unfold Extension.stageFile at made
    rw [makes] at made
    dsimp only at made
    split at made
    · cases made
    · next after created =>
        obtain ⟨empty, createdToo⟩ := exists_createFile created []
        change (prepared.createFile place []).bind _ = _ at none
        rw [createdToo] at none
        cases none
  obtain ⟨created, creates, same⟩ := Option.bind_eq_some_iff.mp made
  cases same
  have places := (FileSystem.placed_of_createFile creates).2
  have stands : created.lookup place = some (.file []) := by
    rw [FileTree.lookup_placeFile places, if_pos rfl]
  refine fills_copyChunks found stands fun tree placed => ?_
  have whole : copied cache sha256 sourceRoot file revision.tree =
      .ok (tree, ⟨file.path, content.length, sha256 content⟩) := by
    apply copied_eq_ok.mpr
    refine ⟨valid, content, place, content_eq, leads, ?_, rfl⟩
    unfold Extension.stageFile
    rw [makes]
    dsimp only
    rw [FileTree.placeFile_placeFile places] at placed
    unfold FileTree.createFile at creates ⊢
    split at creates
    · next free => rw [if_pos free, placed]
    · cases creates
  rw [whole]
  refine .stage_bind ?_ ?_
  · rintro _ ⟨⟩
    exact fills_ok _
  · rintro ⟨⟩

theorem writeFiles_cons
    (file : FileSystem.SourceFile)
    (rest : List Publishing.ArchiveFile)
    (tree : FileTree Bytes)
    (entries : List ManifestFile) :
    Publishing.writeFiles sha256 (cache.archiveFile sourceRoot file :: rest)
        tree entries =
      copied cache sha256 sourceRoot file tree >>= fun made =>
        Publishing.writeFiles sha256 rest made.1 (entries ++ [made.2]) := by
  simp only [Publishing.writeFiles, copied, LawfulMonad.bind_assoc,
    LawfulMonad.pure_bind]
  rfl

theorem fills_writeSourceFiles
    (files : List FileSystem.SourceFile)
    (entries : List ManifestFile) :
    Fills cache refusable world staging
      (writeSourceFiles sha256 staging sourceRoot files entries) revision
      (staged revision (Publishing.writeFiles sha256
        (files.map (cache.archiveFile sourceRoot)) revision.tree
          entries)) := by
  induction files generalizing revision entries with
  | nil => exact fills_ok entries
  | cons file rest inductionHypothesis =>
      rw [List.map_cons, writeFiles_cons]
      refine (fills_writeSourceFile file).bind (fun entry next same => ?_)
        fun none => ?_
      · cases made : copied cache sha256 sourceRoot file revision.tree with
        | error error =>
            rw [made] at same
            cases same
        | ok both =>
            rw [made] at same
            cases same
            exact inductionHypothesis _
      · obtain ⟨error, failed⟩ := staged_eq_none.mp none
        rw [failed]
        rfl

/-- What is staged of a request, with the lease. -/
def filled (sha256 : Bytes → String) (repoType : RepositoryType)
    (request : Publishing.PublishRequest) :
    Except ArchiveError RevisionDir := do
  let (tree, entries) ← Publishing.writeFiles sha256 request.files
    Publishing.freshStaging []
  let tree ← Publishing.createManifest tree
  return {
    manifest := .decoded {
      complete := true
      repoType := repoType
      repoId := request.repoId
      requestedRevision := request.requestedRevision
      files := entries }
    upstreamFiles := .missing
    tree := tree }

theorem writeRevision_eq
    (repoType : RepositoryType)
    (request : Publishing.PublishRequest) :
    Publishing.writeRevision sha256 repoType request =
      (filled sha256 repoType request).map fun revision =>
        { revision with
          tree := Publishing.removeStagingLease revision.tree } := by
  unfold Publishing.writeRevision filled
  cases Publishing.writeFiles sha256 request.files
      Publishing.freshStaging [] with
  | error error => rfl
  | ok made =>
      obtain ⟨tree, entries⟩ := made
      change (Publishing.createManifest tree >>= _) =
        (Publishing.createManifest tree >>= _).map _
      cases Publishing.createManifest tree <;> rfl

variable (cache) in
/-- A request, with what is found of its files. -/
def foundRequest (sourceRoot : List String)
    (request : FileSystem.SourcePublishRequest) :
    Publishing.PublishRequest :=
  ⟨request.repoId, request.requestedRevision, request.commit,
    request.files.map (cache.archiveFile sourceRoot)⟩

theorem fills_writeSourceRevision
    (repoType : RepositoryType)
    (request : FileSystem.SourcePublishRequest) :
    Fills cache refusable world staging
      (writeSourceRevision sha256 staging sourceRoot repoType request)
      freshStaging
      ((filled sha256 repoType (foundRequest cache sourceRoot request)).toOption.map
        fun next => ((), next)) := by
  unfold writeSourceRevision filled foundRequest
  refine (fills_writeSourceFiles _ _).bind (fun entries next same => ?_)
    fun none => ?_
  on_goal 2 =>
    obtain ⟨error, failed⟩ := staged_eq_none.mp none
    change Publishing.writeFiles sha256 _ Publishing.freshStaging [] = _
      at failed
    rw [failed]
    rfl
  cases written : Publishing.writeFiles sha256
      (request.files.map (cache.archiveFile sourceRoot))
      freshStaging.tree [] with
  | error error =>
      rw [written] at same
      cases same
  | ok both =>
      obtain ⟨tree, all⟩ := both
      rw [written] at same
      cases same
      change Publishing.writeFiles sha256 _ Publishing.freshStaging [] = _
        at written
      rw [written]
      change Fills _ _ _ _ _ _ (((Publishing.createManifest tree >>= _) :
        Except ArchiveError RevisionDir).toOption.map _)
      refine .stage_bind (fun next made => ?_) fun none => ?_
      · unfold StageOp.apply at made
        dsimp only at made
        split at made
        · next withManifest created =>
            cases made
            rw [created]
            refine .stage_bind (fun next made => ?_) nofun
            cases made
            refine .stage_bind (fun next made => ?_) nofun
            cases made
            exact fills_stage .syncDirectory
        · cases made
      · unfold StageOp.apply at none
        dsimp only at none
        split at none
        · cases none
        · next error refused =>
            rw [refused]
            rfl

end fills

end copying

end Importing
end ModelKeep
