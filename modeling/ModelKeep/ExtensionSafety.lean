import ModelKeep.Extension

/-!
# Extensions never lose anything

Any number of extensions of one revision run at the same time, interleaved
step by step, each step failing or not, each call cut off or not.  The
contract of a call is that it changes the revision only while it holds the
lock, and that whatever the live manifest lists stays listed and untouched.
-/

namespace ModelKeep
namespace Extension

open Concurrency

variable {ι : Type}

/-! ## What lasts -/

/-- Between two states the manifest has only grown, and the files it listed
are where they were. -/
def Grows (before after : Shared ι) : Prop :=
  ∀ manifest, before.revision.manifest = .decoded manifest →
    ∃ grown, after.revision.manifest = .decoded grown ∧
      manifest.files <+: grown.files ∧
      ∀ entry ∈ manifest.files,
        after.revision.tree.lookup (splitPath entry.path) =
          before.revision.tree.lookup (splitPath entry.path)

theorem Grows.refl (shared : Shared ι) : Grows shared shared :=
  fun manifest read =>
    ⟨manifest, read, List.prefix_rfl, fun _ _ => rfl⟩

theorem Grows.trans
    {first second third : Shared ι}
    (earlier : Grows first second)
    (later : Grows second third) :
    Grows first third := by
  intro manifest read
  obtain ⟨middle, readMiddle, grownMiddle, keptMiddle⟩ :=
    earlier manifest read
  obtain ⟨last, readLast, grownLast, keptLast⟩ := later middle readMiddle
  refine ⟨last, readLast, grownMiddle.trans grownLast, ?_⟩
  intro entry member
  rw [keptLast entry (grownMiddle.subset member), keptMiddle entry member]

theorem Grows.of_revision_eq
    {before after : Shared ι}
    (same : after.revision = before.revision) :
    Grows before after := by
  intro manifest read
  refine ⟨manifest, by rw [same]; exact read, List.prefix_rfl, ?_⟩
  intro entry _
  rw [same]

/-- A revision that verifies, except for files that some call has renamed
into it and that are not listed yet. -/
structure Intact
    (sha256 : Bytes → String)
    (repoType : RepositoryType)
    (shared : Shared ι)
    (manifest : Manifest) :
    Prop
    extends RevisionDir.Stocked sha256 repoType shared.revision manifest
    where
  tracked : ∀ path ∈ shared.revision.tree.paths, ∀ content,
    isInternalArchivePath (joinPath path) = false →
      shared.revision.tree.lookup path = some (.file content) →
        joinPath path ∈ manifest.paths ∨
          ∃ actor, joinPath path ∈ shared.placed actor

/-! ## The contract of one call -/

/-- What every reachable state satisfies: the revision is intact, and a call
has renamed into it only what it was asked for. -/
structure Sound
    (sha256 : Bytes → String)
    (repoType : RepositoryType)
    (requests : ι → RevisionExtensionRequest)
    (shared : Shared ι) :
    Prop where
  intact : ∃ manifest, Intact sha256 repoType shared manifest
  asked : ∀ actor, ∀ path ∈ shared.placed actor,
    path ∈ (requests actor).files

/-- What a call may rely on. -/
structure Rely (actor : ι) (before after : Shared ι) : Prop where
  grows : Grows before after
  locked : before.lock = some actor →
    after.lock = some actor ∧ after.revision = before.revision
  part : after.part actor = before.part actor
  placed : after.placed actor = before.placed actor

/-- What a call guarantees. -/
structure Guarantee (actor : ι) (before after : Shared ι) : Prop where
  grows : Grows before after
  unlocked : before.lock ≠ some actor → after.revision = before.revision
  others : ∀ other, other ≠ actor →
    (before.lock = some other → after.lock = some other) ∧
      after.part other = before.part other ∧
      after.placed other = before.placed other

theorem Rely.refl (actor : ι) (shared : Shared ι) :
    Rely actor shared shared :=
  ⟨.refl shared, fun locked => ⟨locked, rfl⟩, rfl, rfl⟩

theorem Rely.trans
    {actor : ι}
    {first second third : Shared ι}
    (earlier : Rely actor first second)
    (later : Rely actor second third) :
    Rely actor first third := by
  refine ⟨earlier.grows.trans later.grows, ?_,
    later.part.trans earlier.part, later.placed.trans earlier.placed⟩
  intro locked
  obtain ⟨lockedThen, same⟩ := earlier.locked locked
  obtain ⟨lockedNow, sameToo⟩ := later.locked lockedThen
  exact ⟨lockedNow, sameToo.trans same⟩

theorem Guarantee.refl (actor : ι) (shared : Shared ι) :
    Guarantee actor shared shared :=
  ⟨.refl shared, fun _ => rfl, fun _ _ => ⟨id, rfl, rfl⟩⟩

theorem Guarantee.rely
    {actor other : ι}
    {before after : Shared ι}
    (guarantee : Guarantee actor before after)
    (different : actor ≠ other) :
    Rely other before after := by
  obtain ⟨locked, part, placed⟩ :=
    guarantee.others other different.symm
  refine ⟨guarantee.grows, ?_, part, placed⟩
  intro held
  refine ⟨locked held, guarantee.unlocked ?_⟩
  rw [held]
  intro same
  exact different (Option.some.inj same).symm

/-- The manifest lists these paths. -/
def Lists (paths : List String) (shared : Shared ι) : Prop :=
  ∃ manifest, shared.revision.manifest = .decoded manifest ∧
    ∀ path ∈ paths, path ∈ manifest.paths

theorem Lists.grows
    {paths : List String}
    {before after : Shared ι}
    (lists : Lists paths before)
    (grows : Grows before after) :
    Lists paths after := by
  obtain ⟨manifest, read, listed⟩ := lists
  obtain ⟨grown, readGrown, extends_, _⟩ := grows manifest read
  refine ⟨grown, readGrown, ?_⟩
  intro path member
  exact (extends_.map ManifestFile.path).subset (listed path member)

variable {sha256 : Bytes → String} {repoType : RepositoryType}
  {requests : ι → RevisionExtensionRequest} {actor : ι} {α : Type}

/-- What a call needs of a state, whatever the others do meanwhile. -/
abbrev Lasting (actor : ι) (assertion : Shared ι → Prop) : Prop :=
  Stable (Rely actor) assertion

theorem lasting_true : Lasting actor fun _ : Shared ι => True :=
  fun _ _ _ _ => trivial

theorem lasting_outcome
    {failed : Shared ι → Prop}
    {succeeded : α → Shared ι → Prop}
    (lastingFailed : Lasting actor failed)
    (lasting : ∀ value, Lasting actor (succeeded value))
    (outcome : Except ArchiveError α) :
    Lasting actor (Program.Outcome failed succeeded outcome) := by
  cases outcome with
  | error error => exact lastingFailed
  | ok value => exact lasting value

variable [DecidableEq ι]

/-- A part of an extension run by one call among the others. -/
abbrev Performs
    (sha256 : Bytes → String)
    (repoType : RepositoryType)
    (requests : ι → RevisionExtensionRequest)
    (actor : ι)
    (pre : Shared ι → Prop)
    (action : Action α)
    (failed : Shared ι → Prop)
    (succeeded : α → Shared ι → Prop) :
    Prop :=
  Program.Triple (exec repoType actor) (Sound sha256 repoType requests)
    (Rely actor) (Guarantee actor) pre action.run
    (Program.Outcome failed succeeded)

theorem performs_bind
    {β : Type}
    {pre failed : Shared ι → Prop}
    {action : Action α}
    (middle : α → Shared ι → Prop)
    {rest : α → Action β}
    {post : β → Shared ι → Prop}
    (lastingFailed : Lasting actor failed)
    (first : Performs sha256 repoType requests actor pre action failed middle)
    (second : ∀ value, Performs sha256 repoType requests actor (middle value)
      (rest value) failed post) :
    Performs sha256 repoType requests actor pre (action >>= rest) failed post :=
  Program.Triple.exceptBind (Rely.refl actor) lastingFailed first second

theorem performs_check
    {pre failed : Shared ι → Prop}
    {outcome : Except ArchiveError α}
    {post : α → Shared ι → Prop}
    (lasting : Lasting actor pre)
    (fails : ∀ shared, pre shared → failed shared)
    (succeeds : ∀ value shared, outcome = .ok value → pre shared →
      post value shared) :
    Performs sha256 repoType requests actor pre (check outcome) failed post := by
  refine Program.triple_done lasting ?_
  intro shared _ holds
  cases ended : outcome with
  | error error => exact fails shared holds
  | ok value => exact succeeds value shared ended holds

/-- A step that changes nothing shared. -/
theorem quiet_triple
    {pre : Shared ι → Prop}
    (op : Op)
    {post : op.Reply → Shared ι → Prop}
    (quiet : ∀ before reply after,
      exec repoType actor op before reply after → after = before)
    (lasting : Lasting actor pre)
    (lastingPost : ∀ reply, Lasting actor (post reply))
    (effect : ∀ shared reply, exec repoType actor op shared reply shared →
      pre shared → post reply shared) :
    Program.Triple (exec repoType actor) (Sound sha256 repoType requests)
      (Rely actor) (Guarantee actor) pre (perform op) post := by
  apply Program.triple_perform lasting lastingPost
  intro current sound holds reply after issued
  have same := quiet current reply after issued
  subst same
  exact ⟨sound, .refl actor after, effect after reply issued holds⟩

/-- A quiet step whose answer does not matter. -/
theorem quiet_outcome
    {pre : Shared ι → Prop}
    (op : Op)
    (reply : op.Reply → Except ArchiveError α)
    (quiet : ∀ before answer after,
      exec repoType actor op before answer after → after = before)
    (lasting : Lasting actor pre) :
    Program.Triple (exec repoType actor) (Sound sha256 repoType requests)
      (Rely actor) (Guarantee actor) pre (perform op)
      fun answer => Program.Outcome pre (fun _ => pre) (reply answer) := by
  refine quiet_triple op quiet lasting
    (fun answer => lasting_outcome lasting (fun _ => lasting) _) ?_
  intro shared answer _ holds
  cases reply answer with
  | error error => exact holds
  | ok value => exact holds

/-- Reading the manifest, and insisting that it can be extended. -/
theorem performs_readExtendable
    {pre failed : Shared ι → Prop}
    {request : RevisionExtensionRequest}
    {post : Manifest → Shared ι → Prop}
    (lastingFailed : Lasting actor failed)
    (lasting : Lasting actor pre)
    (lastingPost : ∀ manifest, Lasting actor (post manifest))
    (fails : ∀ shared, pre shared → failed shared)
    (failsAfter : ∀ manifest shared, post manifest shared → failed shared)
    (reads : ∀ manifest shared, pre shared →
      shared.revision.manifest = .decoded manifest →
        post manifest shared) :
    Performs sha256 repoType requests actor pre (readExtendableManifest request)
      failed post := by
  refine performs_bind post lastingFailed ?_ ?_
  · apply quiet_triple .readManifest
    · rintro before reply after ⟨same, _⟩
      exact same
    · exact lasting
    · exact lasting_outcome lastingFailed lastingPost
    · rintro shared reply ⟨_, read⟩ holds
      cases reply with
      | error error => exact fails shared holds
      | ok manifest =>
          apply reads manifest shared holds
          rcases read with read | ⟨kind, failed⟩
          · exact (RevisionDir.readManifestFor_eq_ok.mp read.symm).1
          · cases failed
  · intro manifest
    refine performs_check (lastingPost manifest) (failsAfter manifest) ?_
    intro value shared extendable holds
    unfold ensureExtendable at extendable
    split at extendable
    · cases extendable
    · split at extendable
      · cases extendable
      · cases extendable
        exact holds

omit [DecidableEq ι] in
theorem Lasting.and
    {pre : Shared ι → Prop}
    (lasting : Lasting actor pre)
    (fact : Prop) :
    Lasting actor fun shared => pre shared ∧ fact :=
  fun before after moved holds => ⟨lasting before after moved holds.1, holds.2⟩

/-- Staging is private, and stages exactly the candidates. -/
theorem performs_stage
    {pre : Shared ι → Prop}
    (lasting : Lasting actor pre)
    (candidates : List String)
    (staging : FileTree Bytes)
    (staged : List Staged) :
    Performs sha256 repoType requests actor pre
      (stageExtensionFiles candidates staging staged)
      (fun _ => True)
      fun result shared => pre shared ∧
        (result.map Staged.path = staged.map Staged.path ++ candidates ∧
          ∀ file ∈ result,
            file ∈ staged ∨ filePlace file.path = some file.place) := by
  induction candidates generalizing staging staged with
  | nil =>
      refine performs_check lasting (fun _ _ => trivial) ?_
      intro value shared same holds
      cases same
      exact ⟨holds, by simp, fun file member => Or.inl member⟩
  | cons path rest inductionHypothesis =>
      unfold stageExtensionFiles
      refine performs_bind (fun _ => pre) lasting_true ?_ ?_
      · exact performs_check lasting (fun _ _ => trivial)
          fun _ _ _ holds => holds
      · intro _
        refine performs_bind (fun _ => pre) lasting_true ?_ ?_
        · refine (quiet_outcome (.copySource path) id
            (fun _ _ _ same => same) lasting).mono (fun _ _ holds => holds) ?_
          intro reply shared _ holds
          cases reply with
          | error error => trivial
          | ok content => exact holds
        · intro content
          refine performs_bind
            (fun place shared => pre shared ∧ filePlace path = some place)
            lasting_true ?_ ?_
          · refine performs_check lasting (fun _ _ => trivial) ?_
            intro place shared found holds
            refine ⟨holds, ?_⟩
            unfold placeOf at found
            split at found
            · cases found
            · next place' leads =>
                cases found
                exact leads
          · intro place
            refine performs_bind
              (fun _ shared => pre shared ∧ filePlace path = some place)
              lasting_true ?_ ?_
            · exact performs_check (lasting.and _) (fun _ _ => trivial)
                fun _ _ _ holds => holds
            · intro staging' start sound holds
              refine (inductionHypothesis staging'
                (staged ++ [⟨path, place, content⟩]) start sound
                holds.1).mono ?_
              intro outcome shared _ reached
              cases outcome with
              | error error => trivial
              | ok result =>
                  obtain ⟨kept, paths, places⟩ := reached
                  refine ⟨kept, by simpa using paths, ?_⟩
                  intro file member
                  rcases places file member with before | leads
                  · rcases List.mem_append.mp before with older | new
                    · exact Or.inl older
                    · rw [List.mem_singleton] at new
                      subst new
                      exact Or.inr holds.2
                  · exact Or.inr leads

/-! ## Under the lock -/

/-- The call holds the lock, the manifest is the one it has read, and the
files it has renamed are in place. -/
structure Holding
    (actor : ι)
    (manifest : Manifest)
    (moved : List Staged)
    (shared : Shared ι) :
    Prop where
  locked : shared.lock = some actor
  read : shared.revision.manifest = .decoded manifest
  stands : ∀ file ∈ moved,
    shared.revision.tree.lookup (splitPath file.path) =
      some (.file file.content)
  placed : ∀ path ∈ shared.placed actor, path ∈ moved.map Staged.path

/-- The call holds the lock. -/
def Locked (actor : ι) (shared : Shared ι) : Prop :=
  shared.lock = some actor

omit [DecidableEq ι] in
theorem lasting_locked : Lasting actor (Locked actor) :=
  fun _ _ moved locked => (moved.locked locked).1

omit [DecidableEq ι] in
theorem lasting_holding
    (manifest : Manifest)
    (moved : List Staged) :
    Lasting actor (Holding actor manifest moved) := by
  intro before after others holding
  obtain ⟨locked, same⟩ := others.locked holding.locked
  refine ⟨locked, ?_, ?_, ?_⟩
  · rw [same]
    exact holding.read
  · rw [same]
    exact holding.stands
  · rw [others.placed]
    exact holding.placed

omit [DecidableEq ι] in
/-- A change of the tree that leaves the listed files alone. -/
theorem Grows.of_tree
    {before after : Shared ι}
    {manifest : Manifest}
    (read : before.revision.manifest = .decoded manifest)
    (same : after.revision.manifest = before.revision.manifest)
    (kept : ∀ entry ∈ manifest.files,
      after.revision.tree.lookup (splitPath entry.path) =
        before.revision.tree.lookup (splitPath entry.path)) :
    Grows before after := by
  intro other readOther
  rw [read] at readOther
  cases readOther
  exact ⟨manifest, by rw [same, read], List.prefix_rfl, kept⟩

/-- A step that leaves the revision and the lock alone, and whatever belongs
to the others. -/
theorem part_guarantee
    (before : Shared ι)
    (part : PartFile) :
    Guarantee actor before (before.setPart actor part) := by
  refine ⟨.of_revision_eq rfl, fun _ => rfl, ?_⟩
  intro other different
  exact ⟨id, Function.update_of_ne different .., rfl⟩

theorem unlock_guarantee (before : Shared ι) :
    Guarantee actor before (before.unlock actor) := by
  refine ⟨.of_revision_eq rfl, fun _ => rfl, ?_⟩
  intro other different
  refine ⟨?_, rfl, rfl⟩
  intro held
  unfold Shared.unlock
  rw [if_neg]
  · exact held
  · rw [held]
    exact fun same => different (Option.some.inj same)

omit [DecidableEq ι] in
theorem Intact.of_revision_eq
    {before after : Shared ι}
    {manifest : Manifest}
    (intact : Intact sha256 repoType before manifest)
    (same : after.revision = before.revision)
    (placed : after.placed = before.placed) :
    Intact sha256 repoType after manifest := by
  refine ⟨?_, ?_⟩
  · rw [same]
    exact intact.toStocked
  · rw [same, placed]
    exact intact.tracked

omit [DecidableEq ι] in
/-- A directory more changes nothing that is listed. -/
theorem Intact.makeDirectory
    {before : Shared ι}
    {manifest : Manifest}
    {path : List String}
    {tree : FileTree Bytes}
    (intact : Intact sha256 repoType before manifest)
    (made : before.revision.tree.makeDirectory path = some tree) :
    Intact sha256 repoType (before.setTree tree) manifest ∧
      Grows before (before.setTree tree) ∧
      ∀ place content,
        before.revision.tree.lookup place = some (.file content) →
          tree.lookup place = some (.file content) := by
  have files : ∀ place content,
      before.revision.tree.lookup place = some (.file content) →
        tree.lookup place = some (.file content) := by
    intro place content stands
    rcases FileTree.lookup_makeDirectory made place with same | ⟨_, absent, _⟩
    · rw [same]
      exact stands
    · rw [absent] at stands
      cases stands
  have back : ∀ place ∈ tree.paths,
      place ∈ before.revision.tree.paths ∧
          tree.lookup place = before.revision.tree.lookup place ∨
        tree.lookup place = some .directory := by
    intro place member
    obtain ⟨nonempty, present⟩ := (tree.mem_paths_iff place).mp member
    rcases FileTree.lookup_makeDirectory made place with same | ⟨_, _, added⟩
    · left
      refine ⟨(before.revision.tree.mem_paths_iff place).mpr
        ⟨nonempty, ?_⟩, same⟩
      rw [← same]
      exact present
    · exact Or.inr added
  refine ⟨⟨⟨intact.read, intact.typed, intact.complete, ?_, ?_⟩, ?_⟩, ?_,
    files⟩
  · intro entry member
    obtain ⟨canonical, content, stands, matches_⟩ :=
      intact.stored entry member
    exact ⟨canonical, content, files _ content stands, matches_⟩
  · intro place member external
    rcases back place member with ⟨older, same⟩ | added
    · rw [show (before.setTree tree).revision.tree.lookup place =
        before.revision.tree.lookup place from same]
      exact intact.ordinary place older external
    · exact Or.inl added
  · intro place member content external stands
    rcases back place member with ⟨older, same⟩ | added
    · exact intact.tracked place older content external
        (same.symm.trans stands)
    · exact absurd (added.symm.trans stands) (by simp)
  · refine Grows.of_tree intact.read rfl ?_
    intro entry member
    obtain ⟨_, content, stands, _⟩ := intact.stored entry member
    rw [stands]
    exact files _ content stands

/-- A file more, under a path that is not listed, changes nothing that is
listed, and the file is accounted for. -/
theorem Intact.placeFile
    (actor : ι)
    {before : Shared ι}
    {manifest : Manifest}
    {path : String}
    {content : Bytes}
    {tree : FileTree Bytes}
    (intact : Intact sha256 repoType before manifest)
    (unlisted : path ∉ manifest.paths)
    (placed : before.revision.tree.placeFile (splitPath path) content =
      some tree) :
    Intact sha256 repoType (before.place actor (splitPath path) tree)
        manifest ∧
      Grows before (before.place actor (splitPath path) tree) := by
  have lookups := FileTree.lookup_placeFile placed
  have kept : ∀ entry ∈ manifest.files,
      tree.lookup (splitPath entry.path) =
        before.revision.tree.lookup (splitPath entry.path) := by
    intro entry member
    rw [lookups, if_neg]
    intro same
    have equal := splitPath_injective same
    rw [← equal] at unlisted
    exact unlisted (List.mem_map_of_mem member)
  have older : ∀ place ∈ tree.paths, place ≠ splitPath path →
      place ∈ before.revision.tree.paths ∧
        tree.lookup place = before.revision.tree.lookup place := by
    intro place member different
    obtain ⟨nonempty, present⟩ := (tree.mem_paths_iff place).mp member
    have same := lookups place
    rw [if_neg different] at same
    refine ⟨(before.revision.tree.mem_paths_iff place).mpr
      ⟨nonempty, ?_⟩, same⟩
    rw [← same]
    exact present
  refine ⟨⟨⟨intact.read, intact.typed, intact.complete, ?_, ?_⟩, ?_⟩, ?_⟩
  · intro entry member
    obtain ⟨canonical, other, stands, matches_⟩ := intact.stored entry member
    exact ⟨canonical, other, (kept entry member).trans stands, matches_⟩
  · intro place member external
    by_cases same : place = splitPath path
    · right
      refine ⟨content, ?_⟩
      exact (lookups place).trans (if_pos same)
    · obtain ⟨member', unchanged⟩ := older place member same
      rw [show (before.place actor (splitPath path) tree).revision.tree.lookup
        place = before.revision.tree.lookup place from unchanged]
      exact intact.ordinary place member' external
  · intro place member other external stands
    by_cases same : place = splitPath path
    · right
      refine ⟨actor, ?_⟩
      simp [Shared.place, same]
    · obtain ⟨member', unchanged⟩ := older place member same
      rcases intact.tracked place member' other external
          (unchanged.symm.trans stands) with listed | ⟨owner, owned⟩
      · exact Or.inl listed
      · right
        refine ⟨owner, ?_⟩
        by_cases mine : owner = actor
        · subst mine
          simp [Shared.place, owned]
        · simpa [Shared.place, mine] using owned
  · exact Grows.of_tree intact.read rfl kept

/-- Making the directories above a file. -/
theorem performs_createDirectories
    (manifest : Manifest)
    (moved : List Staged)
    (paths : List (List String)) :
    Performs sha256 repoType requests actor (Holding actor manifest moved)
      (createDirectories paths) (Locked actor)
      fun _ => Holding actor manifest moved := by
  induction paths with
  | nil =>
      exact performs_check (lasting_holding manifest moved)
        (fun _ holding => holding.locked) fun _ _ _ holding => holding
  | cons path rest inductionHypothesis =>
      refine performs_bind (fun _ => Holding actor manifest moved)
        lasting_locked ?_ fun _ => inductionHypothesis
      refine Program.triple_perform (lasting_holding manifest moved)
        (lasting_outcome lasting_locked
          fun _ => lasting_holding manifest moved) ?_
      rintro current sound holding reply after
        (⟨rfl, tree, made, rfl⟩ | ⟨kind, rfl, rfl⟩)
      · obtain ⟨⟨found, intact⟩, asked⟩ := sound
        have same : found = manifest := by
          have read := intact.read
          rw [holding.read] at read
          cases read
          rfl
        subst same
        obtain ⟨intactAfter, grows, files⟩ := intact.makeDirectory made
        refine ⟨⟨⟨found, intactAfter⟩, asked⟩, ⟨grows, ?_, ?_⟩, ?_⟩
        · intro unlocked
          exact absurd holding.locked unlocked
        · exact fun _ _ => ⟨id, rfl, rfl⟩
        · exact ⟨holding.locked, holding.read,
            fun file member => files _ _ (holding.stands file member),
            holding.placed⟩
      · exact ⟨sound, .refl actor _, holding.locked⟩

/-- Renaming one staged file into the revision. -/
theorem performs_moveFile
    (manifest : Manifest)
    (moved : List Staged)
    (file : Staged)
    (place : file.place = splitPath file.path)
    (unlisted : file.path ∉ manifest.paths)
    (new : file.path ∉ moved.map Staged.path)
    (wanted : file.path ∈ (requests actor).files) :
    Performs sha256 repoType requests actor (Holding actor manifest moved)
      (attempt (perform (.moveFile file.place file.content))) (Locked actor)
      fun _ => Holding actor manifest (moved ++ [file]) := by
  refine Program.triple_perform (lasting_holding manifest moved)
    (lasting_outcome lasting_locked fun _ => lasting_holding manifest _) ?_
  rintro current sound holding reply after
    (⟨rfl, tree, placed, rfl⟩ | ⟨kind, rfl, rfl⟩)
  · obtain ⟨⟨found, intact⟩, asked⟩ := sound
    have same : found = manifest := by
      have read := intact.read
      rw [holding.read] at read
      cases read
      rfl
    subst same
    rw [place] at placed ⊢
    obtain ⟨intactAfter, grows⟩ :=
      intact.placeFile actor unlisted placed
    refine ⟨⟨⟨found, intactAfter⟩, ?_⟩, ⟨grows, ?_, ?_⟩, ?_⟩
    · intro other path member
      by_cases mine : other = actor
      · subst mine
        simp only [Shared.place, Function.update_self, List.mem_cons,
          joinPath_splitPath] at member
        rcases member with same | before
        · rw [same]
          exact wanted
        · exact asked other path before
      · simp only [Shared.place, Function.update_of_ne mine] at member
        exact asked other path member
    · intro unlocked
      exact absurd holding.locked unlocked
    · intro other different
      exact ⟨id, rfl, Function.update_of_ne different ..⟩
    · have lookups := FileTree.lookup_placeFile placed
      refine ⟨holding.locked, holding.read, ?_, ?_⟩
      · intro other member
        refine (lookups _).trans ?_
        rcases List.mem_append.mp member with before | last
        · rw [if_neg]
          · exact holding.stands other before
          · intro clash
            rw [← splitPath_injective clash] at new
            exact new (List.mem_map_of_mem before)
        · rw [List.mem_singleton] at last
          subst last
          exact if_pos rfl
      · intro path member
        rw [List.map_append, List.mem_append]
        simp only [Shared.place, Function.update_self, List.mem_cons,
          joinPath_splitPath] at member
        rcases member with same | before
        · exact Or.inr (by simp [same])
        · exact Or.inl (holding.placed path before)
  · exact ⟨sound, .refl actor _, holding.locked⟩

/-- The files the loop under the lock renames, and those it skips. -/
def Sorted
    (manifest : Manifest)
    (files : List Staged)
    (before after : Placed) :
    Prop :=
  after.added = before.added ++
      files.filter (fun file => file.path ∉ manifest.paths) ∧
    after.skipped = before.skipped ++
      (files.filter (fun file => file.path ∈ manifest.paths)).map
        Staged.path

theorem performs_placeStaged
    (manifest : Manifest)
    (files : List Staged)
    (placed : Placed)
    (places : ∀ file ∈ files, file.place = splitPath file.path)
    (wanted : ∀ file ∈ files, file.path ∈ (requests actor).files)
    (distinct : (placed.added.map Staged.path ++
      files.map Staged.path).Nodup) :
    Performs sha256 repoType requests actor (Holding actor manifest placed.added)
      (placeStaged manifest.paths files placed) (Locked actor)
      fun result shared => Holding actor manifest result.added shared ∧
        Sorted manifest files placed result := by
  induction files generalizing placed with
  | nil =>
      refine performs_check (lasting_holding manifest _)
        (fun _ holding => holding.locked) ?_
      intro value shared same holding
      cases same
      exact ⟨holding, by simp [Sorted]⟩
  | cons file rest inductionHypothesis =>
      have placesRest : ∀ other ∈ rest,
          other.place = splitPath other.path :=
        fun other member => places other (List.mem_cons_of_mem _ member)
      have wantedRest : ∀ other ∈ rest,
          other.path ∈ (requests actor).files :=
        fun other member => wanted other (List.mem_cons_of_mem _ member)
      unfold placeStaged
      split
      · next listed =>
          have distinctRest : (placed.added.map Staged.path ++
              rest.map Staged.path).Nodup := by
            refine distinct.sublist ?_
            exact List.Sublist.append_left
              ((List.sublist_cons_self file rest).map Staged.path) _
          refine (inductionHypothesis
            { placed with skipped := placed.skipped ++ [file.path] }
            placesRest wantedRest distinctRest).mono (fun _ _ holding => holding) ?_
          intro outcome shared _ reached
          cases outcome with
          | error error => exact reached
          | ok result =>
              obtain ⟨holding, added, skipped⟩ := reached
              refine ⟨holding, ?_, ?_⟩
              · simpa [listed] using added
              · simpa [listed] using skipped
      · next unlisted =>
          have new : file.path ∉ placed.added.map Staged.path := by
            intro member
            rw [List.map_cons, List.nodup_append] at distinct
            exact distinct.2.2 _ member _ (by simp) rfl
          refine performs_bind
            (fun _ => Holding actor manifest placed.added) lasting_locked
            (performs_createDirectories manifest _ _) ?_
          intro _
          refine performs_bind
            (fun _ => Holding actor manifest (placed.added ++ [file]))
            lasting_locked
            (performs_moveFile manifest _ file
              (places file (by simp)) unlisted new
              (wanted file (by simp))) ?_
          intro _
          refine (inductionHypothesis
            { placed with
              added := placed.added ++ [file]
              directories :=
                placed.directories.insert file.place.dropLast }
            placesRest wantedRest (by simpa using distinct)).mono
            (fun _ _ holding => holding) ?_
          intro outcome shared _ reached
          cases outcome with
          | error error => exact reached
          | ok result =>
              obtain ⟨holding, added, skipped⟩ := reached
              refine ⟨holding, ?_, ?_⟩
              · simpa [unlisted] using added
              · simpa [unlisted] using skipped

/-! ## The swap -/

/-- The call holds the lock and its replacement is about to be, or is,
written. -/
structure Swapping
    (actor : ι)
    (manifest : Manifest)
    (moved : List Staged)
    (part : PartFile)
    (shared : Shared ι) :
    Prop where
  holding : Holding actor manifest moved shared
  part : shared.part actor = part

/-- The replacement is live. -/
structure Swapped
    (actor : ι)
    (replacement : Manifest)
    (shared : Shared ι) :
    Prop where
  locked : shared.lock = some actor
  read : shared.revision.manifest = .decoded replacement
  placed : ∀ path ∈ shared.placed actor, path ∈ replacement.paths

omit [DecidableEq ι] in
theorem lasting_swapping
    (manifest : Manifest)
    (moved : List Staged)
    (part : PartFile) :
    Lasting actor (Swapping actor manifest moved part) :=
  fun before after others swapping =>
    ⟨lasting_holding manifest moved before after others swapping.holding,
      others.part.trans swapping.part⟩

omit [DecidableEq ι] in
theorem lasting_swapped (replacement : Manifest) :
    Lasting actor (Swapped actor replacement) := by
  intro before after others swapped
  obtain ⟨locked, same⟩ := others.locked swapped.locked
  refine ⟨locked, ?_, ?_⟩
  · rw [same]
    exact swapped.read
  · rw [others.placed]
    exact swapped.placed

/-- Steps on the replacement, beside the revision. -/
theorem performs_part
    (op : Op)
    (part : PartFile)
    {pre : Shared ι → Prop}
    {manifest : Manifest}
    {moved : List Staged}
    (reply : op.Reply → Except ArchiveError Unit)
    (effect : ∀ before answer after,
      exec repoType actor op before answer after →
        (reply answer = .ok () ∧ after = before.setPart actor part) ∨
          after = before ∧ ∃ error, reply answer = .error error)
    (lasting : Lasting actor pre)
    (holds : ∀ shared, pre shared → Holding actor manifest moved shared) :
    Program.Triple (exec repoType actor) (Sound sha256 repoType requests)
      (Rely actor) (Guarantee actor) pre (perform op)
      fun answer => Program.Outcome (Locked actor)
        (fun _ => Swapping actor manifest moved part) (reply answer) := by
  refine Program.triple_perform lasting
    (fun answer => lasting_outcome lasting_locked
      (fun _ => lasting_swapping manifest moved part) _) ?_
  intro current sound before answer after issued
  rcases effect current answer after issued with
    ⟨done, rfl⟩ | ⟨rfl, error, failed⟩
  · obtain ⟨⟨found, intact⟩, asked⟩ := sound
    refine ⟨⟨⟨found, intact.of_revision_eq rfl rfl⟩, asked⟩,
      part_guarantee current part, ?_⟩
    rw [done]
    have holding := holds current before
    exact ⟨⟨holding.locked, holding.read, holding.stands, holding.placed⟩,
      Function.update_self ..⟩
  · refine ⟨sound, .refl actor _, ?_⟩
    rw [failed]
    exact (holds _ before).locked

theorem placed_swap (shared : Shared ι) :
    (shared.swap actor).placed = shared.placed := by
  unfold Shared.swap
  split <;> rfl

/-- The replacement lists what the manifest listed and what was moved. -/
theorem Intact.swap
    {before : Shared ι}
    {manifest : Manifest}
    {moved : List Staged}
    (intact : Intact sha256 repoType before manifest)
    (request : RevisionExtensionRequest)
    (canonical : ∀ file ∈ moved, CanonicalPath file.path)
    (swapping : Swapping actor manifest moved
      (.whole (extendedManifest sha256 repoType request manifest moved))
      before) :
    Intact sha256 repoType (before.swap actor)
        (extendedManifest sha256 repoType request manifest moved) ∧
      Guarantee actor before (before.swap actor) ∧
      Swapped actor
        (extendedManifest sha256 repoType request manifest moved)
        (before.swap actor) := by
  have after : before.swap actor =
      { before.setPart actor .absent with
        revision := { before.revision with
          manifest := .decoded
            (extendedManifest sha256 repoType request manifest moved) } } := by
    unfold Shared.swap
    rw [swapping.part]
  have paths : ∀ path,
      path ∈ (extendedManifest sha256 repoType request manifest
          moved).paths ↔
        path ∈ manifest.paths ∨ path ∈ moved.map Staged.path := by
    intro path
    rw [paths_extendedManifest, List.mem_append]
  have holding := swapping.holding
  rw [after]
  refine ⟨⟨⟨rfl, rfl, rfl, ?_, intact.ordinary⟩, ?_⟩, ⟨?_, ?_, ?_⟩,
    ⟨holding.locked, rfl, ?_⟩⟩
  · intro entry member
    rcases List.mem_append.mp member with older | added
    · exact intact.stored entry older
    · obtain ⟨file, isMoved, rfl⟩ := List.mem_map.mp added
      exact ⟨canonical file isMoved, file.content,
        holding.stands file isMoved, rfl, rfl⟩
  · intro path member content external stands
    rcases intact.tracked path member content external stands with
      listed | owned
    · exact Or.inl ((paths _).mpr (Or.inl listed))
    · exact Or.inr owned
  · intro other read
    rw [holding.read] at read
    cases read
    exact ⟨_, rfl, List.prefix_append .., fun _ _ => rfl⟩
  · intro unlocked
    exact absurd holding.locked unlocked
  · intro other different
    exact ⟨id, Function.update_of_ne different .., rfl⟩
  · intro path member
    exact (paths path).mpr (Or.inr (holding.placed path member))

theorem performs_swapManifest
    (request : RevisionExtensionRequest)
    (manifest : Manifest)
    (moved : List Staged)
    (canonical : ∀ file ∈ moved, CanonicalPath file.path) :
    Performs sha256 repoType requests actor (Holding actor manifest moved)
      (swapManifest
        (extendedManifest sha256 repoType request manifest moved))
      (Locked actor)
      fun _ => Swapped actor
        (extendedManifest sha256 repoType request manifest moved) := by
  have lockedAfter : ∀ shared, Swapped actor
      (extendedManifest sha256 repoType request manifest moved) shared →
        Locked actor shared := fun _ swapped => swapped.locked
  have faults : ∀ {part : PartFile} (before : Shared ι)
      (answer : Except ArchiveError Unit) (after : Shared ι),
      Fallible (fun before after => after = before.setPart actor part) ()
        before answer after →
      (answer = .ok () ∧ after = before.setPart actor part) ∨
        after = before ∧ ∃ error, answer = .error error := by
    rintro part before answer after (done | ⟨kind, failed, same⟩)
    · exact Or.inl done
    · exact Or.inr ⟨same, _, failed⟩
  unfold swapManifest
  refine performs_bind (fun _ => Swapping actor manifest moved .partWritten)
    lasting_locked
    (performs_part .createPart .partWritten id faults
      (lasting_holding manifest moved) fun _ holding => holding) fun _ => ?_
  refine performs_bind (fun _ => Swapping actor manifest moved
      (.whole (extendedManifest sha256 repoType request manifest moved)))
    lasting_locked
    (performs_part (.writePart _) (.whole _) id faults
      (lasting_swapping manifest moved _)
      fun _ swapping => swapping.holding) fun _ => ?_
  refine performs_bind (fun _ => Swapping actor manifest moved
      (.whole (extendedManifest sha256 repoType request manifest moved)))
    lasting_locked ?_ fun _ => ?_
  · refine (quiet_outcome .syncPart id (fun _ _ _ same => same)
      (lasting_swapping manifest moved _)).mono
      (fun _ _ swapping => swapping) ?_
    intro outcome shared _ reached
    cases outcome with
    | error error => exact reached.holding.locked
    | ok value => exact reached
  refine performs_bind (fun _ => Swapped actor
      (extendedManifest sha256 repoType request manifest moved))
    lasting_locked ?_ fun _ => ?_
  · refine Program.triple_perform (lasting_swapping manifest moved _)
      (lasting_outcome lasting_locked fun _ => lasting_swapped _) ?_
    rintro current sound swapping reply after
      (⟨rfl, rfl⟩ | ⟨kind, rfl, rfl⟩)
    · obtain ⟨⟨found, intact⟩, asked⟩ := sound
      have same : found = manifest := by
        have read := intact.read
        rw [swapping.holding.read] at read
        cases read
        rfl
      subst same
      obtain ⟨intactAfter, guarantee, swapped⟩ :=
        intact.swap request canonical swapping
      refine ⟨⟨⟨_, intactAfter⟩, ?_⟩, guarantee, swapped⟩
      rw [placed_swap]
      exact asked
    · exact ⟨sound, .refl actor _, swapping.holding.locked⟩
  refine performs_bind (fun _ => Swapped actor
      (extendedManifest sha256 repoType request manifest moved))
    lasting_locked ?_ fun _ => ?_
  · refine (quiet_outcome (.syncDirectory []) id (fun _ _ _ same => same)
      (lasting_swapped _)).mono (fun _ _ swapped => swapped) ?_
    intro outcome shared _ reached
    cases outcome with
    | error error => exact lockedAfter shared reached
    | ok value => exact reached
  · refine (quiet_outcome .syncRevisions id (fun _ _ _ same => same)
      (lasting_swapped _)).mono (fun _ _ swapped => swapped) ?_
    intro outcome shared _ reached
    cases outcome with
    | error error => exact lockedAfter shared reached
    | ok value => exact reached

/-- A failed swap removes what it wrote. -/
theorem removePart_triple :
    Program.Triple (exec repoType actor) (Sound sha256 repoType requests)
      (Rely actor) (Guarantee actor) (Locked actor) (perform .removePart)
      fun _ => Locked actor := by
  refine Program.triple_perform lasting_locked (fun _ => lasting_locked) ?_
  rintro current ⟨⟨found, intact⟩, asked⟩ locked reply after (rfl | rfl)
  · exact ⟨⟨⟨found, intact.of_revision_eq rfl rfl⟩, asked⟩,
      part_guarantee current .absent, locked⟩
  · exact ⟨⟨⟨found, intact⟩, asked⟩, .refl actor _, locked⟩

theorem performs_replaceRevisionManifest
    (request : RevisionExtensionRequest)
    (manifest : Manifest)
    (moved : List Staged)
    (canonical : ∀ file ∈ moved, CanonicalPath file.path) :
    Performs sha256 repoType requests actor (Holding actor manifest moved)
      (replaceRevisionManifest
        (extendedManifest sha256 repoType request manifest moved))
      (Locked actor)
      fun _ => Swapped actor
        (extendedManifest sha256 repoType request manifest moved) := by
  refine Program.Triple.bind (Rely.refl actor)
    (performs_swapManifest request manifest moved canonical) ?_
  intro outcome
  cases outcome with
  | ok value =>
      exact Program.triple_done (lasting_swapped _)
        fun _ _ swapped => swapped
  | error error =>
      refine Program.Triple.bind (Rely.refl actor) removePart_triple ?_
      intro _
      exact Program.triple_done lasting_locked fun _ _ locked => locked

/-! ## A whole call -/

/-- What a call that returned has achieved. -/
structure Achieved
    (actor : ι)
    (files : List String)
    (report : RevisionExtension)
    (shared : Shared ι) :
    Prop where
  reported : (report.added ++ report.skipped).Perm files
  listed : Lists files shared
  placed : Lists (shared.placed actor) shared

omit [DecidableEq ι] in
theorem lasting_achieved
    (files : List String)
    (report : RevisionExtension) :
    Lasting actor (Achieved actor files report) := by
  intro before after others achieved
  refine ⟨achieved.reported, achieved.listed.grows others.grows, ?_⟩
  rw [others.placed]
  exact achieved.placed.grows others.grows

/-- What the first pass establishes about the request. -/
theorem classify_spec
    {listed files : List String}
    {sorted result : Classified}
    (done : classify listed files sorted = .ok result)
    (distinct : sorted.requested.Nodup)
    (split : (sorted.skipped ++ sorted.candidates).Perm sorted.requested)
    (known : ∀ path ∈ sorted.skipped, path ∈ listed) :
    (sorted.requested ++ files).Nodup ∧
      (result.skipped ++ result.candidates).Perm
        (sorted.requested ++ files) ∧
      ∀ path ∈ result.skipped, path ∈ listed := by
  induction files generalizing sorted with
  | nil =>
      cases done
      simpa using ⟨distinct, split, known⟩
  | cons path rest inductionHypothesis =>
      rw [classify] at done
      obtain ⟨_, _, done⟩ := bind_eq_ok.mp done
      split at done
      · cases done
      · next new =>
          have distinctNext : (sorted.requested ++ [path]).Nodup := by
            refine List.nodup_append.mpr ⟨distinct, by simp, ?_⟩
            intro earlier member last same equal
            rw [List.mem_singleton] at same
            subst same equal
            exact new member
          have regroup : sorted.requested ++ path :: rest =
              (sorted.requested ++ [path]) ++ rest := by simp
          rw [regroup]
          split at done
          · next isListed =>
              apply inductionHypothesis done distinctNext
              · refine List.Perm.trans ?_ (split.append_right [path])
                simp only [List.append_assoc]
                exact List.perm_append_comm.append_left _
              · intro other member
                rcases List.mem_append.mp member with before | last
                · exact known other before
                · rw [List.mem_singleton] at last
                  rw [last]
                  exact isListed
          · next unlisted =>
              apply inductionHypothesis done distinctNext _ known
              rw [← List.append_assoc]
              exact split.append_right [path]

/-- What the loop under the lock makes of the staged files. -/
theorem sorted_perm
    {manifest : Manifest}
    {files : List Staged}
    {skipped : List String}
    {result : Placed}
    (sorted : Sorted manifest files ⟨[], skipped, []⟩ result) :
    (result.added.map Staged.path ++ result.skipped).Perm
      (skipped ++ files.map Staged.path) := by
  obtain ⟨added, skips⟩ := sorted
  rw [added, skips, List.nil_append]
  have partition := (List.filter_append_perm
    (fun file : Staged => decide (file.path ∈ manifest.paths))
    files).map Staged.path
  rw [List.map_append] at partition
  refine List.Perm.trans ?_ (partition.append_left skipped)
  refine List.perm_append_comm.trans ?_
  simp only [List.append_assoc, decide_not]
  exact List.Perm.refl _

theorem performs_syncDirectories
    {pre : Shared ι → Prop}
    (lasting : Lasting actor pre)
    (paths : List (List String)) :
    Performs sha256 repoType requests actor pre (syncDirectories paths) pre
      fun _ => pre := by
  induction paths with
  | nil =>
      exact performs_check lasting (fun _ holds => holds)
        fun _ _ _ holds => holds
  | cons path rest inductionHypothesis =>
      exact performs_bind (fun _ => pre) lasting
        (quiet_outcome (.syncDirectory path) id
          (fun _ _ _ same => same) lasting)
        fun _ => inductionHypothesis

theorem performs_weaken
    {pre failed : Shared ι → Prop}
    {weaker : Shared ι → Prop}
    {action : Action α}
    {post : α → Shared ι → Prop}
    (performs : Performs sha256 repoType requests actor pre action failed post)
    (implies : ∀ shared, failed shared → weaker shared) :
    Performs sha256 repoType requests actor pre action weaker post := by
  refine performs.mono (fun _ _ holds => holds) ?_
  intro outcome shared _ reached
  cases outcome with
  | error error => exact implies shared reached
  | ok value => exact reached

/-- What a call brings to the lock: it has renamed nothing, and what it has
skipped is listed. -/
structure Arriving
    (actor : ι)
    (skipped : List String)
    (shared : Shared ι) :
    Prop where
  placed : shared.placed actor = []
  listed : Lists skipped shared

omit [DecidableEq ι] in
theorem lasting_arriving (skipped : List String) :
    Lasting actor (Arriving actor skipped) :=
  fun _ _ others arriving =>
    ⟨others.placed.trans arriving.placed,
      arriving.listed.grows others.grows⟩

/-- The section under the lock. -/
theorem performs_extendUnderLock
    (staged : List Staged)
    (skipped : List String)
    (canonical : ∀ file ∈ staged, CanonicalPath file.path)
    (places : ∀ file ∈ staged, file.place = splitPath file.path)
    (distinct : (staged.map Staged.path).Nodup)
    (all : (skipped ++ staged.map Staged.path).Perm (requests actor).files) :
    Performs sha256 repoType requests actor
      (fun shared => Locked actor shared ∧ Arriving actor skipped shared)
      (extendUnderLock sha256 repoType (requests actor) staged skipped)
      (Locked actor)
      fun report shared => Locked actor shared ∧
        Achieved actor (requests actor).files report shared := by
  have lastingPre : Lasting actor fun shared : Shared ι =>
      Locked actor shared ∧ Arriving actor skipped shared :=
    fun before after others holds =>
      ⟨lasting_locked before after others holds.1,
        lasting_arriving skipped before after others holds.2⟩
  have lastingPost : ∀ report, Lasting actor fun shared : Shared ι =>
      Locked actor shared ∧ Achieved actor (requests actor).files report shared :=
    fun report before after others holds =>
      ⟨lasting_locked before after others holds.1,
        lasting_achieved (requests actor).files report before after others holds.2⟩
  unfold extendUnderLock
  refine performs_bind
    (fun manifest shared => Holding actor manifest [] shared ∧
      ∀ path ∈ skipped, path ∈ manifest.paths) lasting_locked ?_ ?_
  · refine performs_readExtendable lasting_locked lastingPre
      (fun manifest => (lasting_holding manifest []).and _)
      (fun _ holds => holds.1) (fun _ _ holds => holds.1.locked) ?_
    rintro manifest shared ⟨locked, arriving⟩ read
    refine ⟨⟨locked, read, by simp, by simp [arriving.placed]⟩, ?_⟩
    obtain ⟨other, readOther, listed⟩ := arriving.listed
    rw [read] at readOther
    cases readOther
    exact listed
  intro manifest
  refine Program.triple_of_fact fun known => ?_
  refine performs_bind
    (fun placed shared => Holding actor manifest placed.added shared ∧
      Sorted manifest staged ⟨[], skipped, []⟩ placed) lasting_locked
    (performs_placeStaged manifest staged ⟨[], skipped, []⟩ places
      (fun file member => all.mem_iff.mp (List.mem_append_right _
        (List.mem_map_of_mem member)))
      (by simpa using distinct)) ?_
  intro placed
  refine Program.triple_of_fact fun sorted => ?_
  have reported := (sorted_perm sorted).trans all
  have covered : ∀ path ∈ (requests actor).files,
      path ∈ manifest.paths ∨ path ∈ placed.added.map Staged.path := by
    intro path member
    rcases List.mem_append.mp (reported.mem_iff.mpr member) with
      added | skips
    · exact Or.inr added
    · left
      rw [sorted.2] at skips
      rcases List.mem_append.mp skips with before | later
      · exact known path before
      · obtain ⟨file, isListed, rfl⟩ := List.mem_map.mp later
        simpa using (List.mem_filter.mp isListed).2
  have canonicalAdded : ∀ file ∈ placed.added, CanonicalPath file.path := by
    intro file member
    rw [sorted.1, List.nil_append] at member
    exact canonical file (List.mem_filter.mp member).1
  split
  · next nothing =>
      refine performs_check (lasting_holding manifest _)
        (fun _ holding => holding.locked) ?_
      intro report shared same holding
      cases same
      rw [nothing] at reported covered
      refine ⟨holding.locked, ?_, ⟨manifest, holding.read, ?_⟩,
        ⟨manifest, holding.read, ?_⟩⟩
      · exact (List.perm_insertionSort _ _).trans (by simpa using reported)
      · intro path member
        exact (covered path member).resolve_right (by simp)
      · intro path member
        have moved := holding.placed path member
        rw [nothing] at moved
        cases moved
  · refine performs_bind (fun _ => Holding actor manifest placed.added)
      lasting_locked
      (performs_weaken
        (performs_syncDirectories (lasting_holding manifest _) _)
        fun _ holding => holding.locked) fun _ => ?_
    refine performs_bind (fun _ => Holding actor manifest placed.added)
      lasting_locked
      (performs_weaken
        (quiet_outcome (.syncDirectory []) id (fun _ _ _ same => same)
          (lasting_holding manifest _))
        fun _ holding => holding.locked) fun _ => ?_
    refine performs_bind
      (fun _ => Swapped actor (extendedManifest sha256 repoType
        (requests actor) manifest placed.added)) lasting_locked
      (performs_replaceRevisionManifest (requests actor) manifest placed.added
        canonicalAdded) fun _ => ?_
    refine performs_check (lasting_swapped _)
      (fun _ swapped => swapped.locked) ?_
    intro report shared same swapped
    cases same
    refine ⟨swapped.locked, ?_, ⟨_, swapped.read, ?_⟩,
      ⟨_, swapped.read, swapped.placed⟩⟩
    · exact ((List.perm_insertionSort _ _).append
        (List.perm_insertionSort _ _)).trans reported
    · intro path member
      rw [paths_extendedManifest]
      exact List.mem_append.mpr (covered path member)

/-- Waiting for the lock. -/
theorem performs_lock (skipped : List String) :
    Performs sha256 repoType requests actor (Arriving actor skipped)
      (attempt (perform .lock)) (fun _ => True)
      fun _ shared => Locked actor shared ∧
        Arriving actor skipped shared := by
  have lastingPost : Lasting actor fun shared : Shared ι =>
      Locked actor shared ∧ Arriving actor skipped shared :=
    fun before after others holds =>
      ⟨lasting_locked before after others holds.1,
        lasting_arriving skipped before after others holds.2⟩
  refine Program.triple_perform (lasting_arriving skipped)
    (lasting_outcome lasting_true fun _ => lastingPost) ?_
  rintro current ⟨⟨found, intact⟩, asked⟩ arriving reply after
    (⟨rfl, free, rfl⟩ | ⟨kind, rfl, rfl⟩)
  · refine ⟨⟨⟨found, intact.of_revision_eq rfl rfl⟩, asked⟩,
      ⟨.of_revision_eq rfl, fun _ => rfl, ?_⟩, rfl, arriving.placed,
      arriving.listed⟩
    intro other _
    refine ⟨?_, rfl, rfl⟩
    intro held
    rw [free] at held
    cases held
  · exact ⟨⟨⟨found, intact⟩, asked⟩, .refl actor _, trivial⟩

/-- The lock is released whatever the section under it returned. -/
theorem unlock_triple
    (files : List String)
    (outcome : Except ArchiveError RevisionExtension) :
    Program.Triple (exec repoType actor) (Sound sha256 repoType requests)
      (Rely actor) (Guarantee actor)
      (Program.Outcome (Locked actor)
        (fun report shared => Locked actor shared ∧
          Achieved actor files report shared) outcome)
      (perform .unlock)
      fun _ => Program.Outcome (fun _ => True) (Achieved actor files)
        outcome := by
  have lastingPre : Lasting actor (Program.Outcome (Locked actor)
      (fun report shared => Locked actor shared ∧
        Achieved actor files report shared) outcome) := by
    apply lasting_outcome lasting_locked
    intro report before after others holds
    exact ⟨lasting_locked before after others holds.1,
      lasting_achieved files report before after others holds.2⟩
  refine Program.triple_perform lastingPre
    (fun _ => lasting_outcome lasting_true (lasting_achieved files) _) ?_
  rintro current ⟨⟨found, intact⟩, asked⟩ holds reply after rfl
  refine ⟨⟨⟨found, intact.of_revision_eq rfl rfl⟩, asked⟩,
    unlock_guarantee current, ?_⟩
  cases outcome with
  | error error => trivial
  | ok report => exact ⟨holds.2.reported, holds.2.listed, holds.2.placed⟩

/-- What one call achieves among any others. -/
theorem performs_extendRevision
    (canonical : ∀ path ∈ (requests actor).files, CanonicalPath path) :
    Performs sha256 repoType requests actor (fun shared => shared.placed actor = [])
      (extendRevision sha256 repoType (requests actor)) (fun _ => True)
      (Achieved actor (requests actor).files) := by
  have lastingFresh : Lasting actor fun shared : Shared ι =>
      shared.placed actor = [] :=
    fun _ _ others fresh => others.placed.trans fresh
  unfold extendRevision
  refine performs_bind (fun _ shared => shared.placed actor = [])
    lasting_true (performs_check lastingFresh (fun _ _ => trivial)
      fun _ _ _ fresh => fresh) fun _ => ?_
  refine performs_bind (fun _ shared => shared.placed actor = [])
    lasting_true (performs_check lastingFresh (fun _ _ => trivial)
      fun _ _ _ fresh => fresh) fun _ => ?_
  refine performs_bind (fun _ shared => shared.placed actor = [])
    lasting_true ?_ fun isDir => ?_
  · refine Program.Triple.bind (Rely.refl actor)
      (quiet_triple .revisionIsDir (fun _ _ _ quiet => quiet.2)
        lastingFresh (fun _ => lastingFresh) fun _ _ _ fresh => fresh) ?_
    intro value
    exact Program.triple_done lastingFresh fun _ _ fresh => fresh
  split
  · exact performs_check lastingFresh (fun _ _ => trivial)
      fun _ _ failed _ => by cases failed
  refine performs_bind (fun manifest => Arriving actor manifest.paths)
    lasting_true
    (performs_readExtendable lasting_true lastingFresh
      (fun _ => lasting_arriving _) (fun _ _ => trivial)
      (fun _ _ _ => trivial) fun manifest shared fresh read =>
        ⟨fresh, manifest, read, fun _ member => member⟩)
    fun manifest => ?_
  refine performs_bind
    (fun sorted shared => Arriving actor sorted.skipped shared ∧
      ((requests actor).files.Nodup ∧
        (sorted.skipped ++ sorted.candidates).Perm (requests actor).files))
    lasting_true ?_ fun sorted => ?_
  · refine performs_check (lasting_arriving _) (fun _ _ => trivial) ?_
    intro sorted shared classified arriving
    obtain ⟨distinct, split, known⟩ :=
      classify_spec classified (by simp) (by simp) (by simp)
    obtain ⟨read, manifestRead, listed⟩ := arriving.listed
    exact ⟨⟨arriving.placed, read, manifestRead,
      fun path member => listed path (known path member)⟩, distinct, split⟩
  refine Program.triple_of_fact fun facts => ?_
  obtain ⟨distinct, split⟩ := facts
  split
  · next nothing =>
      refine performs_check (lasting_arriving _) (fun _ _ => trivial) ?_
      intro report shared same arriving
      cases same
      rw [nothing, List.append_nil] at split
      refine ⟨(List.perm_insertionSort _ _).trans split, ?_, ?_⟩
      · obtain ⟨read, manifestRead, listed⟩ := arriving.listed
        exact ⟨read, manifestRead,
          fun path member => listed path (split.mem_iff.mpr member)⟩
      · obtain ⟨read, manifestRead, _⟩ := arriving.listed
        refine ⟨read, manifestRead, ?_⟩
        intro path member
        rw [arriving.placed] at member
        cases member
  refine performs_bind (fun _ => Arriving actor sorted.skipped) lasting_true
    (performs_weaken (quiet_outcome .canonicalizeSourceRoot id
      (fun _ _ _ same => same) (lasting_arriving _))
      fun _ _ => trivial) fun _ => ?_
  refine performs_bind (fun _ => Arriving actor sorted.skipped) lasting_true
    (performs_weaken (quiet_outcome .createStaging id
      (fun _ _ _ same => same) (lasting_arriving _))
      fun _ _ => trivial) fun _ => ?_
  refine performs_bind _ lasting_true
    (performs_stage (lasting_arriving _) sorted.candidates .empty [])
    fun staged => ?_
  refine Program.triple_of_fact fun facts => ?_
  obtain ⟨paths, places⟩ := facts
  rw [List.map_nil, List.nil_append] at paths
  have requested : ∀ file ∈ staged, file.path ∈ (requests actor).files := by
    intro file member
    apply split.mem_iff.mp
    rw [← paths]
    exact List.mem_append_right _ (List.mem_map_of_mem member)
  have canonicalStaged : ∀ file ∈ staged, CanonicalPath file.path :=
    fun file member => canonical _ (requested file member)
  have placesStaged : ∀ file ∈ staged,
      file.place = splitPath file.path := by
    intro file member
    have leads := (places file member).resolve_left (by simp)
    rw [(canonicalStaged file member).filePlace_eq] at leads
    exact (Option.some.inj leads).symm
  have distinctStaged : (staged.map Staged.path).Nodup := by
    rw [paths]
    exact (List.nodup_append.mp (split.nodup_iff.mpr distinct)).2.1
  refine performs_bind _ lasting_true (performs_lock sorted.skipped)
    fun _ => ?_
  refine Program.Triple.bind (Rely.refl actor)
    (performs_extendUnderLock staged sorted.skipped canonicalStaged
      placesStaged distinctStaged (by rw [paths]; exact split)) ?_
  intro outcome
  refine Program.Triple.bind (Rely.refl actor)
    (unlock_triple (requests actor).files outcome) ?_
  intro _
  exact Program.triple_done
    (lasting_outcome lasting_true (lasting_achieved (requests actor).files) outcome)
    fun _ _ holds => holds

/-! ## All calls together -/

/-- The contract of the calls of these requests. -/
def contract
    (sha256 : Bytes → String)
    (repoType : RepositoryType)
    (requests : ι → RevisionExtensionRequest) :
    Contract (machine repoType : Machine interface ι (Shared ι))
      (Except ArchiveError RevisionExtension) where
  invariant := Sound sha256 repoType requests
  rely := Rely
  guar := Guarantee
  post := fun actor => Program.Outcome (fun _ => True)
    (Achieved actor (requests actor).files)
  rely_refl := Rely.refl
  rely_trans := fun _ _ _ _ => Rely.trans
  guar_rely := fun different _ _ guarantee => guarantee.rely different
  release_invariant := by
    rintro actor before after ⟨⟨manifest, intact⟩, asked⟩ rfl
    exact ⟨⟨manifest, intact.of_revision_eq rfl rfl⟩, asked⟩
  release_rely := by
    rintro actor other before after different _ rfl
    exact (unlock_guarantee before).rely different
  ambient_invariant := fun _ moved => moved.elim
  ambient_rely := fun _ moved => moved.elim

/-- Every call is about to start on a published revision. -/
structure Started
    (sha256 : Bytes → String)
    (repoType : RepositoryType)
    (requests : ι → RevisionExtensionRequest)
    (revision : RevisionDir)
    (config : Configuration interface ι (Shared ι)
      (Except ArchiveError RevisionExtension)) :
    Prop where
  shared : config.shared = .still revision
  calls : ∀ actor, config.thread actor =
    some (extendRevision sha256 repoType (requests actor)).run

theorem Started.kept
    {revision : RevisionDir}
    {count : Nat}
    {config : Configuration interface ι (Shared ι)
      (Except ArchiveError RevisionExtension)}
    (started : Started sha256 repoType requests revision config)
    (canonical : ∀ actor, ∀ path ∈ (requests actor).files,
      CanonicalPath path)
    (verified : revision.verifyRevision sha256 repoType = .ok count) :
    (contract sha256 repoType requests).Kept config := by
  obtain ⟨manifest, whole, _⟩ := RevisionDir.verifyRevision_eq_ok.mp verified
  have sound : Sound sha256 repoType requests config.shared := by
    rw [started.shared]
    refine ⟨⟨manifest, whole.toStocked, ?_⟩, by simp [Shared.still]⟩
    intro path member content external stands
    exact Or.inl (whole.listed path member content external stands)
  refine ⟨sound, ?_⟩
  intro actor program running
  rw [started.calls actor] at running
  cases running
  apply performs_extendRevision (canonical actor) config.shared sound
  rw [started.shared]
  rfl

omit [DecidableEq ι] in
/-- An intact revision verifies as soon as everything in it is listed. -/
theorem Intact.verified
    {shared : Shared ι}
    {manifest : Manifest}
    (intact : Intact sha256 repoType shared manifest)
    (listed : ∀ actor, ∀ path ∈ shared.placed actor,
      path ∈ manifest.paths) :
    RevisionDir.Verified sha256 repoType shared.revision manifest := by
  refine ⟨intact.toStocked, ?_⟩
  intro path member content external stands
  rcases intact.tracked path member content external stands with
    isListed | ⟨actor, owned⟩
  · exact isListed
  · exact listed actor _ owned

omit [DecidableEq ι] in
/-- What is listed resolves the same way ever after. -/
theorem Grows.resolveFile
    {before after : Shared ι}
    {manifest grown : Manifest}
    (grows : Grows before after)
    (intact : Intact sha256 repoType before manifest)
    (intactAfter : Intact sha256 repoType after grown)
    {entry : ManifestFile}
    (member : entry ∈ manifest.files) :
    after.revision.resolveFile repoType entry.path =
      before.revision.resolveFile repoType entry.path := by
  obtain ⟨other, read, extended, kept⟩ := grows manifest intact.read
  rw [intactAfter.read] at read
  cases read
  obtain ⟨first, content, found, stands, _, _, _, resolved⟩ :=
    intact.resolveFile member
  obtain ⟨last, contentLater, foundLater, standsLater, _, _, _,
    resolvedLater⟩ := intactAfter.resolveFile (extended.subset member)
  have sameFirst : first = last := by
    obtain ⟨rest, appended⟩ := extended
    rw [← appended, List.find?_append, found] at foundLater
    exact Option.some.inj foundLater
  rw [kept entry member, stands] at standsLater
  cases standsLater
  rw [resolved, resolvedLater, sameFirst]

/-- What holds at a moment of a run of extensions. -/
structure Guarded
    (sha256 : Bytes → String)
    (repoType : RepositoryType)
    (requests : ι → RevisionExtensionRequest)
    (now : Configuration interface ι (Shared ι)
      (Except ArchiveError RevisionExtension))
    (manifest : Manifest) :
    Prop where
  live : now.shared.revision.manifest = .decoded manifest
  complete : manifest.complete = true
  /-- Every listed path resolves as recorded. -/
  resolves : ∀ entry ∈ manifest.files, ∃ resolved,
    now.shared.revision.resolveFile repoType entry.path = .ok resolved ∧
      resolved.size = entry.size ∧ resolved.sha256 = entry.sha256 ∧
      now.shared.revision.sha256File sha256 resolved = .ok entry.sha256
  /-- Nothing else resolves. -/
  unlisted : ∀ path, path ∉ manifest.paths → ∀ resolved,
    now.shared.revision.resolveFile repoType path ≠ .ok resolved
  /-- A call that returned has listed what it was asked for. -/
  returned : ∀ actor report,
    now.thread actor = some (.done (.ok report)) →
      (report.added ++ report.skipped).Perm (requests actor).files ∧
        ∀ path ∈ (requests actor).files, path ∈ manifest.paths
  /-- A call has renamed into the revision only what it was asked for. -/
  asked : ∀ actor, ∀ path ∈ now.shared.placed actor,
    path ∈ (requests actor).files
  /-- Once a call has returned, the revision verifies if every call that did
  not return has renamed only files of the same request. -/
  rerun : ∀ again report,
    now.thread again = some (.done (.ok report)) →
      (∀ actor, (∃ other, now.thread actor = some (.done (.ok other))) ∨
        ∀ path ∈ now.shared.placed actor,
          path ∈ (requests again).files) →
      now.shared.revision.verifyRevision sha256 repoType =
        .ok manifest.files.length

theorem guarded_of_kept
    {now : Configuration interface ι (Shared ι)
      (Except ArchiveError RevisionExtension)}
    {manifest : Manifest}
    (kept : (contract sha256 repoType requests).Kept now)
    (intact : Intact sha256 repoType now.shared manifest) :
    Guarded sha256 repoType requests now manifest := by
  have achieved : ∀ actor report,
      now.thread actor = some (.done (.ok report)) →
        Achieved actor (requests actor).files report now.shared :=
    fun actor report returned => kept.returned returned
  have listed : ∀ {paths : List String}, Lists paths now.shared →
      ∀ path ∈ paths, path ∈ manifest.paths := by
    rintro paths ⟨other, read, all⟩
    rw [intact.read] at read
    cases read
    exact all
  refine ⟨intact.read, intact.complete, fun _ member => intact.resolves member,
    fun _ absent resolved => intact.unlisted absent resolved, ?_,
    kept.1.asked, ?_⟩
  · intro actor report returned
    have done := achieved actor report returned
    exact ⟨done.reported, listed done.listed⟩
  · intro again report returned others
    apply RevisionDir.verifyRevision_eq_ok.mpr
    refine ⟨manifest, intact.verified ?_, rfl⟩
    intro actor path placed
    rcases others actor with ⟨other, done⟩ | same
    · exact listed (achieved actor other done).placed path placed
    · exact listed (achieved again report returned).listed path
        (same path placed)

/-- However the steps of any number of extensions interleave, fail or are cut
off, at every moment the live manifest is complete and backed by files, it
never loses or changes an entry, what a call returned is listed, and a request
that was cut off leaves a revision that verifies once it has been repeated. -/
theorem extensions_monotone
    (canonical : ∀ actor, ∀ path ∈ (requests actor).files,
      CanonicalPath path)
    {revision : RevisionDir}
    {count : Nat}
    (verified : revision.verifyRevision sha256 repoType = .ok count)
    {config now : Configuration interface ι (Shared ι)
      (Except ArchiveError RevisionExtension)}
    (started : Started sha256 repoType requests revision config)
    (reached : (machine repoType).Reaches config now) :
    ∃ manifest, Guarded sha256 repoType requests now manifest ∧
      ∀ later, (machine repoType).Reaches now later →
        ∃ grown, Guarded sha256 repoType requests later grown ∧
          manifest.files <+: grown.files ∧
          ∀ entry ∈ manifest.files,
            later.shared.revision.resolveFile repoType entry.path =
                now.shared.revision.resolveFile repoType entry.path ∧
              later.shared.revision.tree.lookup (splitPath entry.path) =
                now.shared.revision.tree.lookup (splitPath entry.path) := by
  have kept := (started.kept canonical verified).reaches reached
  obtain ⟨manifest, intact⟩ := kept.1.intact
  refine ⟨manifest, guarded_of_kept kept intact, ?_⟩
  intro later onward
  have keptLater := kept.reaches onward
  obtain ⟨grown, intactLater⟩ := keptLater.1.intact
  have grows : Grows now.shared later.shared := by
    apply kept.history Grows Grows.refl (fun _ _ _ => Grows.trans) _ _ _ onward
    · exact fun _ _ guarantee => guarantee.grows
    · intro _ _ _ _ released
      subst released
      exact Grows.of_revision_eq rfl
    · exact fun _ moved => moved.elim
  refine ⟨grown, guarded_of_kept keptLater intactLater, ?_⟩
  obtain ⟨other, read, extended, same⟩ := grows manifest intact.read
  rw [intactLater.read] at read
  cases read
  exact ⟨extended, fun entry member =>
    ⟨grows.resolveFile intact intactLater member, same entry member⟩⟩

/-! ## A run -/

/-- SHA-256 where the sample needs it, on the empty file. -/
def sampleDigest (bytes : Bytes) : String :=
  if bytes = [] then
    "e3b0c44298fc1c149afbf4c8996fb92427ae41e4649b934ca495991b7852b855"
  else
    ""

/-- A published revision with one empty file. -/
def sampleRevision : RevisionDir :=
  ⟨.decoded ⟨true, .model, "org/model", "main",
      [⟨"a", 0, sampleDigest []⟩]⟩,
    .missing, (FileTree.placeFile .empty ["a"] []).getD .empty⟩

/-- Two requests for it. -/
def sampleRequests : Bool → RevisionExtensionRequest
  | true => ⟨"org/model", "00", ["d/b"]⟩
  | false => ⟨"org/model", "00", ["a", "c"]⟩

/-- One of two calls has run while the other waits. -/
theorem extensions_monotone_after_one :
    ∃ now manifest,
      now.thread true = some (.done (.ok ⟨"00", ["d/b"], []⟩)) ∧
        manifest.paths = ["a", "d/b"] ∧
        Guarded sampleDigest .model sampleRequests now manifest := by
  let config : Configuration interface Bool (Shared Bool)
      (Except ArchiveError RevisionExtension) :=
    ⟨.still sampleRevision, fun actor =>
      some (extendRevision sampleDigest .model (sampleRequests actor)).run⟩
  let ended := (extendRevision sampleDigest .model (sampleRequests true)).run.run
    (soloStep .model (fun _ => .ok []) true)
    (Shared.still sampleRevision : Shared Bool)
  let now : Configuration interface Bool (Shared Bool)
      (Except ArchiveError RevisionExtension) :=
    ⟨ended.2, Function.update config.thread true (some (.done ended.1))⟩
  have started : Started sampleDigest .model sampleRequests sampleRevision
      config := ⟨rfl, fun _ => rfl⟩
  have reached : (machine .model).Reaches config now :=
    Machine.reaches_of_runs (started.calls true)
      (Program.runs_run (exec_soloStep .model (fun _ => .ok []) true) _ _)
  have canonical : ∀ actor, ∀ path ∈ (sampleRequests actor).files,
      CanonicalPath path := by
    intro actor path member
    refine ⟨?_, ?_⟩
    · revert path actor
      decide
    · revert path actor
      decide
  obtain ⟨manifest, guarded, _⟩ := extensions_monotone canonical
    (by decide : sampleRevision.verifyRevision sampleDigest .model = .ok 1)
    started reached
  refine ⟨now, manifest, ?_, ?_, guarded⟩
  · have report : ended.1 = .ok ⟨"00", ["d/b"], []⟩ := by decide
    rw [show now.thread true = some (.done ended.1) from rfl, report]
  · have live := guarded.live
    have listed : ended.2.revision.manifest = .decoded ⟨true, .model,
        "org/model", "main",
        [⟨"a", 0, sampleDigest []⟩, ⟨"d/b", 0, sampleDigest []⟩]⟩ := by
      decide
    rw [show now.shared.revision.manifest = ended.2.revision.manifest from
      rfl, listed] at live
    cases live
    rfl

end Extension
end ModelKeep
