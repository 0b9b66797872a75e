import ModelKeep.FileSystem.Staging

/-!
# The footprint of a publication

A staging directory that is published in place may hold links, which its paths
must not be led astray by.  The rename into place may take links along, so from
there on only the footprint is kept.
-/

namespace ModelKeep
namespace FileSystem

open Concurrency Program FileTree

variable {α β : Type} {tops : List String → Prop}

/-! ## Leaving things alone -/

/-- Wherever the program is cut off, it has changed its footprint only. -/
abbrev Leaves (tops : List String → Prop) (program : Program interface α)
    (start : Volume) : Prop :=
  Guards exec (fun now => Within tops start.tree now.tree) program
    (fun _ _ => True) start

theorem Secures.leaves
    {program : Program interface α}
    {post : α → Volume → Prop}
    {start : Volume}
    (secures : Secures tops program post start) :
    Leaves tops program start :=
  secures.anyway.widen fun _ kept => kept.within

theorem Stays.leaves
    {program : Program interface α}
    {start : Volume}
    (stays : Stays tops start.tree program) :
    Leaves tops program start :=
  stays.secures.leaves

theorem Secures.leavesBind
    {program : Program interface α}
    {rest : α → Program interface β}
    {between : α → Volume → Prop}
    {start : Volume}
    (first : Secures tops program between start)
    (second : ∀ value middle, Kept tops start.tree middle →
      between value middle → Leaves tops (rest value) middle) :
    Leaves tops (program >>= rest) start := by
  apply Guards.bind
  apply (first.widen fun _ kept => kept.within).reached.mono
  rintro value middle _ ⟨held, run⟩
  have kept := (first.of_runs run).1
  exact (second value middle kept held).widen fun _ => kept.within.trans

theorem Secures.leavesAndThen
    {action : Action α}
    {rest : α → Action β}
    {between : α → Volume → Prop}
    {start : Volume}
    (first : Secures tops action.run (OnSuccess between) start)
    (second : ∀ value middle, Kept tops start.tree middle →
      between value middle → Leaves tops (rest value).run middle) :
    Leaves tops (action >>= rest).run start := by
  rw [ExceptT.run_bind]
  apply first.leavesBind
  intro outcome middle kept between
  cases outcome with
  | ok value => exact second value middle kept (between value rfl)
  | error error => exact ⟨.refl tops middle.tree, trivial⟩

theorem Stays.leavesAndThen
    {action : Action α}
    {rest : α → Action β}
    {start : Volume}
    (first : Stays tops start.tree action.run)
    (second : ∀ value (middle : Volume), FewerLinks start.tree middle.tree →
      Leaves tops (rest value).run middle) :
    Leaves tops (action >>= rest).run start :=
  first.onSuccess.leavesAndThen fun value middle kept _ =>
    second value middle kept.fewer

theorem leaves_check_bind
    {outcome : Except ArchiveError α}
    {rest : α → Action β}
    {start : Volume}
    (second : ∀ value, outcome = .ok value →
      Leaves tops (rest value).run start) :
    Leaves tops (check outcome >>= rest).run start := by
  cases outcome with
  | error error => exact ⟨.refl tops start.tree, trivial⟩
  | ok value => exact second value rfl

theorem leaves_check
    (outcome : Except ArchiveError α)
    (start : Volume) :
    Leaves tops (check outcome : Action α).run start :=
  ⟨.refl tops start.tree, trivial⟩

/-- A look finds out about the tree as it is. -/
theorem secures_look
    (op : Look)
    (start : Volume) :
    Secures tops (look op).run
      (OnSuccess fun answer later =>
        later = start ∧ op.Right start.tree answer) start := by
  refine ⟨.refl .., fun reply later executed => ?_⟩
  obtain ⟨rfl, right⟩ := executed
  refine ⟨.refl .., ?_⟩
  intro value same
  cases reply with
  | ok answer =>
      cases same
      exact ⟨rfl, right value rfl⟩
  | error kind => cases same

/-! ## Pruning a staging directory -/

section pruning

variable {tree : FileTree Bytes}

theorem plain_of_stands
    {path : List String}
    (stands : tree.Stands path) :
    Plain tree path where
  anchored := by
    refine ⟨tree.legal_of_lookup stands.1, ?_⟩
    rintro above ⟨rest, rfl⟩ shorter target link
    have directory := tree.isDirectory_of_append above rest
      (fun nothing => shorter (by simp [nothing])) stands.1
    rw [isDirectory_iff, link] at directory
    cases directory
  unlinked := stands.2

theorem legal_of_readDir
    {path names : List String}
    (right : Look.Right tree (.readDir path) names) :
    ∀ name ∈ names, LegalName name := by
  obtain ⟨place, _, _, _, listed⟩ := right
  intro name member
  exact tree.legal_of_lookup (mem_entries.mp ((listed name).mp member)) name
    (by simp)

/-- What `lstat` finds at an anchored path stands there. -/
theorem lookup_of_lstat
    {path : List String}
    {node : FileNode Bytes}
    (anchored : tree.Anchored path)
    (nonempty : path ≠ [])
    (found : tree.lstat path = some node) :
    tree.lookup path = some node := by
  obtain ⟨notEmpty, notDot, _⟩ :=
    anchored.legal _ (List.getLast_mem nonempty)
  have shorter : path.dropLast ≠ path := by
    intro same
    have lengths := congrArg List.length same
    have positive := List.length_pos_of_ne_nil nonempty
    rw [List.length_dropLast] at lengths
    omega
  have parent := (anchored.of_prefix (List.dropLast_prefix path)).canonicalize
    (anchored.unlinked _ (List.dropLast_prefix path) shorter)
  unfold lstat at found
  rw [List.getLast?_eq_some_getLast nonempty] at found
  dsimp only at found
  rw [if_neg (not_or.mpr ⟨notEmpty, notDot⟩), parent] at found
  split at found
  · next above leads =>
      split at leads
      · cases leads
        rwa [List.dropLast_append_getLast nonempty] at found
      · cases leads
  · cases found

/-- Nothing but the directory and what is below it is removed. -/
theorem secures_removeUnlisted
    {archived root directory : List String}
    {levels : Nat}
    {start : Volume}
    (plain : Plain start.tree directory)
    (below : Below tops directory) :
    Secures tops (Setting.removeUnlisted archived root levels directory).run
      (OnSuccess fun _ _ => True) start := by
  induction levels generalizing directory start with
  | zero => exact secures_done fun _ _ => trivial
  | succ levels inductionHypothesis =>
      apply (secures_look _ start).andThen
      rintro names middle - ⟨rfl, right⟩
      have legal := legal_of_readDir right
      clear right
      induction names generalizing middle with
      | nil => exact secures_done fun _ _ => trivial
      | cons name rest restHypothesis =>
          rw [List.forall_mem_cons] at legal
          have anchored := plain.child legal.1
          have inside := below.mono (List.prefix_append directory [name])
          have visited : Secures tops (Setting.removeUnlistedEntry archived
              root (Setting.removeUnlisted archived root levels)
              (directory ++ [name])).run (OnSuccess fun _ _ => True)
              middle := by
            have unlinks : Stays tops middle.tree
                (change (.removeFile (directory ++ [name]))).run :=
              stays_change (show Permitted tops middle.tree
                (.change (.removeFile _)) from Or.inr ⟨anchored, inside⟩)
            unfold Setting.removeUnlistedEntry
            dsimp only
            split
            · exact secures_done fun _ _ => trivial
            · apply (secures_look _ middle).andThen
              rintro node here - ⟨rfl, found⟩
              have stands := lookup_of_lstat anchored (by simp) found
              cases node with
              | directory =>
                  have deeper : Plain here.tree (directory ++ [name]) :=
                    ⟨anchored, fun target link => by
                      rw [stands] at link
                      cases link⟩
                  apply (inductionHypothesis deeper inside).andThen
                  intro _ later kept _
                  have removes : Stays tops later.tree
                      (change (.removeDir (directory ++ [name]))).run :=
                    stays_change (show Permitted tops later.tree
                      (.change (.removeDir _)) from
                        Or.inr ⟨kept.fewer.anchored anchored, inside⟩)
                  apply Stays.onSuccess
                  apply stays_bind (stays_look _)
                  intro names
                  split
                  · exact removes
                  · trivial
              | file content =>
                  apply Stays.onSuccess
                  dsimp only
                  split
                  · trivial
                  · exact unlinks
              | link target => exact unlinks.onSuccess
          apply visited.andThen
          intro _ later kept _
          exact restHypothesis later (plain.of_fewer kept.fewer) legal.2

end pruning

/-! ## Renaming into place -/

section publishing

variable (setting : Setting) {revisions staging : List String}
  {commit : String}

theorem legalName_stagingLeaseFile : LegalName Setting.stagingLeaseFile := by
  decide +kernel

theorem legalName_manifestName : LegalName Setting.manifestName := by
  decide +kernel

theorem stays_removeStagingLease
    {tree : FileTree Bytes}
    (plain : Plain tree staging)
    (below : Below tops staging) :
    Stays tops tree (Setting.removeStagingLease staging).run := by
  have removes : Permitted tops tree (.change
      (.removeFile (staging ++ [Setting.stagingLeaseFile]))) :=
    Or.inr ⟨plain.child legalName_stagingLeaseFile,
      below.mono (List.prefix_append ..)⟩
  apply stays_bind (stays_always (stays_attemptTo removes))
  intro reply
  cases reply with
  | ok done => trivial
  | error kind => cases kind <;> trivial

theorem stays_removeAll
    {tree : FileTree Bytes}
    (plain : Plain tree staging)
    (below : Below tops staging) :
    Stays tops tree (attemptAnyway (.removeDirAll staging)).run :=
  stays_attemptAnyway (show Permitted tops tree (.change (.removeDirAll _))
    from Or.inr ⟨plain.anchored, below⟩)

/-- A rename within the footprint stays in it, whatever it takes along. -/
theorem within_rename
    {old new : List String}
    {before after : Volume}
    {reply : Except IoErrorKind Unit}
    (namesOld : Names tops before.tree old)
    (namesNew : Names tops before.tree new)
    (executed : exec (.change (.rename old new)) before reply after) :
    Within tops before.tree after.tree := by
  apply (turned_of_exec executed).within
  rintro place (leads | leads)
  · exact Or.inl (namesOld.place leads)
  · exact Or.inl (namesNew.place leads)

theorem leaves_renameStaging
    {start : Volume}
    (plain : Plain start.tree staging)
    (below : Below tops staging)
    (anchored : start.tree.Anchored (revisions ++ [commit]))
    (inside : Below tops (revisions ++ [commit])) :
    Leaves tops (Setting.renameStaging revisions staging commit).run
      start := by
  apply (stays_removeStagingLease plain below).onSuccess.leavesAndThen
  intro _ middle kept _
  have plainHere := plain.of_fewer kept.fewer
  have anchoredHere := kept.fewer.anchored anchored
  refine ⟨.refl tops middle.tree, fun reply later executed => ?_⟩
  have within := within_rename (Or.inr ⟨plainHere.anchored, below⟩)
    (Or.inr ⟨anchoredHere, inside⟩) executed
  cases reply with
  | ok done =>
      have syncs : Stays tops later.tree (do
          change (.syncDirectory revisions)
          return revisions ++ [commit] : Action (List String)).run :=
        stays_bind (stays_change trivial) fun _ => trivial
      exact syncs.leaves.widen fun _ => within.trans
  | error kind =>
      rw [show later = middle from executed]
      apply Stays.leaves
      apply stays_bind (stays_removeAll plainHere below)
      intro _
      apply stays_bind (stays_always (stays_existsPath _))
      intro there
      cases there <;> trivial

theorem leaves_publishStaging
    {write : Action Unit}
    {start : Volume}
    (plain : Plain start.tree staging)
    (below : Below tops staging)
    (anchored : start.tree.Anchored (revisions ++ [commit]))
    (inside : Below tops (revisions ++ [commit]))
    (writes : Secures tops write.run (OnSuccess fun _ _ => True) start) :
    Leaves tops (Setting.publishStaging revisions staging commit write).run
      start := by
  apply writes.always.leavesAndThen
  intro outcome middle kept _
  have plainHere := plain.of_fewer kept.fewer
  cases outcome with
  | ok done =>
      exact leaves_renameStaging plainHere below
        (kept.fewer.anchored anchored) inside
  | error error =>
      apply Stays.leaves
      exact stays_bind (stays_removeAll plainHere below) fun _ => trivial

theorem Housed.plain
    {tree : FileTree Bytes}
    (housed : Housed tops tree staging) :
    Plain tree staging :=
  ⟨housed.anchored, fun target => housed.free staging target List.prefix_rfl⟩

theorem Below.above
    {path : List String}
    (top : tops path) :
    Above tops path :=
  ⟨path, top, List.prefix_rfl⟩

/-! ## The three ways to fill a staging directory -/

variable {repoType : RepositoryType} {tree : FileTree Bytes}

theorem Housed.stays_writeStagingManifest
    (housed : Housed tops tree staging)
    (repoId requestedRevision : String)
    (entries : List ManifestFile) :
    Stays tops tree (Setting.writeStagingManifest staging repoType repoId
      requestedRevision commit entries).run :=
  FileSystem.stays_writeStagingManifest
    (housed.opens (by decide +kernel)) ..

theorem Housed.stays_writeRevision
    (housed : Housed tops tree staging)
    (overhead : Above tops staging)
    (request : PublishRequest) :
    Stays tops tree
      (setting.writeRevision staging repoType request).run :=
  stays_bind (stays_collectEntries
      (housed.stays_writeFile setting overhead) _)
    fun _ => housed.stays_writeStagingManifest ..

theorem Housed.stays_writeSourceRevision
    (housed : Housed tops tree staging)
    (overhead : Above tops staging)
    (sourceRoot : List String)
    (request : SourcePublishRequest) :
    Stays tops tree (setting.writeSourceRevision staging sourceRoot repoType
      request).run :=
  stays_bind (stays_collectEntries
      (housed.stays_writeSourceFile setting overhead sourceRoot) _)
    fun _ => housed.stays_writeStagingManifest ..

theorem stays_sourceEntries
    (sourceRoot : List String)
    (files : List SourceFile)
    (archived : List String) :
    Stays tops tree
      (setting.sourceEntries staging sourceRoot files archived).run := by
  induction files generalizing archived with
  | nil => trivial
  | cons file rest inductionHypothesis =>
      refine stays_bind (stays_check _) fun _ => ?_
      split
      · trivial
      · refine stays_bind ?_ fun entry => ?_
        · apply stays_bind (stays_look _)
          intro node
          split
          · refine stays_bind (stays_look _) fun source => ?_
            refine stays_bind (stays_look _) fun found => ?_
            split
            · trivial
            · refine stays_bind (stays_look _) fun _ => ?_
              refine stays_bind (stays_look _) fun content => ?_
              exact stays_bind (stays_check _) fun _ => trivial
          · trivial
        · exact stays_bind (inductionHypothesis _) fun _ => trivial

/-- In place, only the name of the manifest has to be minded. -/
theorem secures_writeSourceManifest
    {sourceRoot : List String}
    {request : SourcePublishRequest}
    {start : Volume}
    (plain : Plain start.tree staging)
    (below : Below tops staging)
    (unlinked : ∀ target, start.tree.lookup
      (staging ++ [Setting.manifestName]) ≠ some (.link target)) :
    Secures tops (setting.writeSourceManifest staging sourceRoot repoType
      request).run (OnSuccess fun _ _ => True) start := by
  apply (stays_sourceEntries setting sourceRoot request.files
    []).onSuccess.andThen
  intro entries middle kept _
  have plainHere := plain.of_fewer kept.fewer
  apply (secures_removeUnlisted plainHere below).andThen
  intro _ later keptLater _
  have fewer := kept.fewer.trans keptLater.fewer
  apply Stays.onSuccess
  apply FileSystem.stays_writeStagingManifest
  exact Or.inr ⟨(plain.of_fewer fewer).child legalName_manifestName,
    fun target stands => unlinked target (fewer _ _ stands),
    below.mono (List.prefix_append ..)⟩

end publishing

end FileSystem
end ModelKeep
