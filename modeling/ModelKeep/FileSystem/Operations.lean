import ModelKeep.FileSystem.Reuse

/-!
# The footprints of the archive operations

What each operation may touch: the staging area, one revision of its
repository, one of its refs, and the files it keeps beside them.
-/

namespace ModelKeep
namespace FileSystem

open Concurrency Program FileTree

variable (setting : Setting) {repoType : RepositoryType}
  {namespaceName name : String} {tops : List String → Prop} {start : Volume}

/-! ## Repositories without links above their revisions -/

/-- The staging area. -/
def Setting.tmp : List String := setting.root ++ ["tmp"]

/-- The directory of the refs of a repository. -/
def Setting.refsPath (repoType : RepositoryType)
    (namespaceName name : String) : List String :=
  setting.repositoryPath repoType namespaceName name ++ ["refs"]

theorem legalName_of_validateRevision
    {commit : String}
    (valid : validateRevision commit = .ok ()) :
    LegalName commit := by
  have separate := not_separator_of_validateRevision valid
  unfold validateRevision at valid
  split at valid
  · cases valid
  · next fine =>
      simp only [not_or, not_not, List.all_eq_true] at fine
      refine ⟨fine.1, ?_, ?_, separate⟩
      · rintro rfl
        have hexadecimal := fine.2.2 '.' (by decide)
        revert hexadecimal
        decide
      · rintro rfl
        have hexadecimal := fine.2.2 '.' (by decide)
        revert hexadecimal
        decide

section footprints

variable (tops) in
/-- What an operation on a revision needs of the repository. -/
structure Reachable (tree : FileTree Bytes)
    (revisions : List String) (commit : String) : Prop where
  plain : Plain tree revisions
  valid : validateRevision commit = .ok ()
  revision : tops (revisions ++ [commit])

variable {revisions : List String} {commit : String}
  {tree : FileTree Bytes}

namespace Reachable

theorem anchored (reachable : Reachable tops tree revisions commit) :
    tree.Anchored (revisions ++ [commit]) :=
  reachable.plain.child (legalName_of_validateRevision reachable.valid)

theorem below (reachable : Reachable tops tree revisions commit) :
    Below tops (revisions ++ [commit]) :=
  ⟨_, reachable.revision, List.prefix_rfl⟩

theorem of_fewer
    {later : FileTree Bytes}
    (reachable : Reachable tops tree revisions commit)
    (fewer : FewerLinks tree later) :
    Reachable tops later revisions commit :=
  ⟨reachable.plain.of_fewer fewer, reachable.valid, reachable.revision⟩

/-- The directory of the revisions may be made. -/
theorem stays_createDirAll
    (reachable : Reachable tops tree revisions commit) :
    Stays tops tree (createDirAll revisions).run :=
  FileSystem.stays_createDirAll fun _ => makes_of_above
    reachable.plain.anchored
    ⟨_, reachable.revision, List.prefix_append ..⟩

end Reachable

/-! ## Publications -/

theorem above_tmp
    {staging : List String}
    (area : ∀ path, setting.tmp <+: path → tops path)
    (inside : ∃ name, staging = setting.root ++ ["tmp", name]) :
    Above tops staging := by
  obtain ⟨name, rfl⟩ := inside
  apply Below.above
  apply area
  exact ⟨[name], by simp [Setting.tmp]⟩

theorem leaves_publishRevision
    {request : PublishRequest}
    (ids : validateRepoId request.repoId = .ok (namespaceName, name))
    (reachable : validateRevision request.commit = .ok () →
      Reachable tops start.tree
        (setting.revisionsPath repoType namespaceName name) request.commit)
    (area : ∀ path, setting.tmp <+: path → tops path)
    (plain : Plain start.tree setting.tmp) :
    Leaves tops (setting.publishRevision repoType request).run start := by
  apply leaves_check_bind
  rintro _ same
  cases ids.symm.trans same
  apply leaves_check_bind
  intro _ _
  apply leaves_check_bind
  intro _ valid
  have reaches := reachable valid
  split
  · exact leaves_check ..
  · apply reaches.stays_createDirAll.leavesAndThen
    intro _ made fewer
    apply (stays_always (stays_existsPath _)).leavesAndThen
    intro there checked fewerChecked
    split
    · exact leaves_check ..
    · have here := fewer.trans fewerChecked
      apply (secures_createStaging setting (by decide) (plain.of_fewer here)
        ⟨_, area _ List.prefix_rfl, List.prefix_rfl⟩).leavesAndThen
      rintro staging later kept ⟨housed, inside⟩
      have still := reaches.of_fewer (here.trans kept.fewer)
      apply leaves_publishStaging housed.plain housed.below still.anchored
        still.below
      exact (housed.stays_writeRevision setting
        (above_tmp setting area inside) request).onSuccess

theorem leaves_publishRevisionFromDirectory
    {request : SourcePublishRequest}
    (ids : validateRepoId request.repoId = .ok (namespaceName, name))
    (reachable : validateRevision request.commit = .ok () →
      Reachable tops start.tree
        (setting.revisionsPath repoType namespaceName name) request.commit)
    (area : ∀ path, setting.tmp <+: path → tops path)
    (plain : Plain start.tree setting.tmp)
    (unlinked : ∀ place,
      start.tree.canonicalize request.sourceRoot = some place →
      setting.tmp <+: place → ∀ target, start.tree.lookup
        (place ++ [Setting.manifestName]) ≠ some (.link target)) :
    Leaves tops (setting.publishRevisionFromDirectory repoType request).run
      start := by
  apply leaves_check_bind
  rintro _ same
  cases ids.symm.trans same
  apply leaves_check_bind
  intro _ _
  apply leaves_check_bind
  intro _ valid
  have reaches := reachable valid
  split
  · exact leaves_check ..
  · apply (secures_look _ start).leavesAndThen
    rintro sourceRoot first - ⟨rfl, leads⟩
    have sourcePlain := plain_of_stands (stands_of_canonicalize leads)
    apply (stays_always (stays_isDir _)).leavesAndThen
    intro directory second fewerSecond
    split
    · exact leaves_check ..
    · apply (reaches.of_fewer fewerSecond).stays_createDirAll.leavesAndThen
      intro _ made fewerMade
      apply (stays_always (stays_existsPath _)).leavesAndThen
      intro there checked fewerChecked
      have here := (fewerSecond.trans fewerMade).trans fewerChecked
      split
      · exact leaves_check ..
      · apply (secures_look _ checked).leavesAndThen
        rintro archiveTmp found - ⟨rfl, leadsTmp⟩
        have plainHere := plain.of_fewer here
        have literal : archiveTmp = setting.tmp := by
          change found.tree.canonicalize setting.tmp = _ at leadsTmp
          rw [plainHere.anchored.canonicalize plainHere.unlinked] at leadsTmp
          split at leadsTmp
          · cases leadsTmp
            rfl
          · cases leadsTmp
        subst literal
        have still := reaches.of_fewer here
        split
        · next inside =>
            have below : Below tops sourceRoot :=
              ⟨_, area _ List.prefix_rfl, inside⟩
            apply leaves_publishStaging (sourcePlain.of_fewer here) below
              still.anchored still.below
            apply secures_writeSourceManifest setting
              (sourcePlain.of_fewer here) below
            exact fun target stands =>
              unlinked sourceRoot leads inside target (here _ _ stands)
        · apply (secures_createStaging setting (by decide) plainHere
            ⟨_, area _ List.prefix_rfl, List.prefix_rfl⟩).leavesAndThen
          rintro staging later kept ⟨housed, inside⟩
          have last := still.of_fewer kept.fewer
          apply leaves_publishStaging housed.plain housed.below
            last.anchored last.below
          exact (housed.stays_writeSourceRevision setting
            (above_tmp setting area inside) sourceRoot request).onSuccess

/-! ## Temporary files -/

/-- A temporary file that was made anew and is then moved to its name. -/
theorem secures_temporary
    {α : Type}
    {temporary : List String}
    {rest : Action α}
    (anchored : start.tree.Anchored temporary)
    (member : tops temporary)
    (stays : ∀ later : Volume, FewerLinks start.tree later.tree →
      Housed tops later.tree temporary → Stays tops later.tree rest.run) :
    Secures tops (Setting.withTemporary temporary do
      change (.createNew temporary)
      rest).run (fun _ _ => True) start := by
  have below : Below tops temporary := ⟨_, member, List.prefix_rfl⟩
  apply secures_withTemporary anchored below
  intro later fewer free
  exact stays later fewer ⟨fewer.anchored anchored, free, below⟩

namespace Housed

variable {temporary : List String}

theorem opens_self (housed : Housed tops tree temporary) :
    Opens tops tree temporary :=
  Or.inr ⟨housed.anchored, housed.plain.unlinked, housed.below⟩

theorem stays_append_self
    (housed : Housed tops tree temporary)
    (content : Bytes) :
    Stays tops tree (change (.append temporary content)).run :=
  stays_change (show Permitted tops tree (.change (.append _ _)) from
    housed.opens_self)

theorem stays_rename_self
    {new : List String}
    (housed : Housed tops tree temporary)
    (names : Names tops tree new) :
    Stays tops tree (change (.rename temporary new)).run := by
  have moves : Moves tops tree temporary :=
    ⟨temporary, housed.anchored, housed.free, housed.below, List.prefix_rfl,
      not_mem_of_anchored housed.anchored⟩
  exact stays_change (show Permitted tops tree (.change (.rename _ _)) from
    ⟨moves, names⟩)

end Housed

/-! ## Refs -/

theorem legalName_refPart
    {reference : String}
    (separate : '/' ∉ reference.toList)
    (operation : OperationId) :
    LegalName (Setting.refPart reference operation) := by
  unfold Setting.refPart
  apply legalName_of_mem (by simp : 'p' ∈ _) (by decide)
  simp [separate, operation.not_separator]

theorem leaves_updateRef
    {repoId reference : String}
    (ids : validateRepoId repoId = .ok (namespaceName, name))
    (plain : Plain start.tree
      (setting.refsPath repoType namespaceName name))
    (written : tops
      (setting.refsPath repoType namespaceName name ++ [reference]))
    (temporary : ∀ operation, tops
      (setting.refsPath repoType namespaceName name ++
        [Setting.refPart reference operation])) :
    Leaves tops (setting.updateRef repoType repoId reference commit).run
      start := by
  apply leaves_check_bind
  rintro _ same
  cases ids.symm.trans same
  apply leaves_check_bind
  intro _ validReference
  apply leaves_check_bind
  intro _ _
  apply (stays_always (stays_isDir _)).leavesAndThen
  intro there first fewerFirst
  split
  · exact leaves_check ..
  · have plainFirst := plain.of_fewer fewerFirst
    have made : Stays tops first.tree (createDirAll
        (setting.refsPath repoType namespaceName name)).run :=
      stays_createDirAll fun _ => makes_of_above plainFirst.anchored
        ⟨_, written, List.prefix_append ..⟩
    apply made.leavesAndThen
    intro _ second fewerSecond
    apply (stays_always stays_operationId).leavesAndThen
    intro operation third fewerThird
    have plainThird :=
      (plainFirst.of_fewer fewerSecond).of_fewer fewerThird
    have separate := not_separator_of_validateComponent validReference
    apply Secures.leaves
    apply secures_temporary
      (plainThird.child (legalName_refPart separate operation))
      (temporary operation)
    intro later fewer housed
    have names : Names tops later.tree
        (setting.refsPath repoType namespaceName name ++ [reference]) :=
      Or.inr ⟨fewer.anchored
        (plainThird.child (legalName_of_validateComponent validReference)),
        _, written, List.prefix_rfl⟩
    refine stays_bind (housed.stays_append_self _) fun _ => ?_
    refine stays_bind (stays_change trivial) fun _ => ?_
    refine stays_bind (housed.stays_rename_self names) fun _ => ?_
    exact stays_change trivial

/-! ## Records -/

theorem legalName_recordPart
    {value : String}
    (separate : '/' ∉ value.toList)
    (operation : OperationId) :
    LegalName (Setting.recordPart value operation) := by
  unfold Setting.recordPart
  apply legalName_of_mem (by simp : 'p' ∈ _) (by decide)
  simp [separate, operation.not_separator]

/-- A file directly in the revision. -/
theorem Reachable.names
    {file : String}
    (reachable : Reachable tops tree revisions commit)
    (unlinked : ∀ target,
      tree.lookup (revisions ++ [commit]) ≠ some (.link target))
    (legal : LegalName file) :
    Names tops tree (revisions ++ [commit] ++ [file]) :=
  Or.inr ⟨Plain.child ⟨reachable.anchored, unlinked⟩ legal,
    reachable.below.mono (List.prefix_append ..)⟩

theorem leaves_recordUpstreamFiles
    {repoId : String}
    {files : List UpstreamFile}
    (ids : validateRepoId repoId = .ok (namespaceName, name))
    (reachable : validateRevision commit = .ok () →
      Reachable tops start.tree
        (setting.revisionsPath repoType namespaceName name) commit)
    (unlinked : ∀ target, start.tree.lookup
      (setting.revisionsPath repoType namespaceName name ++ [commit]) ≠
        some (.link target))
    (temporary : ∀ operation, tops
      (setting.revisionsPath repoType namespaceName name ++
        [Setting.recordPart commit operation])) :
    Leaves tops
      (setting.recordUpstreamFiles repoType repoId commit files).run
      start := by
  apply leaves_check_bind
  rintro _ same
  cases ids.symm.trans same
  apply leaves_check_bind
  intro _ valid
  have reaches := reachable valid
  apply (stays_always (stays_isDir _)).leavesAndThen
  intro there first fewerFirst
  split
  · exact leaves_check ..
  · apply (stays_always (stays_existsPath _)).leavesAndThen
    intro recorded second fewerSecond
    split
    · exact ⟨.refl tops second.tree, trivial⟩
    · apply leaves_check_bind
      intro serialized _
      apply (stays_always stays_operationId).leavesAndThen
      intro operation third fewerThird
      have fewer := (fewerFirst.trans fewerSecond).trans fewerThird
      have here := reaches.of_fewer fewer
      have written : Secures tops (Setting.withTemporary
          (setting.revisionsPath repoType namespaceName name ++
            [Setting.recordPart commit operation]) do
          change (.createNew
            (setting.revisionsPath repoType namespaceName name ++
              [Setting.recordPart commit operation]))
          change (.append
            (setting.revisionsPath repoType namespaceName name ++
              [Setting.recordPart commit operation]) serialized)
          change (.append
            (setting.revisionsPath repoType namespaceName name ++
              [Setting.recordPart commit operation]) (text "\n"))
          change (.syncAll
            (setting.revisionsPath repoType namespaceName name ++
              [Setting.recordPart commit operation]))
          change (.rename
            (setting.revisionsPath repoType namespaceName name ++
              [Setting.recordPart commit operation])
            (setting.revisionsPath repoType namespaceName name ++
              [commit] ++ [Setting.upstreamFilesFile]))
          change (.syncDirectory
            (setting.revisionsPath repoType namespaceName name ++
              [commit]))).run (fun _ _ => True) third := by
        apply secures_temporary
          (here.plain.child (legalName_recordPart
            (not_separator_of_validateRevision valid) operation))
          (temporary operation)
        intro later fewerLater housed
        have names := (here.of_fewer fewerLater).names
          (fun target stands =>
            unlinked target (fewer _ _ (fewerLater _ _ stands)))
          (by decide +kernel : LegalName Setting.upstreamFilesFile)
        refine stays_bind (housed.stays_append_self _) fun _ => ?_
        refine stays_bind (housed.stays_append_self _) fun _ => ?_
        refine stays_bind (stays_change trivial) fun _ => ?_
        refine stays_bind (housed.stays_rename_self names) fun _ => ?_
        exact stays_change trivial
      apply Secures.leavesAndThen (written.mono fun _ _ _ _ _ _ => trivial)
      intro _ last _ _
      exact ⟨.refl tops last.tree, trivial⟩

/-! ## Removals -/

theorem stays_referencesTo
    (refs : List String)
    (names : List String) :
    Stays tops tree (Setting.referencesTo refs commit names).run := by
  induction names with
  | nil => trivial
  | cons name rest inductionHypothesis =>
      apply stays_bind (stays_look _)
      intro node
      split
      · refine stays_bind (stays_readToString _) fun content => ?_
        exact stays_bind inductionHypothesis fun _ => trivial
      · exact inductionHypothesis

theorem stays_referencesOf (refs : List String) :
    Stays tops tree (Setting.referencesOf refs commit).run := by
  apply stays_bind (stays_always (stays_isDir _))
  intro there
  split
  · refine stays_bind (stays_look _) fun names => ?_
    exact stays_bind (stays_referencesTo refs names) fun _ => trivial
  · trivial

theorem leaves_removeRevision
    {repoId : String}
    {dryRun : Bool}
    (ids : validateRepoId repoId = .ok (namespaceName, name))
    (reachable : validateRevision commit = .ok () →
      Reachable tops start.tree
        (setting.revisionsPath repoType namespaceName name) commit) :
    Leaves tops (setting.removeRevision repoType repoId commit dryRun).run
      start := by
  apply leaves_check_bind
  rintro _ same
  cases ids.symm.trans same
  apply leaves_check_bind
  intro _ valid
  have reaches := reachable valid
  have removes : Permitted tops start.tree (.change (.removeDirAll
      (setting.revisionsPath repoType namespaceName name ++ [commit]))) :=
    Or.inr ⟨reaches.anchored, reaches.below⟩
  apply Stays.leaves
  apply stays_bind (stays_always (stays_isDir _))
  intro there
  split
  · trivial
  · apply stays_bind (stays_referencesOf _)
    intro references
    split
    · trivial
    · split
      · trivial
      · refine stays_bind (stays_change removes) fun _ => ?_
        exact stays_bind (stays_change trivial) fun _ => trivial

/-! ## Extensions -/

theorem legalName_manifestPart
    {value : String}
    (separate : '/' ∉ value.toList)
    (operation : OperationId) :
    LegalName (Setting.manifestPart value operation) := by
  unfold Setting.manifestPart
  apply legalName_of_mem (by simp : 'p' ∈ _) (by decide)
  simp [separate, operation.not_separator]

/-- The file that an extension of a commit locks. -/
def lockFile (commit : String) : String :=
  ".modelkeep-extend-" ++ commit ++ ".lock"

theorem legalName_lockFile
    {value : String}
    (separate : '/' ∉ value.toList) :
    LegalName (lockFile value) := by
  unfold lockFile
  apply legalName_of_mem (by simp : 'm' ∈ _) (by decide)
  simp [separate]

theorem stays_readExtendableManifest
    (request : ExtensionRequest)
    (revision : List String) :
    Stays tops tree
      (setting.readExtendableManifest repoType request revision).run := by
  refine stays_bind (stays_readToString _) fun content => ?_
  refine stays_bind (stays_check _) fun manifest => ?_
  exact stays_bind (stays_check _) fun _ => trivial

theorem Housed.stays_placeStaged
    {staging revision : List String}
    {published : List String}
    (housed : Housed tops tree staging)
    (anchored : tree.Anchored revision)
    (contained : tree.Contained revision)
    (top : tops revision)
    (staged : List ManifestFile)
    (placed : Setting.Placed) :
    Stays tops tree (Setting.placeStaged staging revision published staged
      placed).run := by
  have below : Below tops revision := ⟨_, top, List.prefix_rfl⟩
  induction staged generalizing placed with
  | nil => trivial
  | cons file rest inductionHypothesis =>
      unfold Setting.placeStaged
      split
      · exact inductionHypothesis _
      · apply stays_check_bind
        intro _ valid
        have onward := Archive.not_mem_of_valid valid
        have makes : Stays tops tree
            (createDirAll (Setting.parentOf revision file.path)).run :=
          stays_createDirAll fun _ =>
            makes_parentOf anchored contained below (Below.above top) valid
        refine stays_bind makes fun _ => ?_
        refine stays_bind (housed.stays_rename onward
          (Or.inl (inside_append anchored contained below onward)))
          fun _ => ?_
        exact inductionHypothesis _

/-- What an extension needs of the revision beside its repository. -/
structure Extendable (tops : List String → Prop) (tree : FileTree Bytes)
    (revisions : List String) (commit : String) : Prop where
  reachable : Reachable tops tree revisions commit
  contained : tree.Contained (revisions ++ [commit])
  unlocked : ∀ target, tree.lookup (revisions ++ [lockFile commit]) ≠
    some (.link target)
  locked : tops (revisions ++ [lockFile commit])
  temporary : ∀ operation,
    tops (revisions ++ [Setting.manifestPart commit operation])

theorem Extendable.of_fewer
    {later : FileTree Bytes}
    (extendable : Extendable tops tree revisions commit)
    (fewer : FewerLinks tree later) :
    Extendable tops later revisions commit :=
  ⟨extendable.reachable.of_fewer fewer,
    fewer.contained extendable.contained,
    fun target stands => extendable.unlocked target (fewer _ _ stands),
    extendable.locked, extendable.temporary⟩

theorem Extendable.stays_lock
    (extendable : Extendable tops tree revisions commit) :
    Stays tops tree
      (Setting.lockRevisionExtension revisions commit).run := by
  have anchored := extendable.reachable.plain.child (legalName_lockFile
    (not_separator_of_validateRevision extendable.reachable.valid))
  have opens : Permitted tops tree (.change (.openOrCreate
      (revisions ++ [".modelkeep-extend-" ++ commit ++ ".lock"]))) :=
    Or.inr ⟨anchored, extendable.unlocked, _, extendable.locked,
      List.prefix_rfl⟩
  exact stays_bind (stays_change opens) fun _ => stays_look _

theorem Extendable.secures_replaceRevisionManifest
    {request : ExtensionRequest}
    {manifest : Manifest}
    {entries : List ManifestFile}
    (extendable : Extendable tops start.tree revisions request.commit) :
    Secures tops (Setting.replaceRevisionManifest revisions
      (revisions ++ [request.commit]) repoType request manifest entries).run
      (OnSuccess fun _ _ => True) start := by
  apply (stays_always stays_operationId).onSuccess.andThen
  intro operation middle kept _
  have here := extendable.of_fewer kept.fewer
  refine Guards.mono (secures_temporary
    (here.reachable.plain.child (legalName_manifestPart
      (not_separator_of_validateRevision here.reachable.valid) operation))
    (here.temporary operation) ?_) fun _ _ _ _ _ _ => trivial
  intro later fewer housed
  have still := here.of_fewer fewer
  have names : Names tops later.tree
      (revisions ++ [request.commit] ++ [Setting.manifestName]) :=
    Or.inl (inside_append still.reachable.anchored still.contained
      still.reachable.below (by decide +kernel))
  refine stays_bind (stays_writeManifest housed.opens_self ..) fun _ => ?_
  refine stays_bind (stays_change trivial) fun _ => ?_
  refine stays_bind (housed.stays_rename_self names) fun _ => ?_
  refine stays_bind (stays_change trivial) fun _ => ?_
  exact stays_change trivial

theorem Extendable.secures_extendFromStaging
    {request : ExtensionRequest}
    {staging : List String}
    {staged : List ManifestFile}
    {skipped : List String}
    (extendable : Extendable tops start.tree revisions request.commit)
    (housed : Housed tops start.tree staging) :
    Secures tops (setting.extendFromStaging repoType request revisions
      staging staged skipped).run (OnSuccess fun _ _ => True) start := by
  apply extendable.stays_lock.onSuccess.andThen
  intro _ first keptFirst _
  apply (stays_readExtendableManifest setting request _).onSuccess.andThen
  intro manifest second keptSecond _
  have fewer := keptFirst.fewer.trans keptSecond.fewer
  have here := extendable.of_fewer fewer
  apply ((housed.of_fewer fewer).stays_placeStaged here.reachable.anchored
    here.contained here.reachable.revision staged _).onSuccess.andThen
  intro placed third keptThird _
  split
  · exact secures_done fun _ _ => trivial
  · apply (stays_syncDirectories _).onSuccess.andThen
    intro _ fourth keptFourth _
    have synced : Stays tops fourth.tree (change (.syncDirectory
        (revisions ++ [request.commit]))).run := stays_change trivial
    apply synced.onSuccess.andThen
    intro _ fifth keptFifth _
    have last := here.of_fewer ((keptThird.fewer.trans
      keptFourth.fewer).trans keptFifth.fewer)
    apply last.secures_replaceRevisionManifest.andThen
    intro _ _ _ _
    exact secures_done fun _ _ => trivial

theorem leaves_extendRevision
    {request : ExtensionRequest}
    (ids : validateRepoId request.repoId = .ok (namespaceName, name))
    (extendable : validateRevision request.commit = .ok () →
      Extendable tops start.tree
        (setting.revisionsPath repoType namespaceName name) request.commit)
    (area : ∀ path, setting.tmp <+: path → tops path)
    (plain : Plain start.tree setting.tmp) :
    Leaves tops (setting.extendRevision repoType request).run start := by
  apply leaves_check_bind
  rintro _ same
  cases ids.symm.trans same
  apply leaves_check_bind
  intro _ valid
  have growing := extendable valid
  apply (stays_always (stays_isDir _)).leavesAndThen
  intro there first fewerFirst
  split
  · exact leaves_check ..
  · apply (stays_readExtendableManifest setting request _).leavesAndThen
    intro manifest second fewerSecond
    apply leaves_check_bind
    intro sorted _
    split
    · exact ⟨.refl tops second.tree, trivial⟩
    · apply (stays_look _).leavesAndThen
      intro sourceRoot third fewerThird
      apply (stays_always (stays_isDir _)).leavesAndThen
      intro directory fourth fewerFourth
      split
      · exact leaves_check ..
      · have fewer := ((fewerFirst.trans fewerSecond).trans
          fewerThird).trans fewerFourth
        apply (secures_createStaging setting (by decide)
          (plain.of_fewer fewer)
          ⟨_, area _ List.prefix_rfl, List.prefix_rfl⟩).leavesAndThen
        rintro staging later kept ⟨housed, inside⟩
        have here := growing.of_fewer (fewer.trans kept.fewer)
        have filled : Secures tops (do
            let staged ← Setting.collectEntries
              (setting.stageExtensionFile staging sourceRoot)
              (request.files.filter fun file =>
                decide (file.path ∈ sorted.candidates))
            setting.extendFromStaging repoType request
              (setting.revisionsPath repoType namespaceName name) staging
              staged sorted.skipped : Action RevisionExtension).run
            (OnSuccess fun _ _ => True) later := by
          apply (stays_collectEntries (housed.stays_stageExtensionFile setting
            (above_tmp setting area inside) sourceRoot) _).onSuccess.andThen
          intro staged middle keptMiddle _
          exact (here.of_fewer
            keptMiddle.fewer).secures_extendFromStaging setting
              (housed.of_fewer keptMiddle.fewer)
        apply filled.always.leavesAndThen
        intro outcome final keptFinal _
        apply Stays.leaves
        exact stays_bind ((housed.of_fewer
          keptFinal.fewer).stays_removeAll) fun _ => trivial

end footprints

end FileSystem
end ModelKeep
