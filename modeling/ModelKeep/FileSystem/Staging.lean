import ModelKeep.FileSystem.Footprints

/-!
# The footprint of what is staged

A fresh staging directory is free of links, so whatever is written below it
stays below it.
-/

namespace ModelKeep
namespace FileSystem

open Concurrency Program FileTree

/-! ## Names of temporary things -/

/-- A name with a letter that is no dot, and without a separator. -/
theorem legalName_of_mem
    {name : String}
    {character : Char}
    (member : character ∈ name.toList)
    (letter : character ≠ '.')
    (separate : '/' ∉ name.toList) :
    LegalName name := by
  refine ⟨?_, ?_, ?_, separate⟩
  · rintro rfl
    simp at member
  · rintro rfl
    simp at member
    exact letter member
  · rintro rfl
    simp at member
    exact letter member

theorem OperationId.not_separator (operation : OperationId) :
    '/' ∉ operation.text.toList := by
  intro member
  rcases operation.plain '/' member with hexadecimal | dash
  · revert hexadecimal
    decide
  · revert dash
    decide

theorem not_separator_of_validateComponent
    {value : String}
    (valid : validateComponent value = .ok ()) :
    '/' ∉ value.toList := by
  intro member
  unfold validateComponent at valid
  rw [if_pos (by simp [member])] at valid
  cases valid

theorem legalName_of_validateComponent
    {value : String}
    (valid : validateComponent value = .ok ()) :
    LegalName value := by
  have separate := not_separator_of_validateComponent valid
  unfold validateComponent at valid
  split at valid
  · cases valid
  · next fine =>
      simp only [not_or] at fine
      exact ⟨fine.1, fine.2.1, fine.2.2.1, separate⟩

theorem not_separator_of_validateRevision
    {value : String}
    (valid : validateRevision value = .ok ()) :
    '/' ∉ value.toList := by
  intro member
  unfold validateRevision at valid
  split at valid
  · cases valid
  · next fine =>
      simp only [not_or, not_not, List.all_eq_true] at fine
      have hexadecimal := fine.2.2 '/' member
      revert hexadecimal
      decide

theorem legalName_stagingName
    {kind : String}
    (separate : '/' ∉ kind.toList)
    (operation : OperationId) :
    LegalName (kind ++ "-" ++ operation.text) := by
  apply legalName_of_mem (by simp : '-' ∈ _) (by decide)
  simp [separate, operation.not_separator]

/-! ## Staging directories -/

variable {tops : List String → Prop} {tree : FileTree Bytes}

/-- A path with no link on it, itself included. -/
structure Plain (tree : FileTree Bytes) (path : List String) : Prop where
  anchored : tree.Anchored path
  unlinked : ∀ target, tree.lookup path ≠ some (.link target)

theorem Plain.child
    {path : List String}
    {name : String}
    (plain : Plain tree path)
    (legal : LegalName name) :
    tree.Anchored (path ++ [name]) where
  legal := by
    intro component member
    rcases List.mem_append.mp member with inside | last
    · exact plain.anchored.legal component inside
    · rw [List.mem_singleton.mp last]
      exact legal
  unlinked := by
    intro above onTheWay shorter
    have up : above <+: path := by
      rcases List.prefix_concat_iff.mp onTheWay with whole | up
      · exact absurd whole shorter
      · exact up
    by_cases same : above = path
    · rw [same]
      exact plain.unlinked
    · exact plain.anchored.unlinked above up same

theorem Plain.of_fewer
    {later : FileTree Bytes}
    {path : List String}
    (plain : Plain tree path)
    (fewer : FewerLinks tree later) :
    Plain later path :=
  ⟨fewer.anchored plain.anchored,
    fun target stands => plain.unlinked target (fewer path target stands)⟩

/-- A directory of the footprint that is free of links. -/
structure Housed (tops : List String → Prop) (tree : FileTree Bytes)
    (staging : List String) : Prop where
  anchored : tree.Anchored staging
  free : LinkFree tree staging
  below : Below tops staging

namespace Housed

variable {staging : List String}

theorem of_fewer
    {later : FileTree Bytes}
    (housed : Housed tops tree staging)
    (fewer : FewerLinks tree later) :
    Housed tops later staging :=
  ⟨fewer.anchored housed.anchored, fewer.linkFree housed.free, housed.below⟩

theorem inside
    {relative : List String}
    (housed : Housed tops tree staging)
    (onward : ".." ∉ relative) :
    Inside tops tree (staging ++ relative) :=
  inside_append housed.anchored housed.free.contained housed.below onward

theorem moves
    {relative : List String}
    (housed : Housed tops tree staging)
    (onward : ".." ∉ relative) :
    Moves tops tree (staging ++ relative) := by
  refine ⟨staging, housed.anchored, housed.free, housed.below,
    List.prefix_append .., ?_⟩
  rw [List.mem_append, not_or]
  exact ⟨not_mem_of_anchored housed.anchored, onward⟩

theorem opens
    {relative : List String}
    (housed : Housed tops tree staging)
    (onward : ".." ∉ relative) :
    Opens tops tree (staging ++ relative) :=
  Or.inl (housed.inside onward)

theorem names
    {relative : List String}
    (housed : Housed tops tree staging)
    (onward : ".." ∉ relative) :
    Names tops tree (staging ++ relative) :=
  Or.inl (housed.inside onward)

theorem names_self (housed : Housed tops tree staging) :
    Names tops tree staging :=
  Or.inr ⟨housed.anchored, housed.below⟩

variable (setting : Setting)

theorem stays_createNew
    {relative : List String}
    (housed : Housed tops tree staging)
    (onward : ".." ∉ relative) :
    Stays tops tree (change (.createNew (staging ++ relative))).run :=
  stays_change (show Permitted tops tree (.change (.createNew _)) from
    housed.names onward)

theorem stays_create
    {relative : List String}
    (housed : Housed tops tree staging)
    (onward : ".." ∉ relative) :
    Stays tops tree (change (.create (staging ++ relative))).run :=
  stays_change (show Permitted tops tree (.change (.create _)) from
    housed.opens onward)

theorem stays_append
    {relative : List String}
    (housed : Housed tops tree staging)
    (onward : ".." ∉ relative)
    (content : Bytes) :
    Stays tops tree (change (.append (staging ++ relative) content)).run :=
  stays_change (show Permitted tops tree (.change (.append _ _)) from
    housed.opens onward)

theorem stays_removeAll (housed : Housed tops tree staging) :
    Stays tops tree (attemptAnyway (.removeDirAll staging)).run :=
  stays_attemptAnyway (show Permitted tops tree (.change (.removeDirAll _))
    from housed.names_self)

theorem stays_rename
    {relative new : List String}
    (housed : Housed tops tree staging)
    (onward : ".." ∉ relative)
    (names : Names tops tree new) :
    Stays tops tree (change (.rename (staging ++ relative) new)).run :=
  stays_change (show Permitted tops tree (.change (.rename _ _)) from
    ⟨housed.moves onward, names⟩)

theorem stays_parentOf
    {path : String}
    (housed : Housed tops tree staging)
    (overhead : Above tops staging)
    (valid : validateRelativeFilePath path = .ok ()) :
    Stays tops tree (createDirAll (Setting.parentOf staging path)).run :=
  stays_createDirAll fun _ => makes_parentOf housed.anchored
    housed.free.contained housed.below overhead valid

/-! ## What is done in a staging directory -/

theorem stays_writeStagingLease
    (housed : Housed tops tree staging)
    (nonce : String) :
    Stays tops tree (setting.writeStagingLease staging nonce).run := by
  refine stays_bind (stays_always stays_unixTimestamp) fun now => ?_
  refine stays_bind (stays_always stays_operationId) fun operation => ?_
  have plain : ".." ∉
      [".modelkeep-staging-lease-" ++ operation.text ++ ".part"] := by
    intro member
    have characters := congrArg String.toList (List.mem_singleton.mp member)
    simp at characters
  have lease : ".." ∉ [Setting.stagingLeaseFile] := by decide +kernel
  refine stays_bind (housed.stays_create plain) fun _ => ?_
  refine stays_bind (stays_appendAll (housed.opens plain) _) fun _ => ?_
  refine stays_bind (stays_change trivial) fun _ => ?_
  exact housed.stays_rename plain (housed.names lease)

theorem stays_copyFile
    {path : String}
    (housed : Housed tops tree staging)
    (source : List String)
    (valid : validateRelativeFilePath path = .ok ()) :
    Stays tops tree (setting.copyFile path source
      (staging ++ splitPath path)).run := by
  have onward := Archive.not_mem_of_valid valid
  refine stays_bind (stays_look _) fun _ => ?_
  refine stays_bind (housed.stays_createNew onward) fun _ => ?_
  refine stays_bind (stays_look _) fun content => ?_
  refine stays_bind (stays_appendAll (housed.opens onward) _) fun _ => ?_
  refine stays_bind (stays_check _) fun _ => ?_
  exact stays_bind (stays_change trivial) fun _ => trivial

theorem stays_writeFile
    (housed : Housed tops tree staging)
    (overhead : Above tops staging)
    (file : ArchiveFile) :
    Stays tops tree (setting.writeFile staging file).run := by
  apply stays_check_bind
  intro _ valid
  have onward := Archive.not_mem_of_valid valid
  refine stays_bind (housed.stays_parentOf overhead valid) fun _ => ?_
  refine stays_bind (housed.stays_createNew onward) fun _ => ?_
  refine stays_bind (housed.stays_append onward file.bytes) fun _ => ?_
  exact stays_bind (stays_change trivial) fun _ => trivial

theorem stays_writeSourceFile
    (housed : Housed tops tree staging)
    (overhead : Above tops staging)
    (sourceRoot : List String)
    (file : SourceFile) :
    Stays tops tree (setting.writeSourceFile staging sourceRoot file).run := by
  apply stays_check_bind
  intro _ valid
  refine stays_bind (stays_look _) fun source => ?_
  split
  · trivial
  · refine stays_bind (stays_always (stays_isFile _)) fun there => ?_
    split
    · trivial
    · refine stays_bind (housed.stays_parentOf overhead valid) fun _ => ?_
      exact housed.stays_copyFile setting source valid

theorem stays_stageExtensionFile
    (housed : Housed tops tree staging)
    (overhead : Above tops staging)
    (sourceRoot : List String)
    (file : SourceFile) :
    Stays tops tree
      (setting.stageExtensionFile staging sourceRoot file).run := by
  apply stays_check_bind
  intro _ valid
  refine stays_bind (stays_look _) fun node => ?_
  split
  · refine stays_bind (stays_look _) fun source => ?_
    split
    · trivial
    · refine stays_bind (stays_always (stays_isFile _)) fun there => ?_
      split
      · trivial
      · refine stays_bind (housed.stays_parentOf overhead valid) fun _ => ?_
        exact housed.stays_copyFile setting source valid
  · trivial

end Housed

/-- The manifest of a staging directory is written where it is to be. -/
theorem stays_writeStagingManifest
    {staging : List String}
    (opens : Opens tops tree (staging ++ [Setting.manifestName]))
    (repoType : RepositoryType)
    (repoId requestedRevision commit : String)
    (entries : List ManifestFile) :
    Stays tops tree (Setting.writeStagingManifest staging repoType repoId
      requestedRevision commit entries).run := by
  have creates : Permitted tops tree
      (.change (.create (staging ++ [Setting.manifestName]))) := opens
  refine stays_bind (stays_change creates) fun _ => ?_
  refine stays_bind (stays_writeManifest opens ..) fun _ => ?_
  refine stays_bind (stays_change trivial) fun _ => ?_
  exact stays_change trivial

/-! ## Making a staging directory -/

/-- A staging directory that is made is free of links, and stays so. -/
theorem secures_createStaging
    (setting : Setting)
    {kind : String}
    {start : Volume}
    (separate : '/' ∉ kind.toList)
    (plain : Plain start.tree (setting.root ++ ["tmp"]))
    (below : Below tops (setting.root ++ ["tmp"])) :
    Secures tops (setting.createStaging kind).run
      (OnSuccess fun staging later =>
        Housed tops later.tree staging ∧
          ∃ name, staging = setting.root ++ ["tmp", name]) start := by
  unfold Setting.createStaging
  generalize 16 = attempts
  induction attempts generalizing start with
  | zero => exact secures_done fun _ same => by cases same
  | succ attempts inductionHypothesis =>
      have draws : Stays tops start.tree
          (always operationId : Action OperationId).run :=
        stays_always stays_operationId
      apply draws.onSuccess.andThen
      intro operation middle kept _
      have plainHere := plain.of_fewer kept.fewer
      have regroup : setting.root ++ ["tmp", kind ++ "-" ++ operation.text] =
          (setting.root ++ ["tmp"]) ++ [kind ++ "-" ++ operation.text] := by
        simp
      have anchored : middle.tree.Anchored
          (setting.root ++ ["tmp", kind ++ "-" ++ operation.text]) := by
        rw [regroup]
        exact plainHere.child (legalName_stagingName separate operation)
      have inside : Below tops
          (setting.root ++ ["tmp", kind ++ "-" ++ operation.text]) := by
        rw [regroup]
        exact below.mono (List.prefix_append ..)
      have makes : Permitted tops middle.tree (.change (.createDir
          (setting.root ++ ["tmp", kind ++ "-" ++ operation.text]))) :=
        Or.inl (Or.inr ⟨anchored, inside⟩)
      have tries : Secures tops (always (attemptTo (.createDir
          (setting.root ++ ["tmp", kind ++ "-" ++ operation.text]))) :
            Action (Except IoErrorKind Unit)).run
          (OnSuccess fun reply later => reply = .ok () → middle.apply
            (.createDir (setting.root ++
              ["tmp", kind ++ "-" ++ operation.text])) = some later)
          middle := by
        rw [run_always]
        apply (secures_attemptTo makes).bind
        intro reply later _ applied
        refine secures_done fun value same => ?_
        cases same
        exact applied
      apply tries.andThen
      intro reply later keptLater applied
      cases reply with
      | ok done =>
          have housed : Housed tops later.tree
              (setting.root ++ ["tmp", kind ++ "-" ++ operation.text]) :=
            ⟨keptLater.fewer.anchored anchored,
              linkFree_createDir anchored (applied rfl), inside⟩
          have leased := housed.stays_writeStagingLease setting operation.text
          apply leased.onSuccess.andThen
          intro _ leasedLater keptLeased _
          have synced : Stays tops leasedLater.tree (change (.syncDirectory
              (setting.root ++ ["tmp", kind ++ "-" ++ operation.text]))).run :=
            stays_change trivial
          apply synced.onSuccess.andThen
          intro _ final keptFinal _
          refine secures_done fun value same => ?_
          cases same
          exact ⟨(housed.of_fewer keptLeased.fewer).of_fewer keptFinal.fewer,
            _, rfl⟩
      | error failure =>
          have again := inductionHypothesis (plainHere.of_fewer keptLater.fewer)
          cases failure with
          | alreadyExists => exact again
          | _ => exact secures_done fun _ same => by cases same

end FileSystem
end ModelKeep
