import ModelKeep.Disk.Servable
import ModelKeep.FileSystem.Operations

/-!
# What the readers depend on

A reader builds a path below a repository or a revision and follows it.  When
the links below that directory lead back into it, the answer depends on the
directory alone.
-/

namespace ModelKeep

namespace Disk

variable (disk : Disk)

/-- `list_revisions_for_type`. -/
def listRevisions (repoType : RepositoryType) (repoId : String) :
    Except ArchiveError (List String) := do
  let repository ← disk.repositoryPath repoType repoId
  return if disk.isDir (repository ++ ["revisions"]) then
    disk.directories (repository ++ ["revisions"]) else []

/-- `upstream_files_for_type`. -/
def upstreamFiles
    (records : FileSystem.RecordCodec FileSystem.UpstreamRecord)
    (repoType : RepositoryType) (repoId commit : String) :
    Except ArchiveError (Option (List FileSystem.UpstreamFile)) := do
  let revision ← disk.revisionPath repoType repoId commit
  match disk.read (revision ++ [FileSystem.Setting.upstreamFilesFile]) with
  | .error (.io .notFound) => .ok none
  | .error error => .error error
  | .ok bytes =>
      match records.fromSlice bytes with
      | .error message => .error (.integrityMismatch message)
      | .ok record =>
          if record.repoType ≠ repoType ∨ record.commit ≠ commit then
            .error (.integrityMismatch
              "recorded upstream file list does not match its location")
          else
            .ok (some (record.files.filterMap
              FileSystem.UpstreamFile.sanitized))

/-! ## Disks that agree below a directory -/

/-- Below a directory the two disks are the same, and their paths lead to the
same places in it. -/
structure Agree (top : List String) (before after : Disk) : Prop where
  root : after.root = before.root
  leads : ∀ path, top <+: path → ".." ∉ path →
    after.tree.canonicalize path = before.tree.canonicalize path
  refusal : ∀ path, top <+: path → ".." ∉ path →
    after.refusal path = before.refusal path
  inside : ∀ path place, top <+: path → ".." ∉ path →
    before.tree.canonicalize path = some place → top <+: place
  below : ∀ path, top <+: path →
    after.tree.lookup path = before.tree.lookup path

namespace Agree

variable {top path : List String} {before after : Disk}
  (agree : Agree top before after)

include agree

theorem canonicalize_eq
    (start : top <+: path)
    (onward : ".." ∉ path) :
    after.canonicalize path = before.canonicalize path := by
  unfold canonicalize
  rw [agree.leads path start onward, agree.refusal path start onward]

theorem metadata_eq
    (start : top <+: path)
    (onward : ".." ∉ path) :
    after.metadata path = before.metadata path := by
  unfold metadata
  rw [agree.leads path start onward, agree.refusal path start onward]
  cases leads : before.tree.canonicalize path with
  | none => rfl
  | some place =>
      rw [Option.bind_some, Option.bind_some,
        agree.below place (agree.inside path place start onward leads)]

theorem isDir_eq
    (start : top <+: path)
    (onward : ".." ∉ path) :
    after.isDir path = before.isDir path := by
  unfold isDir
  rw [agree.metadata_eq start onward]

theorem read_eq
    (start : top <+: path)
    (onward : ".." ∉ path) :
    after.read path = before.read path := by
  unfold read
  rw [agree.metadata_eq start onward]

theorem readToString_eq
    (start : top <+: path)
    (onward : ".." ∉ path) :
    after.readToString path = before.readToString path := by
  unfold readToString
  rw [agree.read_eq start onward]

theorem entries_eq
    {place : List String}
    (start : top <+: place) :
    after.tree.entries place = before.tree.entries place := by
  ext name
  rw [FileTree.mem_entries, FileTree.mem_entries,
    agree.below _ (start.trans (List.prefix_append ..))]

theorem readDir_eq
    (start : top <+: path)
    (onward : ".." ∉ path) :
    after.readDir path = before.readDir path := by
  unfold readDir
  rw [agree.leads path start onward]
  cases leads : before.tree.canonicalize path with
  | none => rfl
  | some place =>
      dsimp only
      rw [agree.entries_eq (agree.inside path place start onward leads)]

/-- Of an entry of a directory below, `lstat` finds the same. -/
theorem symlinkMetadata_eq
    {name : String}
    (start : top <+: path)
    (onward : ".." ∉ path)
    (legal : LegalName name) :
    after.symlinkMetadata (path ++ [name]) =
      before.symlinkMetadata (path ++ [name]) := by
  have plain : ".." ∉ path ++ [name] := by
    rw [List.mem_append, not_or, List.mem_singleton]
    exact ⟨onward, fun same => legal.2.2.1 same.symm⟩
  have named : ¬(name = "" ∨ name = ".") :=
    not_or.mpr ⟨legal.1, legal.2.1⟩
  unfold symlinkMetadata
  rw [agree.refusal _ (start.trans (List.prefix_append ..)) plain]
  have same : after.tree.lstat (path ++ [name]) =
      before.tree.lstat (path ++ [name]) := by
    unfold FileTree.lstat
    rw [List.getLast?_concat, List.dropLast_concat]
    dsimp only
    rw [if_neg named, if_neg named, agree.leads path start onward]
    cases leads : before.tree.canonicalize path with
    | none => rfl
    | some place =>
        exact agree.below _ ((agree.inside path place start onward
          leads).trans (List.prefix_append ..))
  rw [same]

theorem directories_eq
    (start : top <+: path)
    (onward : ".." ∉ path) :
    after.directories path = before.directories path := by
  unfold directories
  rw [agree.readDir_eq start onward]
  apply List.filter_congr
  intro name member
  have legal : LegalName name := by
    unfold readDir at member
    split at member
    · next place leads =>
        rw [FileTree.mem_sortNames, FileTree.mem_entries] at member
        exact before.tree.legal_of_lookup member name (by simp)
    · cases member
  rw [agree.symlinkMetadata_eq start onward legal]

end Agree

end Disk

namespace FileSystem

open FileTree

/-- The error for a path that cannot be followed. -/
def blame (tree : FileTree Bytes) (path : List String) : IoErrorKind :=
  match tree.traceLinks 40 path with
  | .error .missing => .notFound
  | .error .notDirectory => .notADirectory
  | _ => .other

/-- The archive in a tree. -/
def Setting.disk (setting : Setting) (tree : FileTree Bytes) : Disk :=
  ⟨tree, setting.root, blame tree⟩

/-- A directory that keeps to itself and was left alone. -/
theorem agree_of_alike
    (setting : Setting)
    {top : List String}
    {before after : FileTree Bytes}
    (alike : Alike top before after)
    (anchored : before.Anchored top)
    (contained : before.Contained top) :
    Disk.Agree top (setting.disk before) (setting.disk after) where
  root := rfl
  leads := by
    intro path start onward
    have follows := alike.traceLinks anchored contained 40
    change after.canonicalize path = before.canonicalize path
    rw [canonicalize_eq_trace, canonicalize_eq_trace,
      (follows path start onward).1]
  refusal := by
    intro path start onward
    have follows := alike.traceLinks anchored contained 40
    change blame after path = blame before path
    unfold blame
    rw [(follows path start onward).1]
  inside := fun _ _ start onward leads =>
    anchored.canonicalize_inside contained start onward leads
  below := alike.below

/-! ## The readers -/

variable (setting : Setting)

/-- The contents of a commit are answered for in the same way. -/
structure SameContents (before after : FileTree Bytes)
    (repoType : RepositoryType) (repoId commit : String) : Prop where
  manifest : (setting.disk after).manifest repoType repoId commit =
    (setting.disk before).manifest repoType repoId commit
  upstreamFiles :
    (setting.disk after).upstreamFiles setting.records repoType repoId
        commit =
      (setting.disk before).upstreamFiles setting.records repoType repoId
        commit
  resolveFile : ∀ path,
    (setting.disk after).resolveFile setting.manifests repoType repoId commit
        path =
      (setting.disk before).resolveFile setting.manifests repoType repoId
        commit path

/-- A repository is answered for in the same way. -/
structure SameAnswers (before after : FileTree Bytes)
    (repoType : RepositoryType) (repoId : String) : Prop where
  resolveRef : ∀ reference,
    (setting.disk after).resolveRef repoType repoId reference =
      (setting.disk before).resolveRef repoType repoId reference
  listRevisions :
    (setting.disk after).listRevisions repoType repoId =
      (setting.disk before).listRevisions repoType repoId
  contents : ∀ commit,
    SameContents setting before after repoType repoId commit

section answers

variable {setting} {repoType : RepositoryType} {repoId : String}
  {namespaceName name : String} {before after : FileTree Bytes}
  {top : List String}

/-- The rest of a computation matters only where it is reached. -/
theorem bind_congr_ok
    {ε α β : Type}
    {first : Except ε α}
    {rest other : α → Except ε β}
    (same : ∀ value, first = .ok value → rest value = other value) :
    first >>= rest = first >>= other := by
  cases first with
  | error error => rfl
  | ok value => exact same value rfl

theorem repositoryPath_eq_ok
    {tree : FileTree Bytes}
    {repository : List String}
    (ids : validateRepoId repoId = .ok (namespaceName, name))
    (built : (setting.disk tree).repositoryPath repoType repoId =
      .ok repository) :
    repository = setting.repositoryPath repoType namespaceName name := by
  obtain ⟨_, accepted, built⟩ := bind_eq_ok.mp built
  cases ids.symm.trans accepted
  cases built
  rfl

theorem revisionPath_eq_ok
    {tree : FileTree Bytes}
    {commit : String}
    {revision : List String}
    (ids : validateRepoId repoId = .ok (namespaceName, name))
    (built : (setting.disk tree).revisionPath repoType repoId commit =
      .ok revision) :
    validateRevision commit = .ok () ∧ revision =
      setting.revisionsPath repoType namespaceName name ++ [commit] := by
  obtain ⟨repository, accepted, built⟩ := bind_eq_ok.mp built
  obtain ⟨_, valid, built⟩ := bind_eq_ok.mp built
  cases built
  rw [repositoryPath_eq_ok ids accepted]
  exact ⟨valid, by simp [Setting.revisionsPath]⟩

section agree

variable {commit : String}

/-- What is answered about a commit depends on what is below a directory that
it lies in. -/
theorem sameContents_of_agree
    (agree : Disk.Agree top (setting.disk before) (setting.disk after))
    (ids : validateRepoId repoId = .ok (namespaceName, name))
    (start : top <+:
      setting.revisionsPath repoType namespaceName name ++ [commit])
    (onward : ".." ∉ setting.revisionsPath repoType namespaceName name) :
    SameContents setting before after repoType repoId commit := by
  have within : ∀ revision relative,
      (setting.disk before).revisionPath repoType repoId commit =
        .ok revision →
      ".." ∉ relative →
      top <+: revision ++ relative ∧ ".." ∉ revision ++ relative := by
    intro revision relative built plain
    obtain ⟨valid, rfl⟩ := revisionPath_eq_ok ids built
    have legal := legalName_of_validateRevision valid
    refine ⟨start.trans (List.prefix_append ..), ?_⟩
    simp only [List.mem_append, List.mem_singleton, not_or]
    exact ⟨⟨onward, fun same => legal.2.2.1 same.symm⟩, plain⟩
  have manifest : (setting.disk after).manifest repoType repoId commit =
      (setting.disk before).manifest repoType repoId commit := by
    apply bind_congr_ok
    intro revision built
    obtain ⟨below, plain⟩ := within revision [".modelkeep-manifest.json"]
      built (by decide +kernel)
    exact agree.readToString_eq below plain
  refine ⟨manifest, ?_, fun path => ?_⟩
  · apply bind_congr_ok
    intro revision built
    obtain ⟨below, plain⟩ := within revision [Setting.upstreamFilesFile]
      built (by decide +kernel)
    rw [agree.read_eq below plain]
  · have parsed : (setting.disk after).readManifestFor setting.manifests
        repoType repoId commit =
        (setting.disk before).readManifestFor setting.manifests repoType
          repoId commit := by
      unfold Disk.readManifestFor
      rw [manifest]
    unfold Disk.resolveFile
    apply bind_congr_ok
    intro _ valid
    apply bind_congr_ok
    intro revision built
    rw [parsed]
    apply bind_congr_ok
    intro manifest _
    split
    · rfl
    · split
      · rfl
      · next entry _ =>
          obtain ⟨below, plain⟩ := within revision [] built (by simp)
          rw [List.append_nil] at below plain
          obtain ⟨further, onwards⟩ := within revision (splitPath path) built
            (Archive.not_mem_of_valid valid)
          rw [agree.canonicalize_eq below plain,
            agree.canonicalize_eq further onwards]
          apply bind_congr_ok
          intro root _
          apply bind_congr_ok
          intro candidate leads
          have place : (setting.disk before).tree.canonicalize
              (revision ++ splitPath path) = some candidate :=
            Disk.canonicalize_eq_ok.mp leads
          have stands := (stands_of_canonicalize place).1
          unfold Disk.serveCandidate
          rw [agree.metadata_eq (agree.inside _ _ further onwards place)
            fun member => (FileTree.legal_of_lookup _ stands _ member).2.2.1
              rfl]

/-- What is answered about a repository depends on what is below it. -/
theorem sameAnswers_of_agree
    (ids : validateRepoId repoId = .ok (namespaceName, name))
    (onward : ".." ∉ setting.repositoryPath repoType namespaceName name)
    (agree : Disk.Agree (setting.repositoryPath repoType namespaceName name)
      (setting.disk before) (setting.disk after)) :
    SameAnswers setting before after repoType repoId where
  resolveRef := by
    intro reference
    apply bind_congr_ok
    intro repository built
    cases repositoryPath_eq_ok ids built
    apply bind_congr_ok
    intro _ valid
    have legal := legalName_of_validateComponent valid
    have plain : ".." ∉ setting.repositoryPath repoType namespaceName name ++
        ["refs", reference] := by
      simp only [List.mem_append, List.mem_cons, List.not_mem_nil, or_false,
        not_or]
      exact ⟨onward, by decide +kernel, fun same => legal.2.2.1 same.symm⟩
    rw [agree.readToString_eq (List.prefix_append ..) plain]
  listRevisions := by
    apply bind_congr_ok
    intro repository built
    cases repositoryPath_eq_ok ids built
    have plain : ".." ∉ setting.repositoryPath repoType namespaceName name ++
        ["revisions"] := by
      simp only [List.mem_append, List.mem_singleton, not_or]
      exact ⟨onward, by decide +kernel⟩
    rw [agree.isDir_eq (List.prefix_append ..) plain,
      agree.directories_eq (List.prefix_append ..) plain]
  contents := by
    intro commit
    apply sameContents_of_agree agree ids
    · rw [Setting.revisionsPath, List.append_assoc]
      exact List.prefix_append ..
    · rw [Setting.revisionsPath, List.mem_append, List.mem_singleton, not_or]
      exact ⟨onward, by decide +kernel⟩

end agree

end answers

end FileSystem
end ModelKeep
