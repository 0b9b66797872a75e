import ModelKeep.FileSystem.Readers

/-!
# Repositories are isolated

An operation on one repository changes no answer about another, nor about the
contents of another commit, unless a link leads it or a reader astray.
-/

namespace ModelKeep
namespace FileSystem

open Concurrency Program FileTree

/-- An operation on a repository. -/
inductive Operation
  | publish (request : PublishRequest)
  | publishFromDirectory (request : SourcePublishRequest)
  | extend (request : ExtensionRequest)
  | updateRef (repoId reference commit : String)
  | recordUpstreamFiles (repoId commit : String) (files : List UpstreamFile)
  | remove (repoId commit : String) (dryRun : Bool)

namespace Operation

/-- The repository an operation is on. -/
def repoId : Operation → String
  | .publish request => request.repoId
  | .publishFromDirectory request => request.repoId
  | .extend request => request.repoId
  | .updateRef repoId _ _ => repoId
  | .recordUpstreamFiles repoId _ _ => repoId
  | .remove repoId _ _ => repoId

/-- The commit an operation is on. -/
def commit : Operation → String
  | .publish request => request.commit
  | .publishFromDirectory request => request.commit
  | .extend request => request.commit
  | .updateRef _ _ commit => commit
  | .recordUpstreamFiles _ commit _ => commit
  | .remove _ commit _ => commit

/-- Only whether an operation succeeds. -/
def outcome {α : Type} (action : Action α) :
    Program interface (Except ArchiveError Unit) :=
  action.run >>= fun result => .done (result.map fun _ => ())

variable (setting : Setting) (repoType : RepositoryType)

/-- What an operation does. -/
def program : Operation → Program interface (Except ArchiveError Unit)
  | .publish request => outcome (setting.publishRevision repoType request)
  | .publishFromDirectory request =>
      outcome (setting.publishRevisionFromDirectory repoType request)
  | .extend request => outcome (setting.extendRevision repoType request)
  | .updateRef repoId reference commit =>
      outcome (setting.updateRef repoType repoId reference commit)
  | .recordUpstreamFiles repoId commit files =>
      outcome (setting.recordUpstreamFiles repoType repoId commit files)
  | .remove repoId commit dryRun =>
      outcome (setting.removeRevision repoType repoId commit dryRun)

variable (namespaceName name : String)

/-- What an operation may touch. -/
def Touches : Operation → List String → Prop
  | .publish request, path => setting.tmp <+: path ∨
      path = setting.revisionsPath repoType namespaceName name ++
        [request.commit]
  | .publishFromDirectory request, path => setting.tmp <+: path ∨
      path = setting.revisionsPath repoType namespaceName name ++
        [request.commit]
  | .extend request, path => setting.tmp <+: path ∨
      ∃ file, path = setting.revisionsPath repoType namespaceName name ++
          [file] ∧
        (file = request.commit ∨ file = lockFile request.commit ∨
          ∃ operation, file = Setting.manifestPart request.commit operation)
  | .updateRef _ reference _, path =>
      ∃ file, path = setting.refsPath repoType namespaceName name ++
          [file] ∧
        (file = reference ∨
          ∃ operation, file = Setting.refPart reference operation)
  | .recordUpstreamFiles _ commit _, path =>
      ∃ file, path = setting.revisionsPath repoType namespaceName name ++
          [file] ∧
        (file = commit ∨
          ∃ operation, file = Setting.recordPart commit operation)
  | .remove _ commit _, path =>
      path = setting.revisionsPath repoType namespaceName name ++ [commit]

/-- No link leads the operation elsewhere: a publication and an extension work
below `tmp`, an extension follows the links of the revision and opens its lock
file, and a publication in place opens the manifest of its staging
directory. -/
def Confined (tree : FileTree Bytes) : Operation → Prop
  | .publish _ => Plain tree setting.tmp
  | .publishFromDirectory request => Plain tree setting.tmp ∧
      ∀ place, tree.canonicalize request.sourceRoot = some place →
        setting.tmp <+: place → ∀ target,
          tree.lookup (place ++ [Setting.manifestName]) ≠
            some (.link target)
  | .extend request => Plain tree setting.tmp ∧
      tree.Contained (setting.revisionsPath repoType namespaceName name ++
        [request.commit]) ∧
      ∀ target, tree.lookup (setting.revisionsPath repoType namespaceName
        name ++ [lockFile request.commit]) ≠ some (.link target)
  | .updateRef _ _ _ =>
      Plain tree (setting.refsPath repoType namespaceName name)
  | .recordUpstreamFiles _ commit _ => ∀ target,
      tree.lookup (setting.revisionsPath repoType namespaceName name ++
        [commit]) ≠ some (.link target)
  | .remove _ _ _ => True

end Operation

/-- There is no symbolic link above a revision directory. -/
def Setting.Upright (setting : Setting) (tree : FileTree Bytes) : Prop :=
  ∀ repoType repoId namespaceName name,
    validateRepoId repoId = .ok (namespaceName, name) →
    Plain tree (setting.revisionsPath repoType namespaceName name)

variable {setting : Setting} {repoType : RepositoryType}
  {namespaceName name : String} {start : Volume}

theorem leaves_outcome
    {α : Type}
    {tops : List String → Prop}
    {action : Action α}
    (leaves : Leaves tops action.run start) :
    Leaves tops (Operation.outcome action) start := by
  apply Guards.bind
  apply leaves.mono
  intro outcome final within _
  exact ⟨within, trivial⟩

/-- Wherever an operation is cut off, it has touched no more than it may. -/
theorem Operation.leaves
    {operation : Operation}
    (upright : setting.Upright start.tree)
    (ids : validateRepoId operation.repoId = .ok (namespaceName, name))
    (confined : operation.Confined setting repoType namespaceName name
      start.tree) :
    Leaves (operation.Touches setting repoType namespaceName name)
      (operation.program setting repoType) start := by
  have plain := upright repoType operation.repoId namespaceName name ids
  cases operation with
  | publish request =>
      exact leaves_outcome (leaves_publishRevision setting ids
        (fun valid => ⟨plain, valid, Or.inr rfl⟩) (fun _ => Or.inl)
        confined)
  | publishFromDirectory request =>
      exact leaves_outcome (leaves_publishRevisionFromDirectory setting ids
        (fun valid => ⟨plain, valid, Or.inr rfl⟩) (fun _ => Or.inl)
        confined.1 confined.2)
  | extend request =>
      obtain ⟨area, contained, unlocked⟩ := confined
      exact leaves_outcome (leaves_extendRevision setting ids
        (fun valid => ⟨⟨plain, valid, Or.inr ⟨_, rfl, Or.inl rfl⟩⟩,
          contained, unlocked, Or.inr ⟨_, rfl, Or.inr (Or.inl rfl)⟩,
          fun operation =>
            Or.inr ⟨_, rfl, Or.inr (Or.inr ⟨operation, rfl⟩)⟩⟩)
        (fun _ => Or.inl) area)
  | updateRef repoId reference commit =>
      exact leaves_outcome (leaves_updateRef setting ids confined
        ⟨_, rfl, Or.inl rfl⟩
        fun operation => ⟨_, rfl, Or.inr ⟨operation, rfl⟩⟩)
  | recordUpstreamFiles repoId commit files =>
      exact leaves_outcome (leaves_recordUpstreamFiles setting ids
        (fun valid => ⟨plain, valid, ⟨_, rfl, Or.inl rfl⟩⟩) confined
        fun operation => ⟨_, rfl, Or.inr ⟨operation, rfl⟩⟩)
  | remove repoId commit dryRun =>
      exact leaves_outcome (leaves_removeRevision setting ids
        fun valid => ⟨plain, valid, rfl⟩)

/-! ## Apart from what is touched -/

theorem archiveDirectory_ne_tmp (repoType : RepositoryType) :
    repoType.archiveDirectory ≠ "tmp" := by
  cases repoType <;> decide

theorem archiveDirectory_injective :
    Function.Injective RepositoryType.archiveDirectory := by
  intro left right same
  cases left <;> cases right <;> first | rfl | (revert same; decide)

/-- The staging area is no repository. -/
theorem apart_of_tmp
    {path : List String}
    {below : List String}
    (inside : setting.tmp <+: path) :
    ¬path <+: setting.repositoryPath repoType namespaceName name ++ below ∧
      ¬setting.repositoryPath repoType namespaceName name ++ below <+:
        path := by
  have clash : ¬setting.tmp <+:
      setting.repositoryPath repoType namespaceName name ++ below := by
    unfold Setting.tmp Setting.repositoryPath
    rw [List.append_assoc, List.prefix_append_right_inj]
    rintro ⟨rest, same⟩
    exact archiveDirectory_ne_tmp repoType (List.cons.inj same).1.symm
  refine ⟨fun up => clash (inside.trans up), fun under => ?_⟩
  rcases List.prefix_or_prefix_of_prefix inside under with first | second
  · exact clash first
  · obtain ⟨rest, same⟩ := second
    unfold Setting.tmp Setting.repositoryPath at same
    have lengths := congrArg List.length same
    simp only [List.length_append, List.length_cons, List.length_nil]
      at lengths
    omega

/-- Two names in one directory are apart. -/
theorem apart_of_ne
    {directory : List String}
    {first second : String}
    (different : first ≠ second) :
    ¬directory ++ [first] <+: directory ++ [second] := by
  rw [List.prefix_append_right_inj]
  rintro ⟨rest, same⟩
  exact different (List.cons.inj same).1

/-- What lies in a repository is not in another one. -/
theorem apart_of_repositories
    {otherType : RepositoryType}
    {otherNamespace otherName : String}
    {below : List String}
    (different : (otherType, otherNamespace, otherName) ≠
      (repoType, namespaceName, name)) :
    ¬setting.repositoryPath repoType namespaceName name ++ below <+:
        setting.repositoryPath otherType otherNamespace otherName ∧
      ¬setting.repositoryPath otherType otherNamespace otherName <+:
        setting.repositoryPath repoType namespaceName name ++ below := by
  have clash : ¬setting.repositoryPath otherType otherNamespace otherName <+:
      setting.repositoryPath repoType namespaceName name ++ below := by
    unfold Setting.repositoryPath
    rw [List.append_assoc, List.prefix_append_right_inj]
    rintro ⟨rest, same⟩
    simp only [List.cons_append, List.nil_append, List.cons.injEq] at same
    apply different
    rw [archiveDirectory_injective same.1, same.2.1, same.2.2.1]
  refine ⟨fun up => ?_, clash⟩
  have lengths := up.length_le
  have short : (setting.repositoryPath otherType otherNamespace
      otherName).length =
      (setting.repositoryPath repoType namespaceName name).length := by
    simp [Setting.repositoryPath]
  have empty : below = [] := by
    rw [List.length_append, short] at lengths
    exact List.length_eq_zero_iff.mp (by omega)
  subst empty
  rw [List.append_nil] at up clash
  exact clash (by rw [up.eq_of_length short.symm])

theorem first_of_validateRevision
    {value : String}
    (valid : validateRevision value = .ok ()) :
    '.' ∉ value.toList := by
  intro member
  unfold validateRevision at valid
  split at valid
  · cases valid
  · next fine =>
      simp only [not_or, not_not, List.all_eq_true] at fine
      have hexadecimal := fine.2.2 '.' member
      revert hexadecimal
      decide

theorem dot_mem_lockFile (commit : String) :
    '.' ∈ (lockFile commit).toList := by
  unfold lockFile
  simp

theorem dot_mem_manifestPart (commit : String) (operation : OperationId) :
    '.' ∈ (Setting.manifestPart commit operation).toList := by
  unfold Setting.manifestPart
  simp

theorem dot_mem_recordPart (commit : String) (operation : OperationId) :
    '.' ∈ (Setting.recordPart commit operation).toList := by
  unfold Setting.recordPart
  simp

/-- A ref is no revision. -/
theorem apart_of_refs (file other : String) :
    ¬setting.refsPath repoType namespaceName name ++ [file] <+:
        setting.revisionsPath repoType namespaceName name ++ [other] ∧
      ¬setting.revisionsPath repoType namespaceName name ++ [other] <+:
        setting.refsPath repoType namespaceName name ++ [file] := by
  unfold Setting.refsPath Setting.revisionsPath
  simp only [List.append_assoc, List.prefix_append_right_inj]
  constructor
  · rintro ⟨rest, same⟩
    exact absurd (List.cons.inj same).1 (by decide)
  · rintro ⟨rest, same⟩
    exact absurd (List.cons.inj same).1 (by decide)

namespace Operation

variable {operation : Operation}

/-- What an operation touches is in the staging area or in its repository. -/
theorem Touches.cases
    {path : List String}
    (touches : operation.Touches setting repoType namespaceName name path) :
    setting.tmp <+: path ∨ ∃ below, path =
      setting.repositoryPath repoType namespaceName name ++ below := by
  have inRevisions : ∀ file,
      setting.revisionsPath repoType namespaceName name ++ [file] =
        setting.repositoryPath repoType namespaceName name ++
          ["revisions", file] := by
    intro file
    simp [Setting.revisionsPath]
  have inRefs : ∀ file,
      setting.refsPath repoType namespaceName name ++ [file] =
        setting.repositoryPath repoType namespaceName name ++
          ["refs", file] := by
    intro file
    simp [Setting.refsPath]
  cases operation with
  | publish request =>
      rcases touches with inside | rfl
      · exact Or.inl inside
      · exact Or.inr ⟨_, inRevisions _⟩
  | publishFromDirectory request =>
      rcases touches with inside | rfl
      · exact Or.inl inside
      · exact Or.inr ⟨_, inRevisions _⟩
  | extend request =>
      rcases touches with inside | ⟨file, rfl, _⟩
      · exact Or.inl inside
      · exact Or.inr ⟨_, inRevisions _⟩
  | updateRef repoId reference commit =>
      obtain ⟨file, rfl, _⟩ := touches
      exact Or.inr ⟨_, inRefs _⟩
  | recordUpstreamFiles repoId commit files =>
      obtain ⟨file, rfl, _⟩ := touches
      exact Or.inr ⟨_, inRevisions _⟩
  | remove repoId commit dryRun =>
      rw [show path = _ from touches]
      exact Or.inr ⟨_, inRevisions _⟩

/-- Another repository is apart from what is touched. -/
theorem Touches.apart_repository
    {otherType : RepositoryType}
    {otherNamespace otherName : String}
    {path : List String}
    (touches : operation.Touches setting repoType namespaceName name path)
    (different : (otherType, otherNamespace, otherName) ≠
      (repoType, namespaceName, name)) :
    ¬path <+: setting.repositoryPath otherType otherNamespace otherName ∧
      ¬setting.repositoryPath otherType otherNamespace otherName <+:
        path := by
  rcases touches.cases with inside | ⟨below, rfl⟩
  · have apart := @apart_of_tmp setting otherType otherNamespace otherName _ [] inside
    rwa [List.append_nil] at apart
  · exact apart_of_repositories different

/-- Another commit of the repository is apart from what is touched. -/
theorem Touches.apart_commit
    {other : String}
    {path : List String}
    (touches : operation.Touches setting repoType namespaceName name path)
    (valid : validateRevision other = .ok ())
    (different : other ≠ operation.commit) :
    ¬path <+: setting.revisionsPath repoType namespaceName name ++ [other] ∧
      ¬setting.revisionsPath repoType namespaceName name ++ [other] <+:
        path := by
  have dotless := first_of_validateRevision valid
  have beside : ∀ file, file ≠ other →
      ¬setting.revisionsPath repoType namespaceName name ++ [file] <+:
          setting.revisionsPath repoType namespaceName name ++ [other] ∧
        ¬setting.revisionsPath repoType namespaceName name ++ [other] <+:
          setting.revisionsPath repoType namespaceName name ++ [file] :=
    fun file unlike => ⟨apart_of_ne unlike, apart_of_ne unlike.symm⟩
  have staged : setting.tmp <+: path →
      ¬path <+: setting.revisionsPath repoType namespaceName name ++
          [other] ∧
        ¬setting.revisionsPath repoType namespaceName name ++ [other] <+:
          path := by
    intro inside
    have apart := @apart_of_tmp setting repoType namespaceName name _
      ["revisions", other] inside
    simpa [Setting.revisionsPath] using apart
  cases operation with
  | publish request =>
      rcases touches with inside | rfl
      · exact staged inside
      · exact beside _ different.symm
  | publishFromDirectory request =>
      rcases touches with inside | rfl
      · exact staged inside
      · exact beside _ different.symm
  | extend request =>
      rcases touches with inside | ⟨file, rfl, same | same | ⟨_, same⟩⟩
      · exact staged inside
      · exact beside _ (by rw [same]; exact different.symm)
      · refine beside _ fun collides => dotless ?_
        rw [← collides, same]
        exact dot_mem_lockFile _
      · refine beside _ fun collides => dotless ?_
        rw [← collides, same]
        exact dot_mem_manifestPart ..
  | updateRef repoId reference commit =>
      obtain ⟨file, rfl, _⟩ := touches
      exact apart_of_refs file other
  | recordUpstreamFiles repoId commit files =>
      obtain ⟨file, rfl, same | ⟨_, same⟩⟩ := touches
      · exact beside _ (by rw [same]; exact different.symm)
      · refine beside _ fun collides => dotless ?_
        rw [← collides, same]
        exact dot_mem_recordPart ..
  | remove repoId commit dryRun =>
      rw [show path = _ from touches]
      exact beside _ different.symm

end Operation

/-! ## Isolation -/

/-- What a repository stores under a name. -/
inductive Slot
  | revision (commit : String)
  | ref (reference : String)
  deriving DecidableEq

/-- The name is accepted. -/
def Slot.Accepted : Slot → Prop
  | .revision commit => validateRevision commit = .ok ()
  | .ref reference => validateComponent reference = .ok ()

/-- Where it is stored. -/
def Setting.slotPath (setting : Setting) (repoType : RepositoryType)
    (namespaceName name : String) : Slot → List String
  | .revision commit =>
      setting.revisionsPath repoType namespaceName name ++ [commit]
  | .ref reference =>
      setting.refsPath repoType namespaceName name ++ [reference]

theorem slotPath_eq_append (slot : Slot) :
    ∃ below, setting.slotPath repoType namespaceName name slot =
      setting.repositoryPath repoType namespaceName name ++ below := by
  cases slot with
  | revision commit =>
      exact ⟨["revisions", commit],
        by simp [Setting.slotPath, Setting.revisionsPath]⟩
  | ref reference =>
      exact ⟨["refs", reference],
        by simp [Setting.slotPath, Setting.refsPath]⟩

/-- In one repository nothing is stored in the place of another thing, or
below it. -/
theorem apart_of_slots
    {slot other : Slot}
    (different : slot ≠ other) :
    ¬setting.slotPath repoType namespaceName name slot <+:
      setting.slotPath repoType namespaceName name other := by
  cases slot with
  | revision commit =>
      cases other with
      | revision otherCommit =>
          exact apart_of_ne fun same => different (by rw [same])
      | ref reference => exact (apart_of_refs reference commit).2
  | ref reference =>
      cases other with
      | revision commit => exact (apart_of_refs reference commit).1
      | ref otherReference =>
          exact apart_of_ne fun same => different (by rw [same])

theorem repoId_injective
    {repoId otherId : String}
    (ids : validateRepoId repoId = .ok (namespaceName, name))
    (otherIds : validateRepoId otherId = .ok (namespaceName, name)) :
    repoId = otherId := by
  have parts : ∀ {value : String},
      validateRepoId value = .ok (namespaceName, name) →
        splitPath value = [namespaceName, name] := by
    intro value accepted
    unfold validateRepoId at accepted
    split at accepted
    · next first second split =>
        split at accepted
        · cases accepted
        · obtain ⟨_, _, accepted⟩ := bind_eq_ok.mp accepted
          obtain ⟨_, _, accepted⟩ := bind_eq_ok.mp accepted
          cases accepted
          exact split
    · cases accepted
  exact splitPath_injective ((parts ids).trans (parts otherIds).symm)

theorem legalNames_of_validateRepoId
    {repoId : String}
    (ids : validateRepoId repoId = .ok (namespaceName, name)) :
    LegalName namespaceName ∧ LegalName name := by
  unfold validateRepoId at ids
  split at ids
  · split at ids
    · cases ids
    · obtain ⟨_, validFirst, ids⟩ := bind_eq_ok.mp ids
      obtain ⟨_, validSecond, ids⟩ := bind_eq_ok.mp ids
      cases ids
      exact ⟨legalName_of_validateComponent validFirst,
        legalName_of_validateComponent validSecond⟩
  · cases ids

/-- Different things are stored apart. -/
theorem apart_of_places
    {otherType : RepositoryType}
    {repoId otherId otherNamespace otherName : String}
    {slot other : Slot}
    (ids : validateRepoId repoId = .ok (namespaceName, name))
    (otherIds : validateRepoId otherId = .ok (otherNamespace, otherName))
    (different : (repoType, repoId, slot) ≠ (otherType, otherId, other)) :
    ¬setting.slotPath repoType namespaceName name slot <+:
      setting.slotPath otherType otherNamespace otherName other := by
  by_cases same : (otherType, otherNamespace, otherName) =
      (repoType, namespaceName, name)
  · cases same
    cases repoId_injective ids otherIds
    exact apart_of_slots fun alike => different (by rw [alike])
  · obtain ⟨below, leads⟩ := @slotPath_eq_append setting repoType
      namespaceName name slot
    obtain ⟨otherBelow, otherLeads⟩ := @slotPath_eq_append setting otherType
      otherNamespace otherName other
    rw [leads, otherLeads]
    intro up
    have inside := (List.prefix_append
      (setting.repositoryPath repoType namespaceName name) below).trans up
    rcases List.prefix_or_prefix_of_prefix inside
        (List.prefix_append _ otherBelow) with first | second
    · have apart := @apart_of_repositories setting _ _ _ _ _ _ [] same
      rw [List.append_nil] at apart
      exact apart.1 first
    · have apart := @apart_of_repositories setting _ _ _ _ _ _ [] same
      rw [List.append_nil] at apart
      exact apart.2 second

section sample

/-- Where the manifest of the other repository is. -/
def otherManifest : List String :=
  ["archive", "models", "org", "two", "revisions", "b",
    ".modelkeep-manifest.json"]

/-- The name of the manifest in a staging directory. -/
def stagedManifest : List String :=
  ["archive", "tmp", "stage", ".modelkeep-manifest.json"]

/-- A staging directory with one file, and another repository. -/
def stagedFiles : FileTree Bytes :=
  let made := do
    let tree ← FileTree.empty.makeDirectories
      ["archive", "models", "org", "one", "revisions"]
    let tree ← tree.makeDirectories
      ["archive", "models", "org", "two", "revisions", "b"]
    let tree ← tree.createFile otherManifest (text "two")
    let tree ← tree.makeDirectories ["archive", "tmp", "stage"]
    tree.createFile ["archive", "tmp", "stage", "x"] [1]
  made.getD default

/-- In the staging directory the name of the manifest is a link to the manifest
of the other repository. -/
def linkedVolume : Volume where
  tree := stagedFiles.insert stagedManifest
    (.link (some otherManifest)) (by decide) (by decide +kernel)
    (by decide +kernel) (by decide +kernel)
  entry := fun _ => true
  data := fun _ => true

def sampleSetting : Setting where
  root := ["archive"]
  processId := 1
  sha256 := fun _ => "00"
  manifests := Disk.linkedCodec
  records := ⟨fun _ => .ok [], fun _ => .error "expected value"⟩

theorem link_of_linkedVolume
    {path : List String}
    {target : Option (List String)}
    (stands : linkedVolume.tree.lookup path = some (.link target)) :
    path = stagedManifest := by
  by_contra different
  have old : stagedFiles.lookup path = some (.link target) := by
    rw [← stands]
    unfold linkedVolume
    rw [FileTree.lookup_insert_of_ne _ _ _ _ _ _ _ different]
  have plain : ∀ other ∈ stagedFiles.paths,
      stagedFiles.isDirectory other = true ∨
        stagedFiles.isFile other = true := by decide +kernel
  have member : path ∈ stagedFiles.paths := by
    rw [FileTree.mem_paths_iff]
    refine ⟨?_, by rw [old]; rfl⟩
    rintro rfl
    cases old
  rcases plain path member with directory | file
  · rw [FileTree.isDirectory_iff, old] at directory
    cases directory
  · rw [FileTree.isFile_iff, old] at file
    obtain ⟨_, ⟨⟩⟩ := file

theorem linkedVolume_upright :
    sampleSetting.Upright linkedVolume.tree := by
  intro repoType repoId namespaceName name ids
  obtain ⟨first, second⟩ := legalNames_of_validateRepoId ids
  have apart : ∀ above, above <+:
      sampleSetting.revisionsPath repoType namespaceName name →
      above ≠ stagedManifest := by
    rintro above onTheWay rfl
    have inside : sampleSetting.tmp <+: stagedManifest :=
      ⟨["stage", ".modelkeep-manifest.json"], rfl⟩
    have clash := (@apart_of_tmp sampleSetting repoType namespaceName name _
      ["revisions"] inside).1
    exact clash onTheWay
  refine ⟨⟨?_, ?_⟩, ?_⟩
  · intro component member
    have legal : LegalName "archive" ∧
        LegalName repoType.archiveDirectory ∧ LegalName "revisions" := by
      cases repoType <;> decide +kernel
    simp only [Setting.revisionsPath, Setting.repositoryPath, sampleSetting,
      List.mem_append, List.mem_cons, List.not_mem_nil, or_false] at member
    rcases member with (rfl | rfl | rfl | rfl) | rfl
    · exact legal.1
    · exact legal.2.1
    · exact first
    · exact second
    · exact legal.2.2
  · intro above onTheWay _ target stands
    exact apart above onTheWay (link_of_linkedVolume stands)
  · intro target stands
    exact apart _ List.prefix_rfl (link_of_linkedVolume stands)

/-- A publication from memory in the first repository. -/
def plainPublication : Operation :=
  .publish ⟨"org/one", "main", "a", [⟨"x", [1]⟩]⟩

/-- The publication of the staging directory in the first repository. -/
def linkedPublication : Operation :=
  .publishFromDirectory {
    repoId := "org/one"
    requestedRevision := "main"
    commit := "a"
    sourceRoot := ["archive", "tmp", "stage"]
    files := [⟨"x", ["archive", "tmp", "stage", "x"]⟩] }

end sample

end FileSystem
end ModelKeep
