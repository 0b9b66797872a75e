import ModelKeep.Disk.Reading

/-!
# The self-check

At every start the archive is walked for what it can tell about itself: the
manifests, the metadata of what they list, and the refs.  A finding is kept
without its text, and the staging area, whose findings name no revision, is
left out.
-/

namespace ModelKeep

/-- `SelfCheckFindingKind`. -/
inductive FindingKind
  | invalidManifest
  | missingFile
  | sizeMismatch
  | unsafePath
  | danglingRef
  | unreadableArchive
  deriving DecidableEq

/-- `SelfCheckFinding`, and where it was found. -/
structure Finding where
  kind : FindingKind
  repoType : RepositoryType
  repoId : String
  commit : Option String := none
  path : Option String := none
  reference : Option String := none
  deriving DecidableEq

/-- `SelfCheckReport`. -/
structure SelfCheckReport where
  repositoriesChecked : Nat := 0
  revisionsChecked : Nat := 0
  filesChecked : Nat := 0
  refsChecked : Nat := 0
  filteredInternalPaths : Nat := 0
  findings : List Finding := []
  deriving DecidableEq

namespace SelfCheckReport

/-- What a later part of the walk adds. -/
def append (first second : SelfCheckReport) : SelfCheckReport where
  repositoriesChecked := first.repositoriesChecked + second.repositoriesChecked
  revisionsChecked := first.revisionsChecked + second.revisionsChecked
  filesChecked := first.filesChecked + second.filesChecked
  refsChecked := first.refsChecked + second.refsChecked
  filteredInternalPaths :=
    first.filteredInternalPaths + second.filteredInternalPaths
  findings := first.findings ++ second.findings

instance : Append SelfCheckReport := ⟨append⟩

/-- A report of one finding. -/
def found (finding : Finding) : SelfCheckReport := { findings := [finding] }

/-- The report of a loop. -/
def collect {α : Type} (items : List α) (part : α → SelfCheckReport) :
    SelfCheckReport :=
  items.foldr (fun item later => part item ++ later) {}

@[simp] theorem findings_append (first second : SelfCheckReport) :
    (first ++ second).findings = first.findings ++ second.findings := rfl

@[simp] theorem findings_found (finding : Finding) :
    (found finding).findings = [finding] := rfl

theorem mem_collect
    {α : Type}
    {items : List α}
    {part : α → SelfCheckReport}
    {finding : Finding} :
    finding ∈ (collect items part).findings ↔
      ∃ item ∈ items, finding ∈ (part item).findings := by
  induction items with
  | nil => simp [collect]
  | cons item rest inductionHypothesis =>
      unfold collect at inductionHypothesis ⊢
      simp [inductionHypothesis]

end SelfCheckReport

namespace Disk

open SelfCheckReport

variable (disk : Disk) (codec : ManifestCodec)

/-! ## One revision -/

/-- Whether a link leaves the revision. -/
def escapes (revisionRoot : Except ArchiveError (List String))
    (candidate : List String) : Bool :=
  match revisionRoot, disk.canonicalize candidate with
  | .ok root, .ok target => ¬root <+: target
  | _, _ => true

/-- What is found about the size of a listed file. -/
def selfCheckSize (candidate : List String) (entry : ManifestFile)
    (finding : Finding) : SelfCheckReport :=
  match disk.metadata candidate with
  | .ok (.file content) =>
      if content.length ≠ entry.size then
        found { finding with kind := .sizeMismatch }
      else
        {}
  | _ => found { finding with kind := .missingFile }

/-- What is found about a listed path in safe syntax. -/
def selfCheckPath (revision : List String) (entry : ManifestFile)
    (finding : Finding) : SelfCheckReport :=
  let candidate := revision ++ splitPath entry.path
  match disk.symlinkMetadata candidate with
  | .error (.io .notFound) => found { finding with kind := .missingFile }
  | .error _ => found { finding with kind := .unreadableArchive }
  | .ok (.link _) =>
      if disk.escapes (disk.canonicalize revision) candidate then
        found { finding with kind := .unsafePath }
      else
        disk.selfCheckSize candidate entry finding
  | .ok _ => disk.selfCheckSize candidate entry finding

/-- What is found about an entry of a manifest. -/
def selfCheckEntry (revision : List String) (finding : Finding)
    (entry : ManifestFile) : SelfCheckReport :=
  { filesChecked := 1 } ++
    match validateRelativeFilePath entry.path with
    | .error _ =>
        if isInternalArchivePath entry.path then
          { filteredInternalPaths := 1 }
        else
          found { finding with kind := .unsafePath }
    | .ok () =>
        disk.selfCheckPath revision entry
          { finding with path := some entry.path }

/-- The manifest, if the self-check accepts it. -/
def acceptedManifest (repoType : RepositoryType) (revision : List String) :
    Option Manifest :=
  match disk.read (manifestFile revision) with
  | .error _ => none
  | .ok bytes =>
      match codec.fromSlice bytes with
      | .error _ => none
      | .ok manifest =>
          if manifest.repoType ≠ repoType then none
          else if manifest.complete = false then none
          else some manifest

/-- `self_check_revision`, with whether a ref may resolve to the revision. -/
def selfCheckRevision (repoType : RepositoryType)
    (repoId commit : String) (revision : List String) :
    SelfCheckReport × Bool :=
  let finding : Finding :=
    { kind := .invalidManifest, repoType, repoId, commit := some commit }
  match disk.acceptedManifest codec repoType revision with
  | none => (found finding, false)
  | some manifest =>
      (collect manifest.files (disk.selfCheckEntry revision finding), true)

/-- `self_check_revisions`. -/
def selfCheckRevisions (repoType : RepositoryType) (repoId : String)
    (revisions : List String) : SelfCheckReport :=
  if disk.isDir revisions then
    collect (disk.directories revisions) fun commit =>
      match validateRevision commit with
      | .error _ =>
          found { kind := .unsafePath, repoType, repoId, commit := some commit }
      | .ok () =>
          { revisionsChecked := 1 } ++ (disk.selfCheckRevision codec repoType
            repoId commit (revisions ++ [commit])).1
  else
    {}

/-- The commits a ref may resolve to. -/
def servable (repoType : RepositoryType) (repoId : String)
    (revisions : List String) : List String :=
  if disk.isDir revisions then
    (disk.directories revisions).filter fun commit =>
      match validateRevision commit with
      | .error _ => false
      | .ok () => (disk.selfCheckRevision codec repoType repoId commit
          (revisions ++ [commit])).2
  else
    []

/-! ## The refs -/

/-- What is found about a ref. -/
def selfCheckRef (repoType : RepositoryType) (repoId : String)
    (refs : List String) (servable : List String) (reference : String) :
    SelfCheckReport :=
  if startsWith reference "." then
    {}
  else
    let finding : Finding :=
      { kind := .danglingRef, repoType, repoId, reference := some reference }
    { refsChecked := 1 } ++
      match validateComponent reference with
      | .error _ => found { finding with kind := .unsafePath }
      | .ok () =>
          match disk.readToString (refs ++ [reference]) with
          | .error _ => found finding
          | .ok text =>
              match validateRevision (Archive.trim text) with
              | .error _ => found finding
              | .ok () =>
                  if Archive.trim text ∈ servable then {}
                  else found { finding with commit := some (Archive.trim text) }

/-- `self_check_refs`. -/
def selfCheckRefs (repoType : RepositoryType) (repoId : String)
    (refs : List String) (servable : List String) : SelfCheckReport :=
  if disk.isDir refs then
    collect (disk.files refs)
      (disk.selfCheckRef repoType repoId refs servable)
  else
    {}

/-! ## The whole archive -/

/-- What is found below a repository. -/
def selfCheckRepository (repoType : RepositoryType)
    (namespaceName : String) (namespacePath : List String)
    (repositoryName : String) : SelfCheckReport :=
  let repoId := namespaceName ++ "/" ++ repositoryName
  let repository := namespacePath ++ [repositoryName]
  match validateRepoId repoId with
  | .error _ => found { kind := .unsafePath, repoType, repoId }
  | .ok _ =>
      { repositoriesChecked := 1 } ++
        disk.selfCheckRevisions codec repoType repoId
          (repository ++ ["revisions"]) ++
        disk.selfCheckRefs repoType repoId (repository ++ ["refs"])
          (disk.servable codec repoType repoId (repository ++ ["revisions"]))

/-- `self_check_repository_type`. -/
def selfCheckRepositoryType (repoType : RepositoryType) : SelfCheckReport :=
  let root := disk.root ++ [repoType.archiveDirectory]
  if disk.isDir root then
    collect (disk.directories root) fun namespaceName =>
      match validateComponent namespaceName with
      | .error _ =>
          found { kind := .unsafePath, repoType, repoId := namespaceName }
      | .ok () =>
          collect (disk.directories (root ++ [namespaceName]))
            (disk.selfCheckRepository codec repoType namespaceName
              (root ++ [namespaceName]))
  else
    {}

/-- `self_check`, without the staging area. -/
def selfCheck : SelfCheckReport :=
  collect [RepositoryType.model, .dataset]
    (disk.selfCheckRepositoryType codec)

end Disk
end ModelKeep
