import ModelKeep.Archive

/-!
# The archive on disk

The archive as the file system holds it: one tree with directories, files and
links, in which the archive root is some path.  The readers of the archive
build paths and follow them, through links wherever they stand.
-/

namespace ModelKeep

/-- `models` or `datasets`. -/
def RepositoryType.archiveDirectory : RepositoryType → String
  | .model => "models"
  | .dataset => "datasets"

/-- The file system, and where the archive is in it. -/
structure Disk where
  tree : FileTree Bytes
  /-- The path of the archive root. -/
  root : List String
  /-- What the system calls a path that it cannot follow. -/
  refusal : List String → IoErrorKind

/-- The JSON decoder, for manifests: from text, and from bytes that may not be
text. -/
structure ManifestCodec where
  fromStr : String → Except String Manifest
  fromSlice : Bytes → Except String Manifest
  agree : ∀ bytes text, String.fromUTF8? ⟨bytes.toArray⟩ = some text →
    fromSlice bytes = fromStr text

namespace Disk

variable (disk : Disk)

/-! ## Paths -/

/-- `fs::canonicalize`. -/
def canonicalize (path : List String) :
    Except ArchiveError (List String) :=
  match disk.tree.canonicalize path with
  | some place => .ok place
  | none => .error (.io (disk.refusal path))

/-- `fs::symlink_metadata`. -/
def symlinkMetadata (path : List String) :
    Except ArchiveError (FileNode Bytes) :=
  match disk.tree.lstat path with
  | some node => .ok node
  | none => .error (.io (disk.refusal path))

/-- `fs::metadata`. -/
def metadata (path : List String) : Except ArchiveError (FileNode Bytes) :=
  match (disk.tree.canonicalize path).bind disk.tree.lookup with
  | some node => .ok node
  | none => .error (.io (disk.refusal path))

/-- `Path::is_dir`. -/
def isDir (path : List String) : Bool :=
  match disk.metadata path with
  | .ok .directory => true
  | _ => false

/-- `fs::read`. -/
def read (path : List String) : Except ArchiveError Bytes := do
  match ← disk.metadata path with
  | .file content => .ok content
  | _ => .error (.io .isADirectory)

/-- `fs::read_to_string`. -/
def readToString (path : List String) : Except ArchiveError String := do
  let bytes ← disk.read path
  match String.fromUTF8? ⟨bytes.toArray⟩ with
  | some text => .ok text
  | none => .error (.io .other)

/-- The names `fs::read_dir` yields. -/
def readDir (path : List String) : List String :=
  match disk.tree.canonicalize path with
  | some place => FileTree.sortNames (disk.tree.entries place)
  | none => []

/-- The entries of a directory that are directories themselves. -/
def directories (path : List String) : List String :=
  (disk.readDir path).filter fun name =>
    match disk.symlinkMetadata (path ++ [name]) with
    | .ok .directory => true
    | _ => false

/-- The entries of a directory that are regular files. -/
def files (path : List String) : List String :=
  (disk.readDir path).filter fun name =>
    match disk.symlinkMetadata (path ++ [name]) with
    | .ok (.file _) => true
    | _ => false

/-! ## The readers -/

/-- The path of a repository. -/
def repositoryPath (repoType : RepositoryType) (repoId : String) :
    Except ArchiveError (List String) := do
  let (namespaceName, name) ← validateRepoId repoId
  return disk.root ++ [repoType.archiveDirectory, namespaceName, name]

/-- `revision_path_for_type`. -/
def revisionPath (repoType : RepositoryType) (repoId commit : String) :
    Except ArchiveError (List String) := do
  let repository ← disk.repositoryPath repoType repoId
  validateRevision commit
  return repository ++ ["revisions", commit]

/-- `resolve_ref_for_type`. -/
def resolveRef (repoType : RepositoryType) (repoId reference : String) :
    Except ArchiveError String := do
  let repository ← disk.repositoryPath repoType repoId
  validateComponent reference
  let text ← disk.readToString (repository ++ ["refs", reference])
  validateRevision (Archive.trim text)
  return Archive.trim text

/-- `.modelkeep-manifest.json`, in a revision. -/
def manifestFile (revision : List String) : List String :=
  revision ++ [".modelkeep-manifest.json"]

/-- `manifest_for_type`. -/
def manifest (repoType : RepositoryType) (repoId commit : String) :
    Except ArchiveError String := do
  let revision ← disk.revisionPath repoType repoId commit
  disk.readToString (manifestFile revision)

variable (codec : ManifestCodec)

/-- `read_manifest_for`. -/
def readManifestFor (repoType : RepositoryType) (repoId commit : String) :
    Except ArchiveError Manifest := do
  let text ← disk.manifest repoType repoId commit
  match codec.fromStr text with
  | .error message => .error (.integrityMismatch message)
  | .ok manifest => do
      RevisionDir.ensureManifestType repoType manifest
      return manifest

/-- `is_complete_revision_for_type`. -/
def isCompleteRevision (repoType : RepositoryType)
    (repoId commit : String) : Except ArchiveError Bool := do
  let manifest ← disk.readManifestFor codec repoType repoId commit
  return manifest.complete

/-- What is served for an entry, once its path was followed. -/
def serveCandidate (revisionRoot candidate : List String)
    (entry : ManifestFile) : Except ArchiveError ResolvedFile :=
  match disk.metadata candidate with
  | .ok (.file content) =>
      if revisionRoot <+: candidate then
        .ok ⟨candidate, content.length, entry.sha256⟩
      else
        .error (.io .notFound)
  | _ => .error (.io .notFound)

/-- `resolve_file_for_type`. -/
def resolveFile (repoType : RepositoryType)
    (repoId commit relativePath : String) :
    Except ArchiveError ResolvedFile := do
  validateRelativeFilePath relativePath
  let revision ← disk.revisionPath repoType repoId commit
  let manifest ← disk.readManifestFor codec repoType repoId commit
  if manifest.complete = false then
    .error (.integrityMismatch "revision is not complete")
  else
    match manifest.files.find? (·.path = relativePath) with
    | none => .error (.io .notFound)
    | some entry => do
        let revisionRoot ← disk.canonicalize revision
        let candidate ←
          disk.canonicalize (revision ++ splitPath relativePath)
        disk.serveCandidate revisionRoot candidate entry

end Disk
end ModelKeep
