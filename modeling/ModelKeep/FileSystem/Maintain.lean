import ModelKeep.FileSystem.Publish

/-!
# Extensions, refs, records and removals, call by call

What works on a repository that has published revisions.  Temporary files and
the lock of an extension lie beside what they are for, under names that no
commit has.
-/

namespace ModelKeep
namespace FileSystem

open Concurrency Program

/-- Request to add absent files to a published revision. -/
structure ExtensionRequest where
  repoId : String
  commit : String
  sourceRoot : List String
  files : List SourceFile

/-- The request by its paths. -/
def ExtensionRequest.named (request : ExtensionRequest) :
    RevisionExtensionRequest :=
  ⟨request.repoId, request.commit, request.files.map SourceFile.path⟩

structure RevisionRemoval where
  commit : String
  references : List String
  removed : Bool

namespace Setting

variable (setting : Setting)

/-- Run a body, and on failure remove the temporary file it was to move. -/
def withTemporary {α : Type} (temporary : List String) (body : Action α) :
    Action α := do
  match ← always body.run with
  | .ok value => check (.ok value)
  | .error error => do
      attemptAnyway (.removeFile temporary)
      check (.error error)

/-- `fs::read_to_string`. -/
def readToString (path : List String) : Action String := do
  let bytes ← look (.read path)
  match String.fromUTF8? ⟨bytes.toArray⟩ with
  | some text => return text
  | none => check (.error (.io .other))

/-! ## `update_ref` -/

/-- The temporary file of an update of a ref. -/
def refPart (reference : String) (operation : OperationId) : String :=
  "." ++ reference ++ "." ++ operation.text ++ ".part"

/-- `update_ref_for_type`. -/
def updateRef (repoType : RepositoryType)
    (repoId reference commit : String) : Action Unit := do
  let (namespaceName, name) ← check (validateRepoId repoId)
  check (validateComponent reference)
  check (validateRevision commit)
  if ¬(← always (isDir
      (setting.revisionsPath repoType namespaceName name ++ [commit]))) then
    check (.error (.io .notFound))
  else do
    let refs := setting.repositoryPath repoType namespaceName name ++ ["refs"]
    createDirAll refs
    let operation ← always operationId
    let temporary := refs ++ [refPart reference operation]
    withTemporary temporary do
      change (.createNew temporary)
      change (.append temporary (text commit))
      change (.syncAll temporary)
      change (.rename temporary (refs ++ [reference]))
      change (.syncDirectory refs)

/-! ## `record_upstream_files` -/

def upstreamFilesFile : String := ".modelkeep-upstream-files.json"

/-- The temporary file of a record. -/
def recordPart (commit : String) (operation : OperationId) : String :=
  ".modelkeep-upstream-files-" ++ commit ++ "-" ++ operation.text ++ ".part"

/-- What is recorded of the files that upstream reported. -/
def upstreamRecord (repoType : RepositoryType) (repoId commit : String)
    (files : List UpstreamFile) : UpstreamRecord where
  repoType := repoType
  repoId := repoId
  commit := commit
  files := files.filterMap UpstreamFile.sanitized

/-- `record_upstream_files_for_type`. -/
def recordUpstreamFiles (repoType : RepositoryType)
    (repoId commit : String) (files : List UpstreamFile) :
    Action Bool := do
  let (namespaceName, name) ← check (validateRepoId repoId)
  check (validateRevision commit)
  let revisions := setting.revisionsPath repoType namespaceName name
  let revision := revisions ++ [commit]
  if ¬(← always (isDir revision)) then
    check (.error (.io .notFound))
  else if ← always (existsPath (revision ++ [upstreamFilesFile])) then
    return false
  else do
    let serialized ← check
      ((setting.records.toVec (upstreamRecord repoType repoId commit
        files)).mapError .integrityMismatch)
    let operation ← always operationId
    let temporary := revisions ++ [recordPart commit operation]
    withTemporary temporary do
      change (.createNew temporary)
      change (.append temporary serialized)
      change (.append temporary (text "\n"))
      change (.syncAll temporary)
      change (.rename temporary (revision ++ [upstreamFilesFile]))
      change (.syncDirectory revision)
    return true

/-! ## `remove_revision` -/

/-- The refs that name a commit, of these entries of `refs`. -/
def referencesTo (refs : List String) (commit : String) :
    List String → Action (List String)
  | [] => check (.ok [])
  | name :: rest => do
      match ← look (.symlinkMetadata (refs ++ [name])) with
      | .file _ => do
          let content ← readToString (refs ++ [name])
          let others ← referencesTo refs commit rest
          return if Archive.trim content = commit then name :: others
            else others
      | _ => referencesTo refs commit rest

/-- The refs that name a commit. -/
def referencesOf (refs : List String) (commit : String) :
    Action (List String) := do
  if ← always (isDir refs) then
    let names ← look (.readDir refs)
    let references ← referencesTo refs commit names
    return sortPaths references
  else
    return []

/-- `remove_revision_for_type`. -/
def removeRevision (repoType : RepositoryType) (repoId commit : String)
    (dryRun : Bool) : Action RevisionRemoval := do
  let (namespaceName, name) ← check (validateRepoId repoId)
  check (validateRevision commit)
  let revisions := setting.revisionsPath repoType namespaceName name
  let revision := revisions ++ [commit]
  if ¬(← always (isDir revision)) then
    check (.error (.io .notFound))
  else do
    let references ← referencesOf
      (setting.repositoryPath repoType namespaceName name ++ ["refs"]) commit
    if references ≠ [] then
      check (.error (.referencedRevision references))
    else if dryRun then
      return ⟨commit, references, false⟩
    else do
      change (.removeDirAll revision)
      change (.syncDirectory revisions)
      return ⟨commit, references, true⟩

/-! ## `extend_revision_from_directory` -/

/-- `read_extendable_manifest`, of a revision at this path. -/
def readExtendableManifest (repoType : RepositoryType)
    (request : ExtensionRequest) (revision : List String) :
    Action Manifest := do
  let content ← readToString (revision ++ [manifestName])
  let manifest ← check
    ((setting.manifests.fromStr content).mapError .integrityMismatch)
  check (RevisionDir.ensureManifestType repoType manifest)
  check (Extension.ensureExtendable request.named manifest)

/-- One file of `stage_extension_files`. -/
def stageExtensionFile (staging sourceRoot : List String)
    (file : SourceFile) : Action ManifestFile := do
  check (validateRelativeFilePath file.path)
  match ← look (.symlinkMetadata file.source) with
  | .file _ => do
      let source ← look (.canonicalize file.source)
      if ¬sourceRoot <+: source then
        check (.error (.invalidPath file.path))
      else if ¬(← always (isFile source)) then
        check (.error (.invalidPath file.path))
      else do
        createDirAll (parentOf staging file.path)
        setting.copyFile file.path source (staging ++ splitPath file.path)
  | _ => check (.error (.invalidPath file.path))

/-- What the loop under the lock has done so far. -/
structure Placed where
  added : List ManifestFile
  skipped : List String
  directories : List (List String)

/-- The loop under the lock. -/
def placeStaged (staging revision : List String) (published : List String) :
    List ManifestFile → Placed → Action Placed
  | [], placed => check (.ok placed)
  | file :: rest, placed =>
      if file.path ∈ published then
        placeStaged staging revision published rest
          { placed with skipped := placed.skipped ++ [file.path] }
      else do
        check (validateRelativeFilePath file.path)
        let parent := parentOf revision file.path
        createDirAll parent
        change (.rename (staging ++ splitPath file.path)
          (revision ++ splitPath file.path))
        placeStaged staging revision published rest
          { placed with
            added := placed.added ++ [file]
            directories := placed.directories.insert parent }

/-- Flush each directory that received a file. -/
def syncDirectories : List (List String) → Action Unit
  | [] => check (.ok ())
  | path :: rest => do
      change (.syncDirectory path)
      syncDirectories rest

/-- `lock_revision_extension`. -/
def lockRevisionExtension (revisions : List String) (commit : String) :
    Action Unit := do
  let file := revisions ++ [".modelkeep-extend-" ++ commit ++ ".lock"]
  change (.openOrCreate file)
  look (.lock file)

/-- The temporary file of a replaced manifest. -/
def manifestPart (commit : String) (operation : OperationId) : String :=
  ".modelkeep-manifest-" ++ commit ++ "-" ++ operation.text ++ ".part"

/-- `replace_revision_manifest`. -/
def replaceRevisionManifest (revisions revision : List String)
    (repoType : RepositoryType) (request : ExtensionRequest)
    (manifest : Manifest) (entries : List ManifestFile) : Action Unit := do
  let repoId :=
    if manifest.repoId = "" then request.repoId else manifest.repoId
  let requestedRevision :=
    if manifest.requestedRevision = "" then request.commit
    else manifest.requestedRevision
  let operation ← always operationId
  let temporary := revisions ++ [manifestPart request.commit operation]
  withTemporary temporary do
    change (.createNew temporary)
    writeManifest temporary repoType repoId requestedRevision request.commit
      entries
    change (.syncAll temporary)
    change (.rename temporary (revision ++ [manifestName]))
    change (.syncDirectory revision)
    change (.syncDirectory revisions)

/-- What an extension does with the files it has staged. -/
def extendFromStaging (repoType : RepositoryType)
    (request : ExtensionRequest) (revisions staging : List String)
    (staged : List ManifestFile) (skipped : List String) :
    Action RevisionExtension := do
  let revision := revisions ++ [request.commit]
  lockRevisionExtension revisions request.commit
  let manifest ← setting.readExtendableManifest repoType request revision
  let placed ← placeStaged staging revision manifest.paths staged
    ⟨[], skipped, []⟩
  if placed.added.isEmpty then
    return ⟨request.commit, [], sortPaths placed.skipped⟩
  else do
    syncDirectories (placed.directories.insertionSort (· ≤ ·))
    change (.syncDirectory revision)
    replaceRevisionManifest revisions revision repoType request manifest
      (manifest.files ++ placed.added)
    return ⟨request.commit, sortPaths (placed.added.map ManifestFile.path),
      sortPaths placed.skipped⟩

/-- Run a body, and remove its staging directory afterwards: the
`StagingGuard`. -/
def withStaging {α : Type} (staging : List String) (body : Action α) :
    Action α := do
  let outcome ← always body.run
  attemptAnyway (.removeDirAll staging)
  check outcome

/-- `extend_revision_from_directory_inner`. -/
def extendRevision (repoType : RepositoryType)
    (request : ExtensionRequest) : Action RevisionExtension := do
  let (namespaceName, name) ← check (validateRepoId request.repoId)
  check (validateRevision request.commit)
  let revisions := setting.revisionsPath repoType namespaceName name
  let revision := revisions ++ [request.commit]
  if ¬(← always (isDir revision)) then
    check (.error (.io .notFound))
  else do
    let manifest ← setting.readExtendableManifest repoType request revision
    let sorted ← check (Extension.classify manifest.paths request.named.files
      ⟨[], [], []⟩)
    if sorted.candidates = [] then
      return ⟨request.commit, [], sortPaths sorted.skipped⟩
    else do
      let sourceRoot ← look (.canonicalize request.sourceRoot)
      if ¬(← always (isDir sourceRoot)) then
        check (.error (.invalidPath (joinPath request.sourceRoot)))
      else do
        let staging ← setting.createStaging "extend"
        withStaging staging do
          let staged ← collectEntries
            (setting.stageExtensionFile staging sourceRoot)
            (request.files.filter fun file =>
              decide (file.path ∈ sorted.candidates))
          setting.extendFromStaging repoType request revisions staging staged
            sorted.skipped

end Setting
end FileSystem
end ModelKeep
