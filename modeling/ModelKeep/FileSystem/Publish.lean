import ModelKeep.FileSystem.Steps
import ModelKeep.Publishing.Build

/-!
# Publishing, call by call

A publication fills a staging directory, or takes the one its sources are in,
and renames it into place.  Until then everything happens below `tmp`.
-/

namespace ModelKeep
namespace FileSystem

open Concurrency Program

structure ArchiveFile where
  path : String
  bytes : Bytes

structure PublishRequest where
  repoId : String
  requestedRevision : String
  commit : String
  files : List ArchiveFile

/-- A file to archive, and where it is. -/
structure SourceFile where
  path : String
  source : List String

structure SourcePublishRequest where
  repoId : String
  requestedRevision : String
  commit : String
  sourceRoot : List String
  files : List SourceFile

namespace Setting

variable (setting : Setting)

/-! ## Copying and hashing -/

/-- The directory above a path below another: `base.join(relative).parent()`. -/
def parentOf (base : List String) (path : String) : List String :=
  (base ++ plainComponents path).dropLast

/-- What a loop has read of a file, unless it failed. -/
def wholeContent (chunks : List Bytes) :
    Option IoErrorKind → Except ArchiveError Bytes
  | none => .ok chunks.flatten
  | some kind => .error (.io kind)

/-- The size and the digest of a file that is read to its end. -/
def hashFile (path : String) (source : List String) :
    Action ManifestFile := do
  look (.openFile source)
  let (chunks, failure) ← look (.readChunks source)
  let content ← check (wholeContent chunks failure)
  return ⟨path, content.length, setting.sha256 content⟩

/-- Copy a file to a new one, and hash it on the way. -/
def copyFile (path : String) (source destination : List String) :
    Action ManifestFile := do
  look (.openFile source)
  change (.createNew destination)
  let (chunks, failure) ← look (.readChunks source)
  appendAll destination chunks
  let content ← check (wholeContent chunks failure)
  change (.syncAll destination)
  return ⟨path, content.length, setting.sha256 content⟩

/-- The manifest of a staging directory, and the flush of both. -/
def writeStagingManifest (staging : List String)
    (repoType : RepositoryType)
    (repoId requestedRevision commit : String)
    (entries : List ManifestFile) : Action Unit := do
  let manifest := staging ++ [manifestName]
  change (.create manifest)
  writeManifest manifest repoType repoId requestedRevision commit entries
  change (.syncAll manifest)
  change (.syncDirectory staging)

/-! ## `write_revision` -/

/-- One file of a publication from memory. -/
def writeFile (staging : List String) (file : ArchiveFile) :
    Action ManifestFile := do
  check (validateRelativeFilePath file.path)
  let destination := staging ++ splitPath file.path
  createDirAll (parentOf staging file.path)
  change (.createNew destination)
  change (.append destination file.bytes)
  change (.syncAll destination)
  return ⟨file.path, file.bytes.length, setting.sha256 file.bytes⟩

/-- A loop over requested files that collects the entries of a manifest. -/
def collectEntries {File : Type} (step : File → Action ManifestFile) :
    List File → Action (List ManifestFile)
  | [] => check (.ok [])
  | file :: rest => do
      let entry ← step file
      let entries ← collectEntries step rest
      return entry :: entries

def writeRevision (staging : List String) (repoType : RepositoryType)
    (request : PublishRequest) : Action Unit := do
  let entries ← collectEntries (setting.writeFile staging) request.files
  writeStagingManifest staging repoType request.repoId
    request.requestedRevision request.commit entries

/-! ## `write_source_revision` -/

/-- One file of a publication that copies. -/
def writeSourceFile (staging sourceRoot : List String)
    (file : SourceFile) : Action ManifestFile := do
  check (validateRelativeFilePath file.path)
  let source ← look (.canonicalize file.source)
  if ¬sourceRoot <+: source then
    check (.error (.invalidPath file.path))
  else if ¬(← always (isFile source)) then
    check (.error (.invalidPath file.path))
  else do
    createDirAll (parentOf staging file.path)
    setting.copyFile file.path source (staging ++ splitPath file.path)

def writeSourceRevision (staging sourceRoot : List String)
    (repoType : RepositoryType) (request : SourcePublishRequest) :
    Action Unit := do
  let entries ← collectEntries (setting.writeSourceFile staging sourceRoot)
    request.files
  writeStagingManifest staging repoType request.repoId
    request.requestedRevision request.commit entries

/-! ## `write_source_manifest` -/

/-- One file of a publication in place. -/
def hashSourceFile (staging sourceRoot : List String)
    (file : SourceFile) : Action ManifestFile := do
  match ← look (.symlinkMetadata file.source) with
  | .file _ => do
      let source ← look (.canonicalize file.source)
      let archived ← look (.canonicalize (staging ++ splitPath file.path))
      if ¬sourceRoot <+: source ∨ source ≠ archived then
        check (.error (.invalidPath file.path))
      else
        setting.hashFile file.path source
  | _ => check (.error (.invalidPath file.path))

/-- The loop over the requested files, with the paths that came before. -/
def sourceEntries (staging sourceRoot : List String) :
    List SourceFile → List String → Action (List ManifestFile)
  | [], _ => check (.ok [])
  | file :: rest, archived => do
      check (validateRelativeFilePath file.path)
      if file.path ∈ archived then
        check (.error (.integrityMismatch
          ("duplicate archive path: " ++ file.path)))
      else do
        let entry ← setting.hashSourceFile staging sourceRoot file
        let entries ← sourceEntries staging sourceRoot rest
          (file.path :: archived)
        return entry :: entries

/-- A loop over the entries of a directory. -/
def eachEntry (visit : String → Action Unit) : List String → Action Unit
  | [] => check (.ok ())
  | name :: rest => do
      visit name
      eachEntry visit rest

/-- What is done about one entry of a staging directory; `descend` goes through
a directory. -/
def removeUnlistedEntry (archived : List String) (root : List String)
    (descend : List String → Action Unit) (path : List String) :
    Action Unit :=
  let relative := path.drop root.length
  if relative = Publishing.leasePlace ∨
      relative = manifestPlace then
    check (.ok ())
  else do
    match ← look (.symlinkMetadata path) with
    | .directory => do
        descend path
        let names ← look (.readDir path)
        if names = [] then change (.removeDir path) else check (.ok ())
    | .file _ =>
        if joinPath relative ∈ archived then
          check (.ok ())
        else
          change (.removeFile path)
    | .link _ => change (.removeFile path)

/-- `remove_unlisted_staging_entries`.  A path has a greatest length, so there
is a level below which no directory can be read. -/
def removeUnlisted (archived : List String) (root : List String) :
    Nat → List String → Action Unit
  | 0, _ => check (.error (.io .other))
  | levels + 1, directory => do
      let names ← look (.readDir directory)
      eachEntry (fun name => removeUnlistedEntry archived root
        (removeUnlisted archived root levels) (directory ++ [name])) names

/-- The greatest length of a path. -/
def pathMax : Nat := 4096

def writeSourceManifest (staging sourceRoot : List String)
    (repoType : RepositoryType) (request : SourcePublishRequest) :
    Action Unit := do
  let entries ← setting.sourceEntries staging sourceRoot request.files []
  removeUnlisted (entries.map ManifestFile.path) staging pathMax staging
  writeStagingManifest staging repoType request.repoId
    request.requestedRevision request.commit entries

/-! ## The publications -/

/-- The rename of a filled staging directory, and what its failure is
called. -/
def renameStaging (revisions staging : List String) (commit : String) :
    Action (List String) := do
  removeStagingLease staging
  match ← always (attemptTo (.rename staging (revisions ++ [commit]))) with
  | .ok () => do
      change (.syncDirectory revisions)
      return revisions ++ [commit]
  | .error kind => do
      attemptAnyway (.removeDirAll staging)
      if ← always (existsPath (revisions ++ [commit])) then
        check (.error (.alreadyPublished commit))
      else
        check (.error (.io kind))

/-- Fill a staging directory and rename it into place. -/
def publishStaging (revisions staging : List String) (commit : String)
    (write : Action Unit) : Action (List String) := do
  match ← always write.run with
  | .ok () => renameStaging revisions staging commit
  | .error error => do
      attemptAnyway (.removeDirAll staging)
      check (.error error)

/-- `publish_revision_for_type`. -/
def publishRevision (repoType : RepositoryType) (request : PublishRequest) :
    Action (List String) := do
  let (namespaceName, name) ← check (validateRepoId request.repoId)
  check (validateComponent request.requestedRevision)
  check (validateRevision request.commit)
  if request.files.isEmpty then
    check (.error (.invalidPath "revision has no files"))
  else do
    let revisions := setting.revisionsPath repoType namespaceName name
    createDirAll revisions
    if ← always (existsPath (revisions ++ [request.commit])) then
      check (.error (.alreadyPublished request.commit))
    else do
      let staging ← setting.createStaging "revision"
      publishStaging revisions staging request.commit
        (setting.writeRevision staging repoType request)

/-- `publish_revision_from_directory_with_progress_for_type`. -/
def publishRevisionFromDirectory (repoType : RepositoryType)
    (request : SourcePublishRequest) : Action (List String) := do
  let (namespaceName, name) ← check (validateRepoId request.repoId)
  check (validateComponent request.requestedRevision)
  check (validateRevision request.commit)
  if request.files.isEmpty then
    check (.error (.invalidPath "revision has no files"))
  else do
    let sourceRoot ← look (.canonicalize request.sourceRoot)
    if ¬(← always (isDir sourceRoot)) then
      check (.error (.invalidPath (joinPath request.sourceRoot)))
    else do
      let revisions := setting.revisionsPath repoType namespaceName name
      createDirAll revisions
      if ← always (existsPath (revisions ++ [request.commit])) then
        check (.error (.alreadyPublished request.commit))
      else do
        let archiveTmp ← look (.canonicalize (setting.root ++ ["tmp"]))
        if archiveTmp <+: sourceRoot then
          publishStaging revisions sourceRoot request.commit
            (setting.writeSourceManifest sourceRoot sourceRoot repoType
              request)
        else do
          let staging ← setting.createStaging "revision"
          publishStaging revisions staging request.commit
            (setting.writeSourceRevision staging sourceRoot repoType request)

end Setting
end FileSystem
end ModelKeep
