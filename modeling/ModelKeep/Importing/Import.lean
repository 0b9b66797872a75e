import ModelKeep.Disk.Reading
import ModelKeep.FileSystem.Publish
import ModelKeep.Operations.Store

/-!
# Importing a client cache

The import goes through a cache in the order of its directories, copies every
snapshot that is not archived yet and sets every ref.  The first error ends
it, except that a revision which is there already is passed over.
-/

namespace ModelKeep
namespace Importing

open Concurrency Program

/-! ## Caches -/

/-- What is on disk beside the archive. -/
structure Cache where
  tree : FileTree Bytes
  /-- What the system calls a path that it cannot follow. -/
  refusal : List String → IoErrorKind
  /-- The names in a directory, in the order of a listing. -/
  listing : List String → List String
  listed : ∀ place,
    (listing place).Perm (FileTree.sortNames (tree.entries place))
  /-- `to_string_lossy` of a name; a name that is text is itself. -/
  text : String → String

/-- `encoded.split("--")`. -/
def splitDashes : List Char → List (List Char)
  | [] => [[]]
  | '-' :: '-' :: rest => [] :: splitDashes rest
  | character :: rest =>
      match splitDashes rest with
      | [] => [[character]]
      | first :: more => (character :: first) :: more

/-- The namespace and the name that are encoded. -/
def decodeParts (repoType : RepositoryType) (encoded : List Char) :
    Option Repository :=
  match splitDashes encoded with
  | [namespaceName, name] =>
      if namespaceName = [] ∨ name = [] then
        none
      else
        some ⟨repoType, String.ofList (namespaceName ++ '/' :: name)⟩
  | _ => none

/-- `decode_repository_name`. -/
def decodeRepositoryName (name : String) : Option Repository :=
  if startsWith name "models--" then
    decodeParts .model (name.toList.drop 8)
  else if startsWith name "datasets--" then
    decodeParts .dataset (name.toList.drop 10)
  else
    none

/-! ## The steps -/

/-- A look at the cache whose failure ends the import. -/
inductive Look
  | canonicalize (path : List String)
  | readDir (path : List String)
  /-- `ReadDir::next`, also the last one. -/
  | nextEntry (path : List String)
  /-- `DirEntry::file_type`, with the content. -/
  | fileType (path : List String)
  | metadata (path : List String)
  | openFile (path : List String)
  | readToString (path : List String)

abbrev Look.Answer : Look → Type
  | .canonicalize _ => List String
  | .readDir _ => List String
  | .nextEntry _ => Unit
  | .fileType _ => FileNode Bytes
  | .metadata _ => FileNode Bytes
  | .openFile _ => Unit
  | .readToString _ => String

/-- A step inside a staging directory. -/
inductive StageOp
  | createDirAll (place : List String)
  | createNew (place : List String)
  | append (place : List String) (content : Bytes)
  | syncAll (place : List String)
  /-- `File::create` of the manifest. -/
  | createManifest
  | writeManifest (manifest : Manifest)
  | syncManifest
  | syncDirectory
  | removeLease

inductive Op
  | look (op : Look)
  /-- `Path::is_dir` of a directory of the cache, which is passed over unless
  it is one. -/
  | isDir (path : List String)
  /-- The reads of a loop until the end of the file or an error. -/
  | readChunks (path : List String)
  /-- `create_dir_all` of `revisions`. -/
  | createRevisions (repository : Repository)
  /-- `Path::exists` of a revision. -/
  | isPublished (repository : Repository) (commit : String)
  /-- `fs::canonicalize` of `tmp`. -/
  | archiveTmp
  /-- `create_staging`. -/
  | createStaging
  | stage (staging : String) (op : StageOp)
  /-- Rename a staging directory into place. -/
  | renameStaging (staging : String) (repository : Repository)
      (commit : String)
  /-- `remove_dir_all` of a staging directory. -/
  | removeStaging (staging : String)
  | syncRevisions (repository : Repository)
  | ref (repository : Repository) (op : Refs.Op)

abbrev Op.Reply : Op → Type
  | .look op => Except ArchiveError op.Answer
  | .isDir _ => Bool
  | .readChunks _ => List Bytes × Option IoErrorKind
  | .isPublished _ _ => Bool
  | .createStaging => Except ArchiveError String
  | .ref _ op => op.Reply
  | _ => Except ArchiveError Unit

abbrev interface : Interface := ⟨Op, Op.Reply⟩

abbrev Action (α : Type) : Type := ExceptT ArchiveError (Program interface) α

def perform (op : Op) : Program interface op.Reply := .call op .done

/-- A look whose failure ends the import. -/
def look (op : Look) : Action op.Answer := attempt (perform (.look op))

/-- A step in a staging directory whose failure ends the publication. -/
def stage (staging : String) (op : StageOp) : Action Unit :=
  attempt (perform (.stage staging op))

/-- `Path::is_file`. -/
def isFile (path : List String) : Program interface Bool := do
  match ← perform (.look (.metadata path)) with
  | .ok (.file _) => return true
  | _ => return false

/-- `Path::is_dir` of a source root. -/
def isDirectory (path : List String) : Program interface Bool := do
  match ← perform (.look (.metadata path)) with
  | .ok .directory => return true
  | _ => return false

/-- The steps of an update, as steps on one repository. -/
def refSteps (repository : Repository) : Embedding Refs.interface interface :=
  ⟨.ref repository, fun _ => id⟩

/-! ## Publishing a snapshot -/

/-- `write_all`, of one chunk after the other. -/
def appendAll (staging : String) (place : List String) :
    List Bytes → Action Unit
  | [] => check (.ok ())
  | chunk :: rest => do
      stage staging (.append place chunk)
      appendAll staging place rest

variable (sha256 : Bytes → String)

/-- One file that is copied. -/
def writeSourceFile (staging : String) (sourceRoot : List String)
    (file : FileSystem.SourceFile) : Action ManifestFile := do
  check (validateRelativeFilePath file.path)
  let source ← look (.canonicalize file.source)
  if ¬sourceRoot <+: source then
    check (.error (.invalidPath file.path))
  else if (← always (isFile source)) = false then
    check (.error (.invalidPath file.path))
  else do
    let place ← check (Extension.placeOf file.path)
    stage staging (.createDirAll place.dropLast)
    look (.openFile source)
    stage staging (.createNew place)
    let (chunks, failure) ← always (perform (.readChunks source))
    appendAll staging place chunks
    let content ← check (FileSystem.Setting.wholeContent chunks failure)
    stage staging (.syncAll place)
    check (.ok ⟨file.path, content.length, sha256 content⟩)

/-- The loop over the requested files. -/
def writeSourceFiles (staging : String) (sourceRoot : List String) :
    List FileSystem.SourceFile → List ManifestFile →
      Action (List ManifestFile)
  | [], entries => check (.ok entries)
  | file :: rest, entries => do
      let entry ← writeSourceFile sha256 staging sourceRoot file
      writeSourceFiles staging sourceRoot rest (entries ++ [entry])

/-- `write_source_revision`. -/
def writeSourceRevision (staging : String) (sourceRoot : List String)
    (repoType : RepositoryType)
    (request : FileSystem.SourcePublishRequest) : Action Unit := do
  let entries ← writeSourceFiles sha256 staging sourceRoot request.files []
  stage staging .createManifest
  stage staging (.writeManifest {
    complete := true
    repoType := repoType
    repoId := request.repoId
    requestedRevision := request.requestedRevision
    files := entries })
  stage staging .syncManifest
  stage staging .syncDirectory

/-- The rename of a filled staging directory, and what its failure is
called. -/
def renameStaging (staging : String) (repository : Repository)
    (commit : String) : Action Unit := do
  stage staging .removeLease
  match ← always (perform (.renameStaging staging repository commit)) with
  | .ok () => attempt (perform (.syncRevisions repository))
  | .error error => do
      let _ ← always (perform (.removeStaging staging))
      if ← always (perform (.isPublished repository commit)) then
        check (.error (.alreadyPublished commit))
      else
        check (.error error)

/-- What is staged is put in place, or removed. -/
def publishStaging (staging : String) (repository : Repository)
    (commit : String) (write : Action Unit) : Action Unit := do
  match ← always write.run with
  | .ok () => renameStaging staging repository commit
  | .error error => do
      let _ ← always (perform (.removeStaging staging))
      check (.error error)

/-- What is checked of a request before anything is done. -/
def checkRequest (request : FileSystem.SourcePublishRequest) :
    Except ArchiveError Unit := do
  let _ ← validateRepoId request.repoId
  validateComponent request.requestedRevision
  validateRevision request.commit
  if request.files = [] then
    .error (.invalidPath "revision has no files")
  else
    .ok ()

/-- `publish_revision_from_directory_for_type`.  The cache is apart from the
archive, so no source root lies in `tmp`. -/
def publishRevisionFromDirectory (repoType : RepositoryType)
    (request : FileSystem.SourcePublishRequest) : Action Unit := do
  check (checkRequest request)
  let sourceRoot ← look (.canonicalize request.sourceRoot)
  if (← always (isDirectory sourceRoot)) = false then
    check (.error (.invalidPath (joinPath request.sourceRoot)))
  else do
    let repository : Repository := ⟨repoType, request.repoId⟩
    attempt (perform (.createRevisions repository))
    if ← always (perform (.isPublished repository request.commit)) then
      check (.error (.alreadyPublished request.commit))
    else do
      attempt (perform .archiveTmp)
      let staging ← attempt (perform .createStaging)
      publishStaging staging repository request.commit
        (writeSourceRevision sha256 staging sourceRoot repoType request)

/-! ## The import -/

structure ImportReport where
  revisions : Nat
  refs : Nat
  deriving DecidableEq

/-- A loop over the entries of a directory. -/
def eachEntry {α : Type} (directory : List String)
    (visit : String → α → Action α) : List String → α → Action α
  | [], value => do
      look (.nextEntry directory)
      check (.ok value)
  | name :: rest, value => do
      look (.nextEntry directory)
      let value ← visit name value
      eachEntry directory visit rest value

variable (cache : Cache)

/-- One entry of a snapshot; `descend` goes through a directory. -/
def collectEntry (snapshot : List String)
    (descend : List String → List FileSystem.SourceFile →
      Action (List FileSystem.SourceFile))
    (path : List String) (files : List FileSystem.SourceFile) :
    Action (List FileSystem.SourceFile) := do
  match ← look (.fileType path) with
  | .directory => descend path files
  | _ =>
      let relative := joinPath ((path.drop snapshot.length).map cache.text)
      check (.ok (files ++ [⟨relative, path⟩]))

/-- `collect_files_recursive`.  A path has a greatest length, so there is a
level below which no directory can be read. -/
def collectFiles (snapshot : List String) :
    Nat → List String → List FileSystem.SourceFile →
      Action (List FileSystem.SourceFile)
  | 0, _, _ => check (.error (.io .other))
  | levels + 1, current, files => do
      let names ← look (.readDir current)
      eachEntry current (fun name => collectEntry cache snapshot
        (collectFiles snapshot levels) (current ++ [name])) names files

/-- One entry of `snapshots`. -/
def importSnapshot (repository : Repository) (directory path : List String)
    (name : String) (report : ImportReport) : Action ImportReport := do
  match ← look (.fileType path) with
  | .directory => do
      let commit := cache.text name
      let files ← collectFiles cache path FileSystem.Setting.pathMax path []
      if files = [] then
        check (.ok report)
      else do
        match ← always (publishRevisionFromDirectory sha256
            repository.repoType ⟨repository.repoId, commit, commit,
              directory, files⟩).run with
        | .ok () =>
            check (.ok { report with revisions := report.revisions + 1 })
        | .error (.alreadyPublished _) => check (.ok report)
        | .error error => check (.error error)
  | _ => check (.ok report)

/-- One entry of `refs`. -/
def importRef (repository : Repository) (path : List String) (name : String)
    (report : ImportReport) : Action ImportReport := do
  match ← look (.fileType path) with
  | .file _ => do
      let text ← look (.readToString path)
      let commit := Archive.trim text
      if commit = "" then
        check (.ok report)
      else do
        attempt ((Refs.updateRef repository.repoId (cache.text name)
          commit).run.embed (refSteps repository))
        check (.ok { report with refs := report.refs + 1 })
  | _ => check (.ok report)

/-- A directory of which every entry is imported. -/
def importEntries (directory : List String)
    (visit : String → ImportReport → Action ImportReport)
    (report : ImportReport) : Action ImportReport := do
  let names ← look (.readDir directory)
  eachEntry directory visit names report

/-- One entry of the cache. -/
def importRepository (path : List String) (name : String)
    (report : ImportReport) : Action ImportReport := do
  match ← look (.fileType path) with
  | .directory =>
      match decodeRepositoryName (cache.text name) with
      | none => check (.ok report)
      | some repository => do
          let snapshots := path ++ ["snapshots"]
          if (← always (perform (.isDir snapshots))) = false then
            check (.ok report)
          else do
            let report ← importEntries snapshots
              (fun name => importSnapshot sha256 cache repository path
                (snapshots ++ [name]) name) report
            let refs := path ++ ["refs"]
            if (← always (perform (.isDir refs))) = false then
              check (.ok report)
            else
              importEntries refs
                (fun name => importRef cache repository (refs ++ [name]) name)
                report
  | _ => check (.ok report)

/-- `import_hf_cache`. -/
def importHfCache (cacheRoot : List String) : Action ImportReport := do
  let cacheRoot ← look (.canonicalize cacheRoot)
  importEntries cacheRoot
    (fun name => importRepository sha256 cache (cacheRoot ++ [name]) name)
    ⟨0, 0⟩

end Importing
end ModelKeep
