import ModelKeep.Disk.Reading
import ModelKeep.Extension
import ModelKeep.FileSystem.Calls

/-!
# The common steps of the archive operations

How the operations make directories and staging areas and write files, call by
call.  The heartbeat thread, which renews the lease of a staging directory
after half a minute, is left out.
-/

namespace ModelKeep
namespace FileSystem

open Concurrency Program

/-! ## Single calls -/

def lookAt (op : Look) : Program interface (Except IoErrorKind op.Answer) :=
  .call (.look op) .done

def attemptTo (op : Change) : Program interface (Except IoErrorKind Unit) :=
  .call (.change op) .done

/-- A call whose failure ends the operation. -/
def look (op : Look) : Action op.Answer :=
  ExceptT.mk (lookAt op >>= fun reply => .done (reply.mapError .io))

/-- A change whose failure ends the operation. -/
def change (op : Change) : Action Unit :=
  ExceptT.mk (attemptTo op >>= fun reply => .done (reply.mapError .io))

/-- A change whose failure is ignored. -/
def attemptAnyway (op : Change) : Action Unit :=
  always (attemptTo op >>= fun _ => .done ())

def operationId : Program interface OperationId := .call .operationId .done

def unixTimestamp : Program interface Nat := .call .unixTimestamp .done

/-- `Path::exists`. -/
def existsPath (path : List String) : Program interface Bool := do
  match ← lookAt (.metadata path) with
  | .ok _ => return true
  | .error _ => return false

/-- `Path::is_dir`. -/
def isDir (path : List String) : Program interface Bool := do
  match ← lookAt (.metadata path) with
  | .ok .directory => return true
  | _ => return false

/-- `Path::is_file`. -/
def isFile (path : List String) : Program interface Bool := do
  match ← lookAt (.metadata path) with
  | .ok (.file _) => return true
  | _ => return false

/-- The last attempt of `create_dir_all` at one directory. -/
def createDirUnlessThere (path : List String) :
    Program interface (Except IoErrorKind Unit) := do
  match ← attemptTo (.createDir path) with
  | .ok () => return .ok ()
  | .error kind =>
      if ← isDir path then return .ok () else return .error kind

/-- `fs::create_dir_all`, of a path from its last component to its first. -/
def createDirAllReversed : List String →
    Program interface (Except IoErrorKind Unit)
  | [] => createDirUnlessThere []
  | last :: above => do
      match ← attemptTo (.createDir (last :: above).reverse) with
      | .ok () => return .ok ()
      | .error .notFound => do
          match ← createDirAllReversed above with
          | .error kind => return .error kind
          | .ok () => createDirUnlessThere (last :: above).reverse
      | .error kind =>
          if ← isDir (last :: above).reverse then
            return .ok ()
          else
            return .error kind

/-- `fs::create_dir_all`. -/
def createDirAll (path : List String) : Action Unit :=
  ExceptT.mk (createDirAllReversed path.reverse >>= fun outcome =>
    .done (outcome.mapError .io))

/-- Write to an open file piece by piece. -/
def appendAll (path : List String) : List Bytes → Action Unit
  | [] => check (.ok ())
  | piece :: rest => do
      change (.append path piece)
      appendAll path rest

/-- The bytes of a text. -/
def text (value : String) : Bytes := value.toUTF8.toList

/-! ## The archive -/

/-- The JSON coding of the records of upstream files. -/
structure RecordCodec (Record : Type) where
  toVec : Record → Except String Bytes
  fromSlice : Bytes → Except String Record

/-- One file as upstream reported it. -/
structure UpstreamFile where
  path : String
  size : Option Nat := none
  blobId : Option String := none
  lfsSha256 : Option String := none
  deriving DecidableEq

/-- `is_hexadecimal_object_id`. -/
def isHexadecimalObjectId (value : String) : Bool :=
  1 ≤ value.toList.length && value.toList.length ≤ 128 &&
    value.toList.all isAsciiHexdigit

/-- `UpstreamFile::sanitized`. -/
def UpstreamFile.sanitized (file : UpstreamFile) : Option UpstreamFile :=
  match validateRelativeFilePath file.path with
  | .error _ => none
  | .ok () => some {
      path := file.path
      size := file.size
      blobId := file.blobId.filter isHexadecimalObjectId
      lfsSha256 := file.lfsSha256.filter isHexadecimalObjectId }

/-- The recorded upstream file list of one commit. -/
structure UpstreamRecord where
  version : Nat := 1
  repoType : RepositoryType
  repoId : String
  commit : String
  files : List UpstreamFile
  deriving DecidableEq

/-- Where the archive is, which process works on it, and what it is given from
elsewhere. -/
structure Setting where
  root : List String
  processId : Nat
  sha256 : Bytes → String
  manifests : ManifestCodec
  records : RecordCodec UpstreamRecord

namespace Setting

variable (setting : Setting)

/-- The directory of a repository. -/
def repositoryPath (repoType : RepositoryType)
    (namespaceName name : String) : List String :=
  setting.root ++ [repoType.archiveDirectory, namespaceName, name]

/-- The directory of the revisions of a repository. -/
def revisionsPath (repoType : RepositoryType)
    (namespaceName name : String) : List String :=
  setting.repositoryPath repoType namespaceName name ++ ["revisions"]

/-! ## Staging -/

def stagingLeaseFile : String := ".modelkeep-staging-lease"

def stagingLeaseSeconds : Nat := 120

/-- `write_staging_lease`. -/
def writeStagingLease (staging : List String) (nonce : String) :
    Action Unit := do
  let now ← always unixTimestamp
  let operation ← always operationId
  let temporary := staging ++
    [".modelkeep-staging-lease-" ++ operation.text ++ ".part"]
  change (.create temporary)
  appendAll temporary [
    text ("nonce=" ++ nonce ++ "\n"),
    text ("pid=" ++ toString setting.processId ++ "\n"),
    text ("expires_at=" ++ toString (now + stagingLeaseSeconds) ++ "\n")]
  change (.syncAll temporary)
  change (.rename temporary (staging ++ [stagingLeaseFile]))

/-- The attempts of `create_staging`. -/
def allocateStaging (kind : String) : Nat → Action (List String)
  | 0 => check (.error (.io .alreadyExists))
  | attempts + 1 => do
      let operation ← always operationId
      let staging := setting.root ++ ["tmp", kind ++ "-" ++ operation.text]
      match ← always (attemptTo (.createDir staging)) with
      | .ok () => do
          setting.writeStagingLease staging operation.text
          change (.syncDirectory staging)
          return staging
      | .error .alreadyExists => allocateStaging kind attempts
      | .error failure => check (.error (.io failure))

/-- `create_staging`. -/
def createStaging (kind : String) : Action (List String) :=
  setting.allocateStaging kind 16

/-- `remove_staging_lease`. -/
def removeStagingLease (staging : List String) : Action Unit := do
  match ← always (attemptTo
      (.removeFile (staging ++ [stagingLeaseFile]))) with
  | .ok () => return ()
  | .error .notFound => return ()
  | .error failure => check (.error (.io failure))

/-! ## Manifests -/

def manifestName : String := ".modelkeep-manifest.json"

/-- `json_escape`. -/
def jsonEscape (value : String) : String :=
  String.ofList (value.toList.flatMap fun character =>
    if character = '"' then ['\\', '"']
    else if character = '\\' then ['\\', '\\']
    else [character])

/-- One entry of the text of a manifest. -/
def manifestEntryText (entry : ManifestFile) : String :=
  "\x7b\"path\":\"" ++ jsonEscape entry.path ++ "\",\"size\":" ++
    toString entry.size ++ ",\"sha256\":\"" ++ entry.sha256 ++ "\"\x7d"

/-- The pieces in which `write_manifest` writes the entries. -/
def manifestEntryPieces : List ManifestFile → List String
  | [] => []
  | [entry] => [manifestEntryText entry]
  | entry :: rest =>
      manifestEntryText entry :: "," :: manifestEntryPieces rest

/-- The pieces in which `write_manifest` writes a manifest. -/
def manifestPieces (repoType : RepositoryType)
    (repoId requestedRevision commit : String) (archivedAt : Nat)
    (entries : List ManifestFile) : List String :=
  ("\x7b\"version\":1,\"complete\":true,\"repo_type\":\"" ++
    repoType.display ++ "\",\"repo_id\":\"" ++ jsonEscape repoId ++
    "\",\"requested_revision\":\"" ++ jsonEscape requestedRevision ++
    "\",\"commit\":\"" ++ commit ++ "\",\"archived_at\":" ++
    toString archivedAt ++ ",\"files\":[") ::
  manifestEntryPieces entries ++ ["]\x7d\n"]

/-- `write_manifest`. -/
def writeManifest (output : List String) (repoType : RepositoryType)
    (repoId requestedRevision commit : String)
    (entries : List ManifestFile) : Action Unit := do
  let archivedAt ← always unixTimestamp
  appendAll output ((manifestPieces repoType repoId requestedRevision commit
    archivedAt entries).map text)

end Setting
end FileSystem
end ModelKeep
