import ModelKeep.FileSystem.Steps
import ModelKeep.Json.Value
import ModelKeep.PullThrough.Effects
import ModelKeep.Text

/-!
# Running the fetch helper

The helper reports on its standard output, one JSON object a line, and ends
with an exit status.  A resolved commit is recorded in the staging directory
as soon as it is read; everything else is decided once the output has ended.
-/

namespace ModelKeep
namespace Fetcher

open Concurrency Program
open FileSystem (UpstreamFile)

/-! ## What a line says -/

/-- The result event. -/
structure HelperOutput where
  kind : Option String
  commit : String
  files : List String
  repositoryFiles : List UpstreamFile

/-- The progress event. -/
structure FetchProgress where
  version : Nat
  phase : String
  unit : Option String
  completed : Option Nat
  total : Option Nat

/-- The fields of an upstream file, by name or by position. -/
def decodeUpstreamFields (path size blobId lfsSha256 : Option Json) :
    Option UpstreamFile := do
  let path ← Json.required Json.asText path
  let size ← Json.optional Json.asNatural size
  let blobId ← Json.optional Json.asText blobId
  let lfsSha256 ← Json.optional Json.asText lfsSha256
  return ⟨path, size, blobId, lfsSha256⟩

def decodeUpstreamFile : Json → Option UpstreamFile
  | .array elements =>
      if 4 < elements.length then
        none
      else
        decodeUpstreamFields elements[0]? elements[1]? elements[2]?
          elements[3]?
  | .object members =>
      let value := Json.object members
      decodeUpstreamFields (value.get? "path") (value.get? "size")
        (value.get? "blob_id") (value.get? "lfs_sha256")
  | _ => none

def decodeHelperOutput (value : Json) : Option HelperOutput := do
  let kind ← Json.optional Json.asText (value.get? "type")
  let commit ← Json.required Json.asText (value.get? "commit")
  let files ← Json.required (Json.asList Json.asText) (value.get? "files")
  let repositoryFiles ← Json.orDefault [] (Json.asList decodeUpstreamFile)
    (value.get? "repository_files")
  return ⟨kind, commit, files, repositoryFiles⟩

def decodeProgress (value : Json) : Option FetchProgress := do
  let version ←
    Json.orDefault 0 (Json.asBounded (2 ^ 32)) (value.get? "version")
  let phase ← Json.required Json.asText (value.get? "phase")
  let unit ← Json.optional Json.asText (value.get? "unit")
  let completed ← Json.optional Json.asNatural (value.get? "completed")
  let total ← Json.optional Json.asNatural (value.get? "total")
  return ⟨version, phase, unit, completed, total⟩

/-- `bounded_detail` -/
def boundedDetail (value : String) : Option String :=
  match (singleLine value).take 400 with
  | [] => none
  | detail => some (String.ofList detail)

/-- `HelperFailureClass::as_str` -/
def asStr : HelperFailureClass → String
  | .unavailable => "unavailable"
  | .notFound => "not_found"
  | .unauthorized => "unauthorized"
  | .rateLimited => "rate_limited"
  | .clientFailure => "client_failure"

/-- `HelperFailureClass::parse` -/
def parseClass (value : String) : Option HelperFailureClass :=
  [.unavailable, .notFound, .unauthorized, .rateLimited,
    .clientFailure].find? fun failureClass => asStr failureClass = value

/-- `HelperFailure::reported` -/
def reported (failureClass : HelperFailureClass)
    (exception message : Option String) : HelperFailure :=
  ⟨failureClass, exception.bind boundedDetail, message.bind boundedDetail⟩

/-- `parse_failure_event` -/
def parseFailureEvent (value : Json) : Option HelperFailure := do
  let version ←
    Json.orDefault 0 (Json.asBounded (2 ^ 32)) (value.get? "version")
  let failureClass ← Json.required Json.asText (value.get? "class")
  let exception ← Json.optional Json.asText (value.get? "exception")
  let message ← Json.optional Json.asText (value.get? "message")
  if 1 < version then
    none
  else do
    let failureClass ← parseClass failureClass
    return reported failureClass exception message

/-- What a line comes down to once it has been read and checked. -/
inductive Event
  | failure (reported : HelperFailure)
  | progress (event : FetchProgress)
  | resolved (commit : String)
  | result (output : HelperOutput)
  /-- Not of the protocol; passed over. -/
  | untyped

/-- The match on the type of an event, up to what it does. -/
def readEvent (value : Json) : Except InvalidOutputReason Event :=
  match (value.get? "type").bind Json.asText with
  | some "failure" =>
      match parseFailureEvent value with
      | none => .error .malformedFailure
      | some reported => .ok (.failure reported)
  | some "progress" =>
      match decodeProgress value with
      | none => .error .malformedProgress
      | some event =>
          if 1 < event.version then .error .unsupportedProgressVersion
          else .ok (.progress event)
  | some "resolved" =>
      match (value.get? "commit").bind Json.asText with
      | none => .error .malformedResolved
      | some commit =>
          if isHfCommit commit then .ok (.resolved commit)
          else .error .malformedResolvedCommit
  | some "result" =>
      match decodeHelperOutput value with
      | none => .error .malformedResult
      | some output => .ok (.result output)
  | none => .ok .untyped
  | some _ => .error .unsupportedEventType

/-! ## Reading the output -/

/-- A line of the output, or the failure to read one. -/
abbrev Line : Type := Except IoErrorKind String

/-- The last result and the first failure so far. -/
structure Read where
  result : Option HelperOutput
  failure : Option HelperFailure

/-- How the recording of a commit fails the fetch. -/
def recordingFailure : ArchiveError → UpstreamError
  | .io _ => .storage
  | _ => .invalidOutput .stagingMetadataUpdateFailed

variable (parse : String → Option Json) (request : FetchRequest)

/-- An event that was read. -/
def interpret (line : Line) : Except UpstreamError Event :=
  match line with
  | .error kind => .error (.io kind)
  | .ok text =>
      match parse text with
      | none => .error (.invalidOutput .nonJsonLine)
      | some value => (readEvent value).mapError .invalidOutput

/-- Record a resolved commit in the staging of the request. -/
def recordResolved (commit : String) : Staging.Action UpstreamError Unit :=
  attempt ((Staging.recordFetchResolvedCommit request.staging
      request.stagingRequest commit).run >>= fun outcome =>
    .done (outcome.mapError recordingFailure))

/-- The body of the loop over the lines. -/
def readLine (read : Read) (line : Line) :
    Staging.Action UpstreamError Read := do
  match ← check (interpret parse line) with
  | .failure reported =>
      check (.ok { read with failure := read.failure.or (some reported) })
  | .progress _ => check (.ok read)
  | .resolved commit => do
      recordResolved request commit
      check (.ok read)
  | .result output => check (.ok { read with result := some output })
  | .untyped => check (.ok read)

/-- The loop over the lines. -/
def readLines (read : Read) : List Line → Staging.Action UpstreamError Read
  | [] => check (.ok read)
  | line :: rest => do
      let read ← readLine parse request read line
      readLines read rest

/-- `helper_exit_failure` -/
def helperExitFailure (code : Option Int) : UpstreamError :=
  match code with
  | some 10 => .unavailable
  | some 11 => .notFound
  | some 12 => .unauthorized
  | some 13 => .helperFailure ⟨.rateLimited, none, none⟩
  | _ => .invalidOutput .missingFailureEvent

/-- What was fetched, and the file list that is parked in staging for the
revision; whether that succeeds makes no difference. -/
structure Fetched where
  revision : FetchedRevision
  repositoryFiles : List UpstreamFile

/-- What is decided once the output has ended and the helper was waited for.
A helper that was stopped by a signal has no exit code. -/
def conclude (resumeCommit : Option String) (read : Read)
    (code : Option Int) : Except UpstreamError Fetched :=
  match read.failure with
  | some failure => .error (.helperFailure failure)
  | none =>
      if code ≠ some 0 then
        .error (helperExitFailure code)
      else match read.result with
        | none => .error (.invalidOutput .missingResult)
        | some response =>
            if !isHfCommit response.commit then
              .error (.invalidOutput .malformedResultCommit)
            else if resumeCommit.any fun commit =>
                commit ≠ response.commit then
              .error (.invalidOutput .resumeCommitMismatch)
            else if response.files = [] then
              .error (.invalidOutput .emptySnapshot)
            else
              .ok ⟨⟨response.commit, response.files⟩,
                response.repositoryFiles.filterMap
                  FileSystem.UpstreamFile.sanitized⟩

/-- `run_fetch` of a helper that is not stopped, with the lines it writes and
the code it exits with. -/
def runFetch (lines : List Line) (code : Except IoErrorKind (Option Int)) :
    Staging.Action UpstreamError Fetched := do
  let read ← readLines parse request ⟨none, none⟩ lines
  let code ← check (code.mapError .io)
  check (conclude request.resumeCommit read code)

end Fetcher
end ModelKeep
