import ModelKeep.Revision
import ModelKeep.Staging.Calls

/-!
# The fetcher and its failures

What an acquisition asks of the fetcher, how the fetcher fails, and what its
caller is told.  A failure arrives under one of two encodings: as a variant of
its own, or as a report of the helper with a class.
-/

namespace ModelKeep

/-- The class the fetch helper reports for its own failure. -/
inductive HelperFailureClass
  | unavailable
  | notFound
  | unauthorized
  | rateLimited
  | clientFailure
  deriving DecidableEq

/-- `HelperFailureClass::safe_reason`. -/
def HelperFailureClass.safeReason : HelperFailureClass → String
  | .unavailable => "upstream unavailable"
  | .notFound => "upstream repository or revision not found"
  | .unauthorized => "upstream authorization failed"
  | .rateLimited => "upstream rate limited the acquisition"
  | .clientFailure => "upstream client failure"

structure HelperFailure where
  failureClass : HelperFailureClass
  exception : Option String
  message : Option String
  deriving DecidableEq

/-- `HelperFailure::safe_reason`. -/
def HelperFailure.safeReason (failure : HelperFailure) : String :=
  match failure.message, failure.exception with
  | some message, _ => failure.failureClass.safeReason ++ ": " ++ message
  | none, some exception =>
      failure.failureClass.safeReason ++ ": " ++ exception
  | none, none => failure.failureClass.safeReason

/-- What was wrong with the output of the helper. -/
inductive InvalidOutputReason
  | stdoutUnavailable
  | nonJsonLine
  | malformedProgress
  | unsupportedProgressVersion
  | malformedResolved
  | malformedResolvedCommit
  | stagingMetadataUpdateFailed
  | malformedResult
  | unsupportedEventType
  | missingResult
  | malformedResultCommit
  | resumeCommitMismatch
  | emptySnapshot
  | missingFailureEvent
  | malformedFailure
  deriving DecidableEq

inductive UpstreamError
  | io (kind : IoErrorKind)
  | unavailable
  | notFound
  | unauthorized
  | invalidOutput (reason : InvalidOutputReason)
  | storage
  | failed
  | helperFailure (failure : HelperFailure)
  | cancelled
  deriving DecidableEq

/-- `fmt::Debug for io::ErrorKind`. -/
def IoErrorKind.debug : IoErrorKind → String
  | .notFound => "NotFound"
  | .alreadyExists => "AlreadyExists"
  | .isADirectory => "IsADirectory"
  | .notADirectory => "NotADirectory"
  | .other => "Other"

/-- `InvalidOutputReason::safe_reason`. -/
def InvalidOutputReason.safeReason : InvalidOutputReason → String
  | .stdoutUnavailable => "helper stdout was unavailable"
  | .nonJsonLine => "helper emitted a non-JSON line"
  | .malformedProgress => "helper emitted a malformed progress event"
  | .unsupportedProgressVersion =>
      "helper emitted an unsupported progress version"
  | .malformedResolved => "helper emitted a malformed resolved event"
  | .malformedResolvedCommit => "helper resolved a malformed commit identity"
  | .stagingMetadataUpdateFailed => "fetch staging metadata update failed"
  | .malformedResult => "helper emitted a malformed result event"
  | .unsupportedEventType => "helper emitted an unsupported event type"
  | .missingResult => "helper exited successfully without a result event"
  | .malformedResultCommit => "helper returned a malformed commit identity"
  | .resumeCommitMismatch => "helper result did not match the resumed commit"
  | .emptySnapshot => "helper returned an empty snapshot"
  | .missingFailureEvent =>
      "helper failed without reporting a failure event"
  | .malformedFailure => "helper emitted a malformed failure event"

/-- `UpstreamError::safe_reason`. -/
def UpstreamError.safeReason : UpstreamError → String
  | .io kind => "upstream I/O error: " ++ kind.debug
  | .unavailable => "upstream unavailable"
  | .notFound => "upstream repository or revision not found"
  | .unauthorized => "upstream authorization failed"
  | .invalidOutput reason =>
      "upstream returned invalid helper output: " ++ reason.safeReason
  | .storage => "fetch staging storage failure"
  | .failed => "upstream acquisition failed"
  | .helperFailure failure => failure.safeReason
  | .cancelled => "upstream acquisition cancelled"

/-- A reason that came out of `safeReason`. -/
structure SanitizedReason where
  text : String
  sanitized : ∃ error : UpstreamError, text = error.safeReason

instance : DecidableEq SanitizedReason := fun left right =>
  decidable_of_iff (left.text = right.text)
    ⟨fun same => by cases left; cases right; cases same; rfl,
      fun same => same ▸ rfl⟩

/-- `SanitizedReason::of`. -/
def SanitizedReason.of (error : UpstreamError) : SanitizedReason :=
  ⟨error.safeReason, error, rfl⟩

/-- Why an acquisition failed. -/
inductive PullThroughError
  | upstreamUnavailable
  | upstreamNotFound
  | upstreamUnauthorized
  | upstreamInvalidOutput (reason : InvalidOutputReason)
  | upstreamFailed (reason : Option SanitizedReason)
  | unsafePath
  | integrity
  | storage
  | conflict
  | stagingConflict
  | cancelled
  deriving DecidableEq

/-- `From<UpstreamError> for PullThroughError`. -/
def PullThroughError.ofUpstream (error : UpstreamError) : PullThroughError :=
  match error with
  | .unavailable => .upstreamUnavailable
  | .notFound => .upstreamNotFound
  | .unauthorized => .upstreamUnauthorized
  | .invalidOutput reason => .upstreamInvalidOutput reason
  | .storage => .storage
  | .failed => .upstreamFailed (some (.of error))
  | .io _ => .upstreamFailed (some (.of error))
  | .helperFailure failure =>
      match failure.failureClass with
      | .unavailable => .upstreamUnavailable
      | .rateLimited => .upstreamUnavailable
      | .notFound => .upstreamNotFound
      | .unauthorized => .upstreamUnauthorized
      | .clientFailure => .upstreamFailed (some (.of error))
  | .cancelled => .cancelled

/-- `From<ArchiveError> for PullThroughError`, which `log_archive_failure`
returns. -/
def PullThroughError.ofArchive : ArchiveError → PullThroughError
  | .invalidPath _ => .unsafePath
  | .integrityMismatch _ => .integrity
  | .alreadyPublished _ => .conflict
  | .io _ => .storage
  | .referencedRevision _ => .storage

/-- `fetch_staging_failure`. -/
def fetchStagingFailure : FetchStagingError → PullThroughError
  | .inFlight _ => .stagingConflict
  | .archive error => .ofArchive error

structure FetchRequest where
  repoType : RepositoryType
  repoId : String
  revision : String
  files : List String
  exclude : List String
  staging : EntryName
  resumeCommit : Option String

/-- What a transfer reports. -/
structure FetchedRevision where
  commit : String
  files : List String

structure InventoryRequest where
  repoType : RepositoryType
  repoId : String
  revision : String
  files : List String
  exclude : List String

/-- The paths a selection covers upstream, and the commit they are at. -/
structure RevisionInventory where
  commit : String
  files : List String

/-- All files of a commit. -/
structure UpstreamRepositoryFiles where
  commit : String
  files : List String

end ModelKeep
