import ModelKeep.Selection
import ModelKeep.SortedMap
import ModelKeep.Upstream

/-!
# Management jobs

A job as its record holds it, what a submission asks for, the checks and the
hashes of a submission, and the names under which a job is filed.  SHA-256 is a
parameter: `digest` is the hexadecimal digest of a text.
-/

namespace ModelKeep
namespace Jobs

inductive JobKind
  | prefetch
  | refresh
  | verify
  | audit
  deriving DecidableEq

/-- `fmt::Debug for JobKind`. -/
def JobKind.display : JobKind → String
  | .prefetch => "Prefetch"
  | .refresh => "Refresh"
  | .verify => "Verify"
  | .audit => "Audit"

inductive JobState
  | queued
  | running
  | completed
  | failed
  | cancelled
  deriving DecidableEq

/-- `JobState::Queued | JobState::Running`. -/
def JobState.isActive : JobState → Bool
  | .queued => true
  | .running => true
  | _ => false

inductive JobOutcome
  | alreadyArchived
  | published
  | extended
  deriving DecidableEq

/-- Who submitted a job. -/
structure PrincipalView where
  authMethod : String
  login : Option String
  name : Option String
  deriving DecidableEq

/-- A job record. -/
structure Job where
  id : String
  kind : JobKind
  state : JobState
  phase : String
  repoType : RepositoryType
  repoId : Option String
  revision : Option String
  included : List String
  excluded : List String
  outcome : Option JobOutcome
  resolvedCommit : Option String
  resumed : Bool
  progressBytes : Option Nat
  totalBytes : Option Nat
  progressFiles : Option Nat
  totalFiles : Option Nat
  lastProgressAt : Option Nat
  startedAt : Option Nat
  finishedAt : Option Nat
  principal : Option PrincipalView
  errorClass : Option String
  message : Option String
  idempotencyHash : Option String
  idempotencyRequestHash : Option String
  createdAt : Nat
  updatedAt : Nat
  deriving DecidableEq

structure JobRequest where
  kind : JobKind
  repoType : RepositoryType
  repoId : Option String
  revision : Option String
  included : Option (List String)
  excluded : Option (List String)
  deriving DecidableEq

structure IdempotencyEntry where
  jobId : String
  requestHash : String
  deriving DecidableEq

/-! ## Checks -/

def isAsciiAlphanumeric (character : Char) : Bool :=
  character.isDigit || ('a' ≤ character && character ≤ 'z') ||
    ('A' ≤ character && character ≤ 'Z')

/-- The condition of `validate_job_id`. -/
def isJobId (id : String) : Bool :=
  id ≠ "" && id.toList.length ≤ 128 &&
    id.toList.all fun character =>
      isAsciiAlphanumeric character || character = '-' || character = '_'

def validateJobId (id : String) : Except ArchiveError Unit :=
  if isJobId id then .ok () else .error (.invalidPath id)

/-- The condition of `validate_digest`. -/
def isDigest (value : String) : Bool :=
  value.toList.length = 64 && value.toList.all isAsciiHexdigit

def validateDigest (value : String) : Except ArchiveError Unit :=
  if isDigest value then .ok ()
  else .error (.integrityMismatch "invalid job index digest")

/-- The normalized selection of a submission that is accepted. -/
def validateJobRequest (request : JobRequest) :
    Except String FileSelection := do
  match request.kind with
  | .audit =>
      if request.repoId.isSome ∨ request.revision.isSome then
        throw "invalid_request"
  | _ =>
      match request.repoId, request.revision with
      | some repoId, some revision =>
          if (validateRepoId repoId).isOk = false ∨
              (validateComponent revision).isOk = false then
            throw "invalid_request"
      | _, _ => throw "invalid_request"
  if request.kind ≠ .prefetch ∧
      (request.included.isSome ∨ request.excluded.isSome) then
    throw "invalid_request"
  match FileSelection.new (request.included.getD [])
      (request.excluded.getD []) with
  | some selection => return selection
  | none => throw "invalid_request"

/-! ## Hashes -/

/-- `hash_idempotency_key`; a key is at most 128 bytes long. -/
def hashIdempotencyKey (digest : String → String) (value : String) :
    Except String String :=
  if value = "" ∨ 128 < value.utf8ByteSize ∨ value.toList.any isControl then
    .error "invalid_idempotency_key"
  else
    .ok (digest value)

/-- Fields joined by NUL, as the hashed texts are. -/
def joinFields (fields : List String) : String :=
  String.ofList ([Char.ofNat 0].intercalate (fields.map String.toList))

/-- The text of a selection that restricts something. -/
def selectionText (selection : FileSelection) : String :=
  String.ofList (['\n'].intercalate
    (selection.identity.map String.toList))

/-- The fields that make up one exact request. -/
def requestFields
    (request : JobRequest)
    (selection : FileSelection)
    (principal : PrincipalView) :
    List String :=
  [request.kind.display, request.repoType.display, request.repoId.getD "",
    request.revision.getD "", principal.authMethod,
    principal.login.getD ""] ++
    if selection.isUnrestricted then [] else [selectionText selection]

def hashIdempotencyRequest
    (digest : String → String)
    (request : JobRequest)
    (selection : FileSelection)
    (principal : PrincipalView) :
    String :=
  digest (joinFields (requestFields request selection principal))

/-- The fields before datasets and selections existed. -/
def legacyFields
    (request : JobRequest)
    (principal : PrincipalView) :
    List String :=
  [request.kind.display, request.repoId.getD "", request.revision.getD "",
    principal.authMethod, principal.login.getD ""]

def hashLegacyIdempotencyRequest
    (digest : String → String)
    (request : JobRequest)
    (principal : PrincipalView) :
    String :=
  digest (joinFields (legacyFields request principal))

/-! ## Active jobs -/

/-- The jobs in memory, a `BTreeMap`. -/
abbrev ActiveJobs : Type := Finmap fun _ : String => Job

/-- `jobs.values()`, in the order of the ids. -/
def ActiveJobs.values (jobs : ActiveJobs) : List Job :=
  SortedMap.valuesOf jobs

def isEquivalentActiveJob
    (job : Job)
    (request : JobRequest)
    (selection : FileSelection) :
    Bool :=
  job.state.isActive && job.kind = request.kind &&
    job.repoType = request.repoType && job.repoId = request.repoId &&
    job.revision = request.revision &&
    job.included = selection.included && job.excluded = selection.excluded

theorem ActiveJobs.mem_values
    {jobs : ActiveJobs}
    {job : Job} :
    job ∈ jobs.values ↔ ∃ id, jobs.lookup id = some job :=
  SortedMap.mem_valuesOf

/-- The first job of `values` that matches, if any does. -/
theorem ActiveJobs.find_values
    (jobs : ActiveJobs)
    (matching : Job → Bool) :
    (∃ id job, jobs.values.find? matching = some job ∧
        jobs.lookup id = some job ∧ matching job = true) ∨
      (jobs.values.find? matching = none ∧
        ∀ id job, jobs.lookup id = some job → matching job = false) := by
  cases found : jobs.values.find? matching with
  | some job =>
      left
      obtain ⟨id, present⟩ :=
        ActiveJobs.mem_values.mp (List.mem_of_find?_eq_some found)
      exact ⟨id, job, rfl, present, List.find?_some found⟩
  | none =>
      refine Or.inr ⟨rfl, ?_⟩
      intro id job present
      have missing := List.find?_eq_none.mp found job
        (ActiveJobs.mem_values.mpr ⟨id, present⟩)
      simpa using missing

/-! ## Transitions -/

/-- `RESOLVE_PHASE`. -/
def resolvePhase : String := "resolving_revision"

/-- `TRANSFER_WAIT_PHASE`. -/
def transferWaitPhase : String := "waiting_for_transfer_slot"

/-- `QUEUED_PHASES`. -/
def queuedPhases : List String := [resolvePhase, transferWaitPhase]

/-- What an acquisition reports about itself. -/
structure FetchProgress where
  phase : String
  unit : Option String
  completed : Option Nat
  total : Option Nat
  deriving DecidableEq

/-- What running one job produced. -/
abbrev JobRunResult : Type :=
  Except (String × String) (Option String × Option JobOutcome)

namespace Job

/-- The record `submit` makes. -/
def new
    (id : String)
    (request : JobRequest)
    (selection : FileSelection)
    (principal : PrincipalView)
    (idempotencyHash idempotencyRequestHash : Option String)
    (now : Nat) :
    Job where
  id := id
  kind := request.kind
  state := .queued
  phase := "queued"
  repoType := request.repoType
  repoId := request.repoId
  revision := request.revision
  included := selection.included
  excluded := selection.excluded
  outcome := none
  resolvedCommit := none
  resumed := false
  progressBytes := none
  totalBytes := none
  progressFiles := none
  totalFiles := none
  lastProgressAt := none
  startedAt := none
  finishedAt := none
  principal := some principal
  errorClass := none
  message := none
  idempotencyHash := idempotencyHash
  idempotencyRequestHash := idempotencyRequestHash
  createdAt := now
  updatedAt := now

/-- The first transition of `run`. -/
def start (now : Nat) (job : Job) : Job :=
  if job.state = .cancelled then
    job
  else
    match job.kind with
    | .prefetch =>
        { job with
          startedAt := some now, state := .queued, phase := resolvePhase }
    | .refresh =>
        { job with
          startedAt := some now, state := .queued, phase := resolvePhase }
    | .verify =>
        { job with
          startedAt := some now
          state := .running
          phase := "verifying_revision" }
    | .audit =>
        { job with
          startedAt := some now
          state := .running
          phase := "auditing_archive" }

/-- A counter of a progress event: its first total stays, and it never goes
back. -/
def advance
    (total progress eventTotal : Option Nat)
    (completed : Nat) :
    Option Nat × Option Nat :=
  let bound := total <|> eventTotal
  (bound, some (max ((bound.map (min completed)).getD completed)
    (progress.getD 0)))

/-- The counters of a progress event. -/
def count (event : FetchProgress) (job : Job) : Job :=
  match event.unit, event.completed with
  | some "bytes", some completed =>
      let counter :=
        advance job.totalBytes job.progressBytes event.total completed
      { job with totalBytes := counter.1, progressBytes := counter.2 }
  | some "files", some completed =>
      let counter :=
        advance job.totalFiles job.progressFiles event.total completed
      { job with totalFiles := counter.1, progressFiles := counter.2 }
  | _, _ => job

/-- `record_progress`. -/
def progress (event : FetchProgress) (now : Nat) (job : Job) : Job :=
  count event
    { job with
      phase := event.phase
      state :=
        if job.state = .queued ∧ event.phase ∉ queuedPhases then .running
        else job.state
      resumed := job.resumed || event.phase = "resuming_snapshot"
      lastProgressAt := some now }

/-- The last transition of `run`. -/
def finish (result : JobRunResult) (now : Nat) (job : Job) : Job :=
  match result with
  | .ok (commit, outcome) =>
      { job with
        state := .completed
        phase := "completed"
        resolvedCommit := commit
        outcome := outcome
        finishedAt := some now }
  | .error (errorClass, message) =>
      { job with
        state := .failed
        phase := "failed"
        errorClass := some errorClass
        message := some message
        finishedAt := some now }

/-- The transition of `cancel`. -/
def cancel (now : Nat) (job : Job) : Job :=
  { job with
    state := .cancelled
    phase := "cancelled"
    finishedAt := some now
    updatedAt := now }

/-- What a restart makes of an active job. -/
def interrupt (now : Nat) (job : Job) : Job :=
  { job with
    state := .failed
    phase := "interrupted"
    errorClass := some "interrupted"
    message := some "job interrupted by process restart"
    finishedAt := some now
    updatedAt := now }

/-- What identifies a job and never changes. -/
structure Identity where
  id : String
  kind : JobKind
  repoType : RepositoryType
  repoId : Option String
  revision : Option String
  included : List String
  excluded : List String
  principal : Option PrincipalView
  idempotencyHash : Option String
  idempotencyRequestHash : Option String
  createdAt : Nat
  deriving DecidableEq

def identity (job : Job) : Identity :=
  ⟨job.id, job.kind, job.repoType, job.repoId, job.revision, job.included,
    job.excluded, job.principal, job.idempotencyHash,
    job.idempotencyRequestHash, job.createdAt⟩

@[simp] theorem identity_start (now : Nat) (job : Job) :
    (job.start now).identity = job.identity := by
  unfold start
  split
  · rfl
  · split <;> rfl

/-- Counting changes nothing else. -/
theorem count_eq
    (event : FetchProgress)
    (job : Job) :
    (job.count event).identity = job.identity ∧
      (job.count event).state = job.state := by
  unfold count
  split <;> exact ⟨rfl, rfl⟩

@[simp] theorem identity_progress
    (event : FetchProgress)
    (now : Nat)
    (job : Job) :
    (job.progress event now).identity = job.identity :=
  (count_eq event _).1

@[simp] theorem identity_finish
    (result : JobRunResult)
    (now : Nat)
    (job : Job) :
    (job.finish result now).identity = job.identity := by
  unfold finish
  split <;> rfl

@[simp] theorem identity_cancel (now : Nat) (job : Job) :
    (job.cancel now).identity = job.identity := rfl

@[simp] theorem identity_interrupt (now : Nat) (job : Job) :
    (job.interrupt now).identity = job.identity := rfl

@[simp] theorem identity_updatedAt (now : Nat) (job : Job) :
    { job with updatedAt := now }.identity = job.identity := rfl

/-- Starting a job does not end it. -/
theorem state_start
    {now : Nat}
    {job : Job}
    (standing : job.state ≠ .cancelled) :
    (job.start now).state ≠ .cancelled := by
  rw [start, if_neg standing]
  split <;> simp

/-- Progress does not end a job. -/
theorem state_progress
    (event : FetchProgress)
    (now : Nat)
    (job : Job) :
    (job.progress event now).state =
      if job.state = .queued ∧ event.phase ∉ queuedPhases then .running
      else job.state :=
  (count_eq event _).2

@[simp] theorem state_finish
    (result : JobRunResult)
    (now : Nat)
    (job : Job) :
    (job.finish result now).state.isActive = false := by
  unfold finish
  split <;> rfl

end Job

/-! ## History keys -/

/-- Two hexadecimal digits. -/
def hexByte (value : Nat) : List Char :=
  [Nat.digitChar (value / 16), Nat.digitChar (value % 16)]

/-- `hex_encode` of an id; its bytes are its characters. -/
def hexEncode (value : String) : List Char :=
  value.toList.flatMap fun character => hexByte character.toNat

/-- The value of a hexadecimal digit. -/
def hexValue (character : Char) : Nat :=
  if character.isDigit then character.toNat - '0'.toNat
  else if 'a' ≤ character then character.toNat - 'a'.toNat + 10
  else character.toNat - 'A'.toNat + 10

/-- The bytes of `hex_decode`. -/
def hexBytes : List Char → Option (List Nat)
  | [] => some []
  | [_] => none
  | high :: low :: rest =>
      if isAsciiHexdigit high && isAsciiHexdigit low then
        (hexBytes rest).map fun bytes =>
          (16 * hexValue high + hexValue low) :: bytes
      else
        none

/-- `hex_decode`; a text that is not ASCII is no id in any case. -/
def hexDecode (value : List Char) : Option String :=
  match hexBytes value with
  | some bytes =>
      if bytes.all (· < 128) then some (String.ofList (bytes.map Char.ofNat))
      else none
  | none => none

/-- `{:020}`. -/
def padded (value : Nat) : List Char :=
  List.leftpad 20 '0' (Nat.toDigits 10 value)

/-- `history_key`. -/
def historyKey (createdAt : Nat) (id : String) : String :=
  String.ofList (padded createdAt ++ '-' :: hexEncode id)

/-- `job_id_from_history_key`. -/
def jobIdFromHistoryKey (key : String) : Option String :=
  let timestamp := key.toList.takeWhile (· ≠ '-')
  match key.toList.dropWhile (· ≠ '-') with
  | [] => none
  | _ :: encoded =>
      if timestamp.length ≠ 20 ∨ ¬timestamp.all Char.isDigit then
        none
      else
        (hexDecode encoded).filter isJobId

end Jobs
end ModelKeep
