import ModelKeep.Jobs.Record
import ModelKeep.Storage.Files

/-!
# Job records on disk

The calls of the job manager, file-system step by file-system step: the record
of a job and its three indexes, submission, transitions, recovery at startup
and pages of the history.  Every call that writes holds the lock of the active
jobs, which it takes as an argument and hands back.

The four directories are there before any of this; a JSON file holds the value
that was written, and one that was not written whole does not parse.
-/

namespace ModelKeep
namespace Jobs

open Concurrency Program

/-- The files below `state/jobs`. -/
inductive Path
  | record (id : String)
  | temporary (id nonce : String)
  | reservation (id : String)
  | sentinel
  | sentinelTemporary (nonce : String)
  /-- An entry of `by-created`. -/
  | history (key : String)
  /-- A marker of `active`. -/
  | active (id : String)
  /-- An entry of `idempotency`. -/
  | idempotency (hash : String)
  | entryTemporary (hash nonce : String)
  deriving DecidableEq

inductive Directory
  | jobs
  | byCreated
  | active
  | idempotency
  deriving DecidableEq

/-- Which directory a file is in. -/
def Path.directory : Path → Directory
  | .record _ => .jobs
  | .temporary _ _ => .jobs
  | .reservation _ => .jobs
  | .sentinel => .jobs
  | .sentinelTemporary _ => .jobs
  | .history _ => .byCreated
  | .active _ => .active
  | .idempotency _ => .idempotency
  | .entryTemporary _ _ => .idempotency

/-- What a file of the job manager holds. -/
inductive Content
  | job (job : Job)
  | entry (entry : IdempotencyEntry)
  | sentinel
  deriving DecidableEq

abbrev FileOp : Type := Storage.Op Path Directory Content

abbrev JobFiles : Type := Storage.Files Path Content

inductive Op
  | file (op : FileOp)
  | unixTimestamp
  | newJobId (now : Nat)

/-- What each step answers. -/
abbrev Op.Reply : Op → Type
  | .file op => op.Reply
  | .unixTimestamp => Nat
  | .newJobId _ => String

abbrev interface : Interface := ⟨Op, Op.Reply⟩

/-- The steps on the files; `faulty` ones may fail.  Any id can be drawn that
`draws` allows, at any time of the clock. -/
def Effect
    (faulty : FileOp → Prop)
    (draws : JobFiles → String → Prop) :
    Semantics interface JobFiles
  | .file op, before, reply, after =>
      Storage.Effect (fun directory path => path.directory = directory)
        faulty op before reply after
  | .unixTimestamp, before, reply, after => reply < 2 ^ 64 ∧ after = before
  | .newJobId _, before, reply, after =>
      isJobId reply = true ∧ draws before reply ∧ after = before

/-- A part of a call; it may stop with an error. -/
abbrev Action (α : Type) : Type := ExceptT ArchiveError (Program interface) α

/-- The conversion of an I/O error. -/
def ioError : Storage.ErrorKind → ArchiveError
  | .notFound => .io .notFound
  | .alreadyExists => .io .alreadyExists
  | .other => .io .other

/-- One step on the files. -/
def perform (op : FileOp) : Program interface op.Reply :=
  .call (.file op) .done

/-- The `?` operator on a step. -/
def orFail {α : Type} (step : Program interface (Except Storage.ErrorKind α)) :
    Action α :=
  attempt (step >>= fun reply => .done (reply.mapError ioError))

def unixTimestamp : Program interface Nat := .call .unixTimestamp .done

def newJobId (now : Nat) : Program interface String :=
  .call (.newJobId now) .done

/-! ## Indexes -/

/-- `write_new_json`: an entry appears whole or not at all. -/
def writeNewJson (hash : String) (entry : IdempotencyEntry) :
    Action Unit := do
  let now ← always unixTimestamp
  let nonce ← always (newJobId now)
  let temporary := Path.entryTemporary hash nonce
  orFail (perform (.createNew temporary))
  orFail (perform (.write temporary (.entry entry)))
  orFail (perform (.sync temporary))
  match ← always (perform (.hardLink temporary (.idempotency hash))) with
  | .ok _ => pure ()
  | .error .alreadyExists => pure ()
  | .error kind =>
      let _ ← always (perform (.remove temporary))
      throw (ioError kind)
  orFail (perform (.remove temporary))
  orFail (perform (.syncDirectory .idempotency))

/-- A file whose presence is all it says. -/
def createMarker (path : Path) : Action Unit := do
  match ← always (perform (.createNew path)) with
  | .ok _ => orFail (perform (.sync path))
  | .error .alreadyExists => pure ()
  | .error kind => throw (ioError kind)

def ensureHistoryIndex (job : Job) : Action Unit := do
  createMarker (.history (historyKey job.createdAt job.id))
  orFail (perform (.syncDirectory .byCreated))

/-- `read_job`; the text of a parse error is the parser's. -/
def readJob (id : String) : Action Job := do
  check (validateJobId id)
  match ← orFail (perform (.read (.record id))) with
  | some (.job job) =>
      if job.id = id then return job
      else throw (.integrityMismatch "job record identity mismatch")
  | _ => throw (.integrityMismatch "malformed job record")

/-- An entry of the idempotency index that must be there. -/
def decodeEntry : Option Content → Except ArchiveError IdempotencyEntry
  | some (.entry entry) => .ok entry
  | _ => .error (.integrityMismatch "malformed idempotency entry")

/-- `read_idempotency`. -/
def readIdempotency (hash : String) : Action (Option IdempotencyEntry) := do
  check (validateDigest hash)
  match ← always (perform (.read (.idempotency hash))) with
  | .ok content => return some (← check (decodeEntry content))
  | .error .notFound => return none
  | .error kind => throw (ioError kind)

/-- `remove_idempotency`. -/
def removeIdempotency (hash : String) : Action Unit := do
  check (validateDigest hash)
  match ← always (perform (.remove (.idempotency hash))) with
  | .ok _ => pure ()
  | .error .notFound => pure ()
  | .error kind => throw (ioError kind)

def ensureIdempotencyIndex (job : Job) : Action Unit := do
  match job.idempotencyHash, job.idempotencyRequestHash with
  | some hash, some requestHash =>
      check (validateDigest hash)
      if ← always (perform (.isFile (.idempotency hash))) then
        let content ← orFail (perform (.read (.idempotency hash)))
        let existing ← check (decodeEntry content)
        if existing.jobId ≠ job.id then
          check (validateJobId existing.jobId)
          if ← always (perform (.isFile (.record existing.jobId))) then
            throw (.integrityMismatch "idempotency index conflict")
          else
            orFail (perform (.remove (.idempotency hash)))
            writeNewJson hash ⟨job.id, requestHash⟩
        else if existing.requestHash ≠ requestHash then
          throw (.integrityMismatch "idempotency index conflict")
        else
          pure ()
      else
        writeNewJson hash ⟨job.id, requestHash⟩
  | _, _ => pure ()

def setActiveMarker (job : Job) : Action Unit := do
  if job.state.isActive then
    createMarker (.active job.id)
  else
    match ← always (perform (.remove (.active job.id))) with
    | .ok _ => pure ()
    | .error .notFound => pure ()
    | .error kind => throw (ioError kind)
  orFail (perform (.syncDirectory .active))

/-! ## Records -/

/-- The part of `persist` that decides whether it fails. -/
def persistRecord (job : Job) : Action Unit := do
  let now ← always unixTimestamp
  let nonce ← always (newJobId now)
  let temporary := Path.temporary job.id nonce
  orFail (perform (.create temporary))
  orFail (perform (.write temporary (.job job)))
  orFail (perform (.sync temporary))
  orFail (perform (.rename temporary (.record job.id)))
  orFail (perform (.syncDirectory .jobs))

/-- The indexes after a record; what fails here is only logged. -/
def updateIndexes (job : Job) : Program interface Unit := do
  let _ ← (ensureHistoryIndex job).run
  let _ ← (ensureIdempotencyIndex job).run
  let _ ← (setActiveMarker job).run

def persist (job : Job) : Action Unit := do
  persistRecord job
  always (updateIndexes job)

/-- `persist_new` once the id is known to be free. -/
def persistReserved (job : Job) : Action Bool := do
  ensureHistoryIndex job
  ensureIdempotencyIndex job
  setActiveMarker job
  let result ← always (persist job).run
  let removed ← always (perform (.remove (.reservation job.id)))
  orFail (perform (.syncDirectory .jobs))
  check result
  check (removed.mapError ioError)
  return true

/-- `persist_new`: false when the id is taken. -/
def persistNew (job : Job) : Action Bool := do
  match ← always (perform (.createNew (.reservation job.id))) with
  | .error .alreadyExists => return false
  | .error kind => throw (ioError kind)
  | .ok _ =>
      orFail (perform (.sync (.reservation job.id)))
      if ← always (perform (.isFile (.record job.id))) then
        let _ ← always (perform (.remove (.reservation job.id)))
        orFail (perform (.syncDirectory .jobs))
        return false
      else
        persistReserved job

/-! ## Transitions -/

/-- `update`: a transition is made in memory, written, and taken back when it
could not be written. -/
def update (jobs : ActiveJobs) (id : String) (change : Nat → Job → Job) :
    Program interface (ActiveJobs × Option Job) :=
  match jobs.lookup id with
  | none => .done (jobs, none)
  | some previous => do
      let now ← unixTimestamp
      let updatedAt ← unixTimestamp
      let snapshot := { change now previous with updatedAt := updatedAt }
      match ← (persist snapshot).run with
      | .ok _ =>
          if snapshot.state.isActive then
            return (jobs.insert id snapshot, some snapshot)
          else
            return (jobs.erase id, some snapshot)
      | .error _ => return (jobs.insert id previous, some previous)

/-- `cancel` from its second lock on. -/
def cancelRecord (jobs : ActiveJobs) (id : String) :
    Program interface (ActiveJobs × Option (Except String Job)) :=
  match jobs.lookup id with
  | none => .done (jobs, none)
  | some previous => do
      let now ← unixTimestamp
      let snapshot := previous.cancel now
      match ← (persist snapshot).run with
      | .ok _ => return (jobs.erase id, some (.ok snapshot))
      | .error _ => return (jobs.insert id previous, some (.error "storage"))

/-! ## Submission -/

/-- The answer of the idempotency index, if it has one. -/
def submitIndexed
    (digest : String → String)
    (request : JobRequest)
    (selection : FileSelection)
    (principal : PrincipalView)
    (hash : String) :
    ExceptT String (Program interface) (Option Job) := do
  match ← always (readIdempotency hash).run with
  | .error _ => throw "storage"
  | .ok none => return none
  | .ok (some entry) =>
      match ← always (readJob entry.jobId).run with
      | .ok existing =>
          let legacyModelMatch :=
            request.repoType = .model ∧ selection.isUnrestricted = true ∧
              entry.requestHash =
                hashLegacyIdempotencyRequest digest request principal
          if entry.requestHash =
                hashIdempotencyRequest digest request selection principal ∨
              legacyModelMatch then
            return some existing
          else
            throw "idempotency_conflict"
      | .error (.io .notFound) =>
          match ← always (removeIdempotency hash).run with
          | .ok _ => return none
          | .error _ => throw "storage"
      | .error _ => throw "storage"

/-- The loop of `submit` that looks for a free id. -/
def persistCandidate
    (jobs : ActiveJobs)
    (candidate : String → Job)
    (now : Nat) :
    Nat → ExceptT String (Program interface) Job
  | 0 => throw "storage"
  | attempts + 1 => do
      let id ← always (newJobId now)
      if id ∈ jobs then
        persistCandidate jobs candidate now attempts
      else
        match ← always (persistNew (candidate id)).run with
        | .error _ => throw "storage"
        | .ok true => return candidate id
        | .ok false => persistCandidate jobs candidate now attempts

/-- The rest of `submit` when the index has no answer: an equivalent job that
is active, or a new one. -/
def submitNew
    (jobs : ActiveJobs)
    (request : JobRequest)
    (selection : FileSelection)
    (principal : PrincipalView)
    (hash requestHash : Option String) :
    ExceptT String (Program interface) (Job × Bool) := do
  match jobs.values.find? fun job =>
      isEquivalentActiveJob job request selection with
  | some existing => return (existing, false)
  | none =>
      let now ← always unixTimestamp
      let candidate := fun id =>
        Job.new id request selection principal hash requestHash now
      return (← persistCandidate jobs candidate now 16, true)

/-- `submit` up to the start of the thread: the job, and whether it is new. -/
def submit
    (digest : String → String)
    (jobs : ActiveJobs)
    (request : JobRequest)
    (idempotencyKey : Option String)
    (principal : PrincipalView) :
    ExceptT String (Program interface) (Job × Bool) := do
  let selection ← check (validateJobRequest request)
  let hash ← check (idempotencyKey.mapM (hashIdempotencyKey digest))
  let requestHash := hash.map fun _ =>
    hashIdempotencyRequest digest request selection principal
  let indexed ←
    match hash with
    | some hash => submitIndexed digest request selection principal hash
    | none => pure none
  match indexed with
  | some existing => return (existing, false)
  | none => submitNew jobs request selection principal hash requestHash

/-- What `submit` leaves in memory. -/
def ActiveJobs.afterSubmit
    (jobs : ActiveJobs) :
    Except String (Job × Bool) → ActiveJobs
  | .ok (job, true) => jobs.insert job.id job
  | _ => jobs

/-! ## Startup -/

/-- One entry of the directory in `migrate_indexes_once`. -/
def migrateEntry (path : Path) : Action Unit := do
  match path with
  | .record fileId =>
      match ← orFail (perform (.read (.record fileId))) with
      | some (.job job) =>
          if isJobId job.id = false ∨ job.id ≠ fileId then
            pure ()
          else
            ensureHistoryIndex job
            ensureIdempotencyIndex job
            setActiveMarker job
      | _ => pure ()
  | _ => pure ()

def migrateEntries : List Path → Action Unit
  | [] => pure ()
  | path :: paths => do
      migrateEntry path
      migrateEntries paths

def migrateIndexesOnce : Action Unit := do
  if ← always (perform (.isFile .sentinel)) then
    return
  migrateEntries (← orFail (perform (.list .jobs)))
  let now ← always unixTimestamp
  let nonce ← always (newJobId now)
  orFail (perform (.createNew (.sentinelTemporary nonce)))
  orFail (perform (.write (.sentinelTemporary nonce) .sentinel))
  orFail (perform (.sync (.sentinelTemporary nonce)))
  orFail (perform (.rename (.sentinelTemporary nonce) .sentinel))
  orFail (perform (.syncDirectory .jobs))

/-- One marker in the loop of `open`. -/
def recoverMarker (path : Path) : Action Unit := do
  match path with
  | .active id =>
      if isJobId id then
        match ← always (readJob id).run with
        | .ok job =>
            if job.state.isActive then
              let now ← always unixTimestamp
              persist (job.interrupt now)
            else
              setActiveMarker job
        | .error (.io .notFound) => orFail (perform (.remove (.active id)))
        | .error _ => pure ()
      else
        pure ()
  | _ => pure ()

def recoverMarkers : List Path → Action Unit
  | [] => pure ()
  | path :: paths => do
      recoverMarker path
      recoverMarkers paths

/-- `JobManager::open`; no job is active afterwards. -/
def openJobs : Action ActiveJobs := do
  migrateIndexesOnce
  recoverMarkers (← orFail (perform (.list .active)))
  return ∅

/-! ## Pages -/

/-- The largest keys seen so far, the smallest first, at most `capacity`. -/
def selectKey (capacity : Nat) (selected : List String) (key : String) :
    List String :=
  if selected.length < capacity then
    selected.orderedInsert (· ≤ ·) key
  else
    match selected with
    | smallest :: rest =>
        if smallest < key then rest.orderedInsert (· ≤ ·) key else selected
    | [] => selected

/-- The loop of `list_page` over the history. -/
def selectKeys (capacity : Nat) (cursorKey : Option String) :
    List Path → List String → Action (List String)
  | [], selected => pure selected
  | path :: paths, selected => do
      match path with
      | .history key =>
          match jobIdFromHistoryKey key with
          | none => selectKeys capacity cursorKey paths selected
          | some id =>
              if cursorKey.any (· ≤ key) then
                selectKeys capacity cursorKey paths selected
              else if ← always (perform (.isFile (.record id))) then
                selectKeys capacity cursorKey paths
                  (selectKey capacity selected key)
              else
                selectKeys capacity cursorKey paths selected
      | _ => selectKeys capacity cursorKey paths selected

/-- The records under the selected keys. -/
def readPage : List String → Action (List Job)
  | [] => pure []
  | key :: keys => do
      match jobIdFromHistoryKey key with
      | none => throw (.integrityMismatch "invalid job history index")
      | some id =>
          let job ← readJob id
          if historyKey job.createdAt job.id ≠ key then
            throw (.integrityMismatch "job history index mismatch")
          return job :: (← readPage keys)

structure JobPage where
  items : List Job
  nextCursor : Option String

/-- The records of a page out of one more than it holds. -/
def JobPage.of (limit : Nat) (jobs : List Job) : JobPage where
  items := jobs.take limit
  nextCursor :=
    if limit < jobs.length then (jobs[limit - 1]?).map Job.id else none

/-- `list_page`. -/
def listPage (limit : Nat) (cursor : Option String) : Action JobPage := do
  let cursorKey ←
    match cursor with
    | none => pure (some none)
    | some id =>
        match ← always (readJob id).run with
        | .ok job => pure (some (some (historyKey job.createdAt job.id)))
        | .error (.io .notFound) => pure none
        | .error error => throw error
  match cursorKey with
  | none => return ⟨[], none⟩
  | some cursorKey =>
      let paths ← orFail (perform (.list .byCreated))
      let selected ← selectKeys (limit + 1) cursorKey paths []
      let jobs ← readPage selected.reverse
      return JobPage.of limit jobs

end Jobs
end ModelKeep
