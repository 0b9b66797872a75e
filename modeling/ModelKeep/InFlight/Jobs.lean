import ModelKeep.InFlight.Acquisitions
import ModelKeep.Jobs.Lifecycle

/-!
# Jobs that run acquisitions

The thread of a prefetch or a refresh makes its first transition, joins a
flight, waits for it and makes its last transition.  A cancellation looks at
the job below the lock, asks the acquisition without it, and takes the lock
again to mark the record.  Clients and whoever cancels an acquisition by its
identifier are steps of the acquisitions.
-/

namespace ModelKeep
namespace InFlight

open Concurrency Jobs

/-! ## What a job makes of its acquisition -/

/-- `fmt::Display for PullThroughError`. -/
def display : PullThroughError → String
  | .upstreamUnavailable => "upstream unavailable"
  | .upstreamNotFound => "upstream not found"
  | .upstreamUnauthorized => "upstream authorization failed"
  | .upstreamInvalidOutput reason =>
      "upstream invalid output: " ++ reason.safeReason
  | .upstreamFailed (some reason) => reason.text
  | .upstreamFailed none => "upstream acquisition failed"
  | .unsafePath => "unsafe archive path"
  | .integrity => "archive integrity failure"
  | .storage => "archive storage failure"
  | .conflict => "archive publication conflict"
  | .stagingConflict => "fetch staging is held by a running acquisition"
  | .cancelled => "acquisition cancelled"

/-- `classify_pullthrough_error`. -/
def classifyPullthroughError (error : PullThroughError) : String × String :=
  let errorClass :=
    match error with
    | .upstreamUnavailable => "upstream"
    | .upstreamInvalidOutput _ => "upstream"
    | .upstreamFailed _ => "upstream"
    | .upstreamNotFound => "not_found"
    | .upstreamUnauthorized => "authorization"
    | .integrity => "integrity"
    | .storage => "storage"
    | .unsafePath => "unsafe_path"
    | .conflict => "conflict"
    | .stagingConflict => "staging_conflict"
    | .cancelled => "cancelled"
  (errorClass, display error)

/-- `From<AcquisitionOutcome> for JobOutcome`. -/
def jobOutcome : AcquisitionOutcome → JobOutcome
  | .alreadyArchived => .alreadyArchived
  | .published => .published
  | .extended => .extended

/-- What a job that waited for a flight is given; a flight that panicked is a
conflict. -/
def resultOf : Ending Landing PullThroughError → JobRunResult
  | some (.ok (.acquired result)) =>
      .ok (some result.commit, some (jobOutcome result.outcome))
  | some (.ok (.refreshed result)) => .ok (some result.proposed, none)
  | some (.error error) => .error (classifyPullthroughError error)
  | none => .error (classifyPullthroughError .conflict)

/-- The kinds of jobs that run an acquisition. -/
def Transfers : JobKind → Bool
  | .prefetch => true
  | .refresh => true
  | _ => false

/-- What the thread of a job joins. -/
def request? (job : Job) : Option Request :=
  match job.kind, job.repoId, job.revision with
  | .prefetch, some repoId, some revision =>
      (FileSelection.new job.included job.excluded).map fun selection =>
        .pullThrough ⟨job.repoType, repoId⟩ revision selection true
  | .refresh, some repoId, some revision =>
      some (.refresh ⟨job.repoType, repoId⟩ revision false)
  | _, _, _ => none

/-- What `cancel` looks for in the registry. -/
def target (job : Job) : Target :=
  ⟨⟨job.repoType, job.repoId.getD ""⟩, job.revision.getD "", job.included,
    job.excluded, match job.kind with
      | .refresh => .refresh
      | _ => .pullThrough⟩

/-- Whether `cancel` asks the acquisition of the job it looked up. -/
def asks (job : Job) : Bool := job.startedAt.isSome && Transfers job.kind

/-! ## Interleavings -/

/-- What the thread of a job does between its two transitions. -/
inductive Work
  | preparing
  | waiting (flight : Nat)
  | answered (flight : Option Nat) (result : JobRunResult)
  | ceased (flight : Option Nat)

/-- The flight the thread has joined. -/
def Work.flight? : Work → Option Nat
  | preparing => none
  | waiting flight => some flight
  | answered flight _ => flight
  | ceased flight => flight

inductive CancelReport
  | cancelled
  | alreadyTerminal
  | alreadyFinishing
  deriving DecidableEq

/-- How far a call of `cancel` has come. -/
inductive Call
  | looked (job : Job)
  /-- The registry has an acquisition for the job. -/
  | found (job : Job) (entry : Nat)
  /-- The acquisition was asked to stop. -/
  | stopped (job : Job) (outcome : CancelOutcome)
  | done
      (id : String)
      (asked : Option CancelOutcome)
      (report : Except String CancelReport)

/-- The jobs with their threads, the acquisitions, and the calls of
`cancel`. -/
structure World (κ : Type) where
  jobs : ActiveJobs
  files : JobFiles
  thread : String → Option Thread
  work : String → Option Work
  acquisitions : Acquisitions
  call : κ → Option Call

namespace World

variable {κ : Type}

/-- The job manager alone. -/
def manager (s : World κ) : System κ :=
  ⟨s.jobs, s.files, s.thread, fun _ => none⟩

/-- The job manager has taken a step. -/
def follow (s : World κ) (manager : System κ) : World κ :=
  { s with
    jobs := manager.jobs
    files := manager.files
    thread := manager.thread }

/-- The thread of the job goes on. -/
def setWork (s : World κ) (id : String) (work : Work) : World κ :=
  { s with work := Function.update s.work id (some work) }

/-- The call goes on. -/
def setCall
    [DecidableEq κ]
    (s : World κ)
    (caller : κ)
    (call : Call) :
    World κ :=
  { s with call := Function.update s.call caller (some call) }

/-- The thread of the job has joined the flight. -/
def Attached (s : World κ) (id : String) (number : Nat) : Prop :=
  ∃ work, s.work id = some work ∧ work.flight? = some number

end World

/-- No step of `persist` fails. -/
def Never (_ : FileOp) : Prop := False

/-- What `cancel` reports when the job is not active any more. -/
def absentReport (files : JobFiles) (id : String) (missing : String) :
    Except String CancelReport :=
  if (durable files id).isSome then .ok .alreadyTerminal else .error missing

/-- What `cancel` reports when it has taken the lock again. -/
def markReport
    (files : JobFiles)
    (id : String) :
    Option (Except String Job) → Except String CancelReport
  | some (.ok _) => .ok .cancelled
  | some (.error error) => .error error
  | none => absentReport files id "storage"

/-- The steps that a condition speaks of. -/
inductive Event (κ : Type)
  | find (caller : κ)
  | mark (caller : κ)
  | finish (id : String)
  | other

section step

variable {κ : Type} [DecidableEq κ]

/-- The last transition of a job, below the lock. -/
inductive Finishes
    (draws : JobFiles → String → Prop)
    (id : String)
    (result : JobRunResult)
    (s : World κ) :
    System κ → Prop
  | mk
      {written : ActiveJobs × Option Job}
      {files : JobFiles}
      (thread : s.thread id = some .working)
      (run : (update s.jobs id (Job.finish result)).Runs
        (Effect Never draws) s.files written files) :
      Finishes draws id result s
        ⟨written.1, files, Function.update s.thread id (some .returned),
          fun _ => none⟩

/-- One section below a lock, or one step of the acquisitions. -/
inductive Step
    (digest : String → String)
    (draws : JobFiles → String → Prop) :
    Event κ → World κ → World κ → Prop
  | submit
      {s : World κ}
      {manager : System κ}
      (step : Jobs.Step digest draws Never .submit s.manager manager) :
      Step digest draws .other s (s.follow manager)
  | start
      {s : World κ}
      {id : String}
      {manager : System κ}
      (step : Jobs.Step digest draws Never (.start id) s.manager manager)
      (working : manager.thread id = some .working) :
      Step digest draws .other s ((s.follow manager).setWork id .preparing)
  /-- The job was cancelled before its thread started it. -/
  | startNone
      {s : World κ}
      {id : String}
      {manager : System κ}
      (step : Jobs.Step digest draws Never (.start id) s.manager manager)
      (returned : manager.thread id = some .returned) :
      Step digest draws .other s (s.follow manager)
  | join
      {s : World κ}
      {id : String}
      {job : Job}
      {request : Request}
      (thread : s.thread id = some .working)
      (preparing : s.work id = some .preparing)
      (record : durable s.files id = some job)
      (requested : request? job = some request) :
      Step digest draws .other s
        ({ s with acquisitions := (s.acquisitions.join request).2 }.setWork id
          (.waiting (s.acquisitions.join request).1))
  /-- The stored patterns are not safe. -/
  | reject
      {s : World κ}
      {id : String}
      {job : Job}
      (thread : s.thread id = some .working)
      (preparing : s.work id = some .preparing)
      (record : durable s.files id = some job)
      (prefetch : job.kind = .prefetch)
      (unsafePatterns : FileSelection.new job.included job.excluded = none) :
      Step digest draws .other s
        (s.setWork id
          (.answered none (.error (classifyPullthroughError .unsafePath))))
  /-- The walk of a verification or an audit. -/
  | check
      {s : World κ}
      {id : String}
      {job : Job}
      {result : JobRunResult}
      (thread : s.thread id = some .working)
      (preparing : s.work id = some .preparing)
      (record : durable s.files id = some job)
      (kind : Transfers job.kind = false) :
      Step digest draws .other s (s.setWork id (.answered none result))
  | receive
      {s : World κ}
      {id : String}
      {number entry : Nat}
      {flight : Flight}
      {ending : Ending Landing PullThroughError}
      (waiting : s.work id = some (.waiting number))
      (found : s.acquisitions.flight number = some flight)
      (ceased : flight.worker = .ceased entry ending) :
      Step digest draws .other s
        (s.setWork id (.answered (some number) (resultOf ending)))
  | progress
      {s : World κ}
      {id : String}
      {number : Nat}
      {manager : System κ}
      (waiting : s.work id = some (.waiting number))
      (step : Jobs.Step digest draws Never (.progress id) s.manager
        manager) :
      Step digest draws .other s (s.follow manager)
  | finish
      {s : World κ}
      {id : String}
      {number : Option Nat}
      {result : JobRunResult}
      {manager : System κ}
      (answered : s.work id = some (.answered number result))
      (finishes : Finishes draws id result s manager) :
      Step digest draws (.finish id) s
        ((s.follow manager).setWork id (.ceased number))
  | look
      {s : World κ}
      {caller : κ}
      {id : String}
      {job : Job}
      (free : s.call caller = none)
      (active : s.jobs.lookup id = some job) :
      Step digest draws .other s (s.setCall caller (.looked job))
  | lookAbsent
      {s : World κ}
      {caller : κ}
      {id : String}
      (free : s.call caller = none)
      (absent : s.jobs.lookup id = none) :
      Step digest draws .other s
        (s.setCall caller
          (.done id none (absentReport s.files id "not_found")))
  | find
      {s : World κ}
      {caller : κ}
      {job : Job}
      {entry : Nat}
      (looked : s.call caller = some (.looked job))
      (going : asks job = true)
      (matched : s.acquisitions.matching (target job) = some entry) :
      Step digest draws (.find caller) s (s.setCall caller (.found job entry))
  | findNone
      {s : World κ}
      {caller : κ}
      {job : Job}
      (looked : s.call caller = some (.looked job))
      (going : asks job = true)
      (unmatched : s.acquisitions.matching (target job) = none) :
      Step digest draws (.find caller) s
        (s.setCall caller (.done job.id none (.ok .alreadyFinishing)))
  | ask
      {s : World κ}
      {caller : κ}
      {job : Job}
      {entry : Nat}
      (found : s.call caller = some (.found job entry)) :
      Step digest draws .other s
        ({ s with
            acquisitions := s.acquisitions.setToken entry
              (s.acquisitions.token entry).cancel.2 }.setCall caller
          (match (s.acquisitions.token entry).cancel.1 with
          | .alreadyFinished =>
              .done job.id (some .alreadyFinished) (.ok .alreadyFinishing)
          | outcome => .stopped job outcome))
  /-- There is nothing to ask; the record is marked at once. -/
  | markUnasked
      {s : World κ}
      {caller : κ}
      {job : Job}
      {result : ActiveJobs × Option (Except String Job)}
      {files : JobFiles}
      (looked : s.call caller = some (.looked job))
      (still : asks job = false)
      (run : (cancelRecord s.jobs job.id).Runs (Effect Never draws) s.files
        result files) :
      Step digest draws (.mark caller) s
        ({ s with jobs := result.1, files := files }.setCall caller
          (.done job.id none (markReport files job.id result.2)))
  | mark
      {s : World κ}
      {caller : κ}
      {job : Job}
      {outcome : CancelOutcome}
      {result : ActiveJobs × Option (Except String Job)}
      {files : JobFiles}
      (stopped : s.call caller = some (.stopped job outcome))
      (run : (cancelRecord s.jobs job.id).Runs (Effect Never draws) s.files
        result files) :
      Step digest draws (.mark caller) s
        ({ s with jobs := result.1, files := files }.setCall caller
          (.done job.id (some outcome) (markReport files job.id result.2)))
  | acquire
      {s : World κ}
      {acquisitions : Acquisitions}
      (step : s.acquisitions.Step acquisitions) :
      Step digest draws .other s { s with acquisitions := acquisitions }

end step

/-- Nothing is active, nothing runs and nobody cancels. -/
structure Initial {κ : Type} (s : World κ) : Prop where
  manager : Jobs.Initial s.manager
  work : ∀ id, s.work id = none
  acquisitions : s.acquisitions = .new
  call : ∀ caller, s.call caller = none

/-! ## What every step keeps -/

/-- The record is over, and the thread of the job will join nothing. -/
def World.Barred {κ : Type} (s : World κ) (id : String) : Prop :=
  (∃ record, durable s.files id = some record ∧
    record.state.isActive = false) ∧
  s.work id = none ∧
    (s.thread id = some .spawned ∨ s.thread id = some .returned)

/-- Threads that work were started, and only jobs that transfer join. -/
structure Grounded {κ : Type} (s : World κ) : Prop where
  sound : Jobs.Sound s.manager
  tidy : Tidy s.manager
  acquisitions : s.acquisitions.Sound
  started : ∀ id, s.work id ≠ none →
    s.thread id = some .working ∨ s.thread id = some .returned
  transfers : ∀ id number, s.Attached id number →
    ∃ record, durable s.files id = some record ∧
      Transfers record.kind = true

/-- What the parts of the system do in any step. -/
structure Evolves {κ : Type} (s t : World κ) : Prop where
  kept : Kept s.manager t.manager
  acquisitions : s.acquisitions.Does t.acquisitions
  attached : ∀ id number, s.Attached id number → t.Attached id number
  barred : ∀ id, s.Barred id → t.Barred id

section identity

variable {old : Job} {new : Option Job}

/-- Nobody changes what identifies a record. -/
theorem identity_of_moved
    (moved : Moved (some old) new) :
    ∃ job, new = some job ∧ job.identity = old.identity := by
  cases moved with
  | same => exact ⟨old, rfl, rfl⟩
  | on _ _ same => exact ⟨_, rfl, same⟩

end identity

section steps

variable {κ : Type} {digest : String → String}
  {draws : JobFiles → String → Prop} {s t : World κ}

theorem Initial.grounded
    (initial : Initial s) :
    Grounded s := by
  obtain ⟨sound, tidy⟩ := initial.manager.sound
  refine ⟨sound, tidy, initial.acquisitions ▸ Acquisitions.new_sound, ?_, ?_⟩
  · intro id working
    exact absurd (initial.work id) working
  · rintro id number ⟨work, working, _⟩
    rw [initial.work] at working
    cases working

theorem attached_setWork
    {id other : String}
    {work : Work}
    {number : Nat}
    (keeps : ∀ old, s.work id = some old →
      ∀ number, old.flight? = some number → work.flight? = some number)
    (attached : s.Attached other number) :
    (s.setWork id work).Attached other number := by
  obtain ⟨old, working, flight⟩ := attached
  by_cases same : other = id
  · subst same
    exact ⟨work, Function.update_self .., keeps old working number flight⟩
  · exact ⟨old, (Function.update_of_ne same ..).trans working, flight⟩

theorem work_setWork_of_ne
    {id other : String}
    {work : Work}
    (different : other ≠ id) :
    (s.setWork id work).work other = s.work other :=
  Function.update_of_ne different ..

theorem kept_refl
    (grounded : Grounded s) :
    Kept s.manager s.manager :=
  .of_same grounded.sound grounded.tidy rfl (fun _ => rfl) (fun _ => id)
    (fun _ => id) fun _ => Or.inl

/-- A mark is a transition of the job manager. -/
theorem kept_mark
    {id : String}
    {result : ActiveJobs × Option (Except String Job)}
    {files : JobFiles}
    (grounded : Grounded s)
    (run : (cancelRecord s.jobs id).Runs (Effect Never draws) s.files result
      files) :
    Kept s.manager ⟨result.1, files, s.thread, fun _ => none⟩ := by
  cases active : s.jobs.lookup id with
  | none =>
      unfold cancelRecord at run
      rw [active] at run
      obtain ⟨rfl, rfl⟩ := run
      exact kept_refl grounded
  | some previous =>
      obtain ⟨now, moves, others⟩ := runs_cancelRecord active
        (grounded.tidy.named id previous active) run
      obtain ⟨transition, _⟩ := moves.transition grounded.sound.agree
        grounded.tidy (fun fault => fault.elim) active
        (Job.identity_cancel ..) (fun _ => by simp [Job.cancel]) others
      exact .of_transition grounded.sound grounded.tidy transition
        (fun _ _ => rfl) (fun started => started)
        (fun spawned => ⟨spawned, rfl⟩) Or.inl

/-- The invariant after a step, part by part. -/
theorem Grounded.next
    (grounded : Grounded s)
    (kept : Kept s.manager t.manager)
    (does : s.acquisitions.Does t.acquisitions)
    (started : ∀ id, t.work id ≠ none →
      t.thread id = some .working ∨ t.thread id = some .returned)
    (attached : ∀ id number, s.Attached id number → t.Attached id number)
    (joins : ∀ id number, t.Attached id number → s.Attached id number ∨
      ∃ record, durable s.files id = some record ∧
        Transfers record.kind = true)
    (barred : ∀ id, s.Barred id → t.work id = none ∧
      (t.thread id = some .spawned ∨ t.thread id = some .returned)) :
    Grounded t ∧ Evolves s t := by
  refine ⟨⟨kept.sound, kept.tidy, does.sound grounded.acquisitions, started,
    ?_⟩, kept, does, attached, ?_⟩
  · intro id number joined
    have record : ∃ record, durable s.files id = some record ∧
        Transfers record.kind = true := by
      rcases joins id number joined with before | record
      · exact grounded.transfers id number before
      · exact record
    obtain ⟨record, found, transfers⟩ := record
    have moved := kept.moved id
    rw [show durable s.manager.files id = some record from found] at moved
    obtain ⟨later, present, same⟩ := identity_of_moved moved
    have kind : later.kind = record.kind := congrArg Job.Identity.kind same
    exact ⟨later, present, kind ▸ transfers⟩
  · intro id was
    obtain ⟨work, thread⟩ := barred id was
    obtain ⟨⟨record, found, ended⟩, _⟩ := was
    have moved := kept.moved id
    rw [show durable s.manager.files id = some record from found] at moved
    exact ⟨⟨record, moved.ended ended, ended⟩, work, thread⟩

/-- A step of the job manager alone. -/
theorem Grounded.follow
    {manager : System κ}
    (grounded : Grounded s)
    (kept : Kept s.manager (s.follow manager).manager)
    (thread : ∀ id, durable s.files id ≠ none →
      manager.thread id = s.thread id ∨
        s.thread id = some .spawned ∧ manager.thread id = some .returned) :
    Grounded (s.follow manager) ∧ Evolves s (s.follow manager) := by
  refine grounded.next kept (.none rfl) ?_ (fun _ _ => id)
    (fun _ _ => Or.inl) ?_
  · intro id working
    have before := grounded.started id working
    have filed := grounded.tidy.filed id (by
      rcases before with same | same <;>
      · rw [show s.manager.thread id = _ from same]
        simp)
    rcases thread id filed with same | ⟨spawned, _⟩
    · rw [show (s.follow manager).thread id = s.thread id from same]
      exact before
    · rw [spawned] at before
      simp at before
  · rintro id ⟨⟨record, found, _⟩, work, before⟩
    refine ⟨work, ?_⟩
    rcases thread id (by rw [found]; simp) with same | ⟨_, returned⟩
    · rw [show (s.follow manager).thread id = s.thread id from same]
      exact before
    · exact Or.inr returned

/-- A step that leaves the job manager and what its threads do. -/
theorem Grounded.aside
    (grounded : Grounded s)
    (manager : t.manager = s.manager)
    (work : t.work = s.work)
    (does : s.acquisitions.Does t.acquisitions) :
    Grounded t ∧ Evolves s t := by
  have attached : ∀ id number, t.Attached id number ↔ s.Attached id number := by
    intro id number
    unfold World.Attached
    rw [work]
  have threads : t.thread = s.thread := congrArg System.thread manager
  have kept : Kept s.manager t.manager := by
    rw [manager]
    exact kept_refl grounded
  refine grounded.next kept does ?_
    (fun id number => (attached id number).mpr)
    (fun id number joined => Or.inl ((attached id number).mp joined)) ?_
  · rw [work, threads]
    exact grounded.started
  · intro id was
    rw [work, threads]
    exact was.2

/-- The thread of a job goes on, and may have joined a flight. -/
theorem Grounded.goes
    {acquisitions : Acquisitions}
    {id : String}
    {before after : Work}
    (grounded : Grounded s)
    (doing : s.work id = some before)
    (does : s.acquisitions.Does acquisitions)
    (keeps : ∀ number, before.flight? = some number →
      after.flight? = some number)
    (joins : ∀ number, after.flight? = some number →
      before.flight? = some number ∨
        ∃ record, durable s.files id = some record ∧
          Transfers record.kind = true) :
    Grounded ({ s with acquisitions := acquisitions }.setWork id after) ∧
      Evolves s ({ s with acquisitions := acquisitions }.setWork id after) := by
  refine grounded.next (kept_refl grounded) does ?_ ?_ ?_ ?_
  · intro other working
    by_cases same : other = id
    · rw [same]
      exact grounded.started id (by rw [doing]; simp)
    · rw [work_setWork_of_ne same] at working
      exact grounded.started other working
  · rintro other number ⟨work, working, flight⟩
    by_cases same : other = id
    · rw [same] at working ⊢
      cases doing.symm.trans working
      exact ⟨after, Function.update_self .., keeps number flight⟩
    · exact ⟨work, (work_setWork_of_ne same).trans working, flight⟩
  · rintro other number ⟨work, working, flight⟩
    by_cases same : other = id
    · rw [same] at working ⊢
      cases (Function.update_self ..).symm.trans working
      rcases joins number flight with was | record
      · exact Or.inl ⟨before, doing, was⟩
      · exact Or.inr record
    · rw [work_setWork_of_ne same] at working
      exact Or.inl ⟨work, working, flight⟩
  · rintro other ⟨_, work, thread⟩
    have different : other ≠ id := by
      rintro rfl
      rw [doing] at work
      cases work
    rw [work_setWork_of_ne different]
    exact ⟨work, thread⟩

theorem kept_follow
    {manager : System κ}
    (kept : Kept s.manager manager) :
    Kept s.manager (s.follow manager).manager :=
  ⟨⟨kept.sound.agree, kept.sound.returned⟩,
    ⟨kept.tidy.named, kept.tidy.filed, kept.tidy.queued⟩, kept.moved⟩

/-- The thread of a job has ended it. -/
theorem grounded_finish
    {id : String}
    {number : Option Nat}
    {result : JobRunResult}
    {manager : System κ}
    (grounded : Grounded s)
    (answered : s.work id = some (.answered number result))
    (finishes : Finishes draws id result s manager) :
    Grounded ((s.follow manager).setWork id (.ceased number)) ∧
      Evolves s ((s.follow manager).setWork id (.ceased number)) := by
  cases finishes with
  | mk thread run =>
      have kept := kept_finish (fun _ _ fault => fault.elim) grounded.sound
        grounded.tidy thread run
      have elsewhere : ∀ other, other ≠ id →
          Function.update s.thread id (some Thread.returned) other =
            s.thread other := fun _ different =>
        Function.update_of_ne different ..
      refine grounded.next (kept_follow kept) (.none rfl) ?_ ?_ ?_ ?_
      · intro other busy
        by_cases same : other = id
        · rw [same]
          exact Or.inr (Function.update_self ..)
        · rw [work_setWork_of_ne same] at busy
          have before := grounded.started other busy
          rw [← elsewhere other same] at before
          exact before
      · intro other flight attached
        refine attached_setWork ?_ attached
        intro old doing joined same
        cases answered.symm.trans doing
        exact same
      · rintro other flight ⟨work, doing, joined⟩
        by_cases same : other = id
        · rw [same] at doing ⊢
          cases (Function.update_self ..).symm.trans doing
          exact Or.inl ⟨_, answered, joined⟩
        · exact Or.inl
            ⟨work, (work_setWork_of_ne same).symm.trans doing, joined⟩
      · rintro other ⟨_, work, before⟩
        have different : other ≠ id := by
          rintro rfl
          rw [answered] at work
          cases work
        rw [← elsewhere other different] at before
        exact ⟨(work_setWork_of_ne different).trans work, before⟩

/-- Only jobs that transfer have something to join. -/
theorem transfers_of_request
    {job : Job}
    {request : Request}
    (requested : request? job = some request) :
    Transfers job.kind = true := by
  unfold request? at requested
  split at requested
  · next kind _ _ => rw [kind]; rfl
  · next kind _ _ => rw [kind]; rfl
  · cases requested

variable [DecidableEq κ]

/-- A step of the job manager in which nothing fails. -/
theorem kept_of_step
    {label : Jobs.Label κ}
    {manager : System κ}
    (grounded : Grounded s)
    (step : Jobs.Step digest draws Never label s.manager manager) :
    Kept s.manager (s.follow manager).manager := by
  have careful : Careful Never s.manager label := by
    cases label with
    | finish id => exact fun _ _ fault => fault
    | _ => exact fun fault => fault
  exact kept_follow (step.kept (fun _ fault => fault.elim) careful
    grounded.sound grounded.tidy)

/-- A new job has a new id. -/
theorem thread_of_submit
    {manager next : System κ}
    {id : String}
    (step : Jobs.Step digest draws Never .submit manager next)
    (present : durable manager.files id ≠ none) :
    next.thread id = manager.thread id := by
  cases step with
  | submit returns =>
      have submits := returns_submit (fun _ fault => fault.elim) returns
      next outcome _ =>
      match outcome, submits with
      | .ok (job, true), ⟨_, _, free, _, _⟩ =>
          refine Function.update_of_ne ?_ ..
          rintro rfl
          rw [durable, free] at present
          exact present rfl
      | .ok (job, false), _ => rfl
      | .error error, _ => rfl

/-- The thread that starts a job was waiting to do so; a job that is over is
not started. -/
theorem thread_of_start
    {manager next : System κ}
    {id : String}
    (step : Jobs.Step digest draws Never (.start id) manager next) :
    manager.thread id = some .spawned ∧
      (∀ other, other ≠ id → next.thread other = manager.thread other) ∧
      (manager.jobs.lookup id = none → next.thread id = some .returned) := by
  cases step with
  | start thread run =>
      refine ⟨thread, fun _ different => Function.update_of_ne different .., ?_⟩
      intro absent
      unfold update at run
      rw [absent] at run
      obtain ⟨rfl, rfl⟩ := run
      exact Function.update_self ..

theorem thread_of_progress
    {manager next : System κ}
    {id : String}
    (step : Jobs.Step digest draws Never (.progress id) manager next) :
    next.thread = manager.thread := by
  cases step with
  | progress thread run => rfl

/-- The thread of a job has started it. -/
theorem grounded_start
    {id : String}
    {manager : System κ}
    (grounded : Grounded s)
    (step : Jobs.Step digest draws Never (.start id) s.manager manager)
    (working : manager.thread id = some .working) :
    Grounded ((s.follow manager).setWork id .preparing) ∧
      Evolves s ((s.follow manager).setWork id .preparing) := by
  obtain ⟨spawned, others, absent⟩ := thread_of_start step
  have idle : s.work id = none := by
    by_contra busy
    have before := grounded.started id busy
    rw [show s.thread id = some .spawned from spawned] at before
    simp at before
  refine grounded.next (kept_of_step grounded step) (.none rfl) ?_ ?_ ?_ ?_
  · intro other busy
    by_cases same : other = id
    · rw [same]
      exact Or.inl working
    · rw [work_setWork_of_ne same] at busy
      rw [show ((s.follow manager).setWork id .preparing).thread other =
        s.thread other from others other same]
      exact grounded.started other busy
  · intro other number attached
    refine attached_setWork (s := s.follow manager) ?_ attached
    intro old doing
    rw [show (s.follow manager).work id = none from idle] at doing
    cases doing
  · rintro other number ⟨work, doing, flight⟩
    by_cases same : other = id
    · rw [same] at doing
      cases (Function.update_self ..).symm.trans doing
      cases flight
    · exact Or.inl ⟨work, (work_setWork_of_ne same).symm.trans doing, flight⟩
  · rintro other ⟨⟨record, found, ended⟩, work, thread⟩
    have different : other ≠ id := by
      rintro rfl
      have gone : s.jobs.lookup other = none := by
        rw [show s.jobs.lookup other = _ from grounded.sound.agree other,
          show durable s.manager.files other = some record from found,
          Option.filter_some, if_neg (by simp [ended])]
      rw [absent gone] at working
      cases working
    rw [work_setWork_of_ne different,
      show ((s.follow manager).setWork id .preparing).thread other =
        s.thread other from others other different]
    exact ⟨work, thread⟩

theorem Step.grounded
    {event : Event κ}
    (grounded : Grounded s)
    (step : Step digest draws event s t) :
    Grounded t ∧ Evolves s t := by
  cases step with
  | submit step =>
      exact grounded.follow (kept_of_step grounded step) fun id present =>
        Or.inl (thread_of_submit step present)
  | start step working => exact grounded_start grounded step working
  | startNone step returned =>
      next id manager =>
      obtain ⟨spawned, others, _⟩ := thread_of_start step
      refine grounded.follow (kept_of_step grounded step) fun other _ => ?_
      by_cases same : other = id
      · rw [same]
        exact Or.inr ⟨spawned, returned⟩
      · exact Or.inl (others other same)
  | join thread preparing record requested =>
      refine grounded.goes preparing
        ((Acquisitions.Step.join _ _).does grounded.acquisitions) ?_ ?_
      · rintro number ⟨⟩
      · intro number _
        exact Or.inr ⟨_, record, transfers_of_request requested⟩
  | reject thread preparing record prefetch unsafePatterns =>
      exact grounded.goes preparing (.none rfl) (by rintro number ⟨⟩)
        (by rintro number ⟨⟩)
  | check thread preparing record kind =>
      exact grounded.goes preparing (.none rfl) (by rintro number ⟨⟩)
        (by rintro number ⟨⟩)
  | receive waiting found ceased =>
      exact grounded.goes waiting (.none rfl) (fun _ same => same)
        fun _ same => Or.inl same
  | progress waiting step =>
      refine grounded.follow (kept_of_step grounded step)
        fun id _ => Or.inl ?_
      rw [thread_of_progress step]
      rfl
  | finish answered finishes =>
      exact grounded_finish grounded answered finishes
  | look free active => exact grounded.aside rfl rfl (.none rfl)
  | lookAbsent free absent => exact grounded.aside rfl rfl (.none rfl)
  | find looked going matched => exact grounded.aside rfl rfl (.none rfl)
  | findNone looked going unmatched =>
      exact grounded.aside rfl rfl (.none rfl)
  | ask found => exact grounded.aside rfl rfl (.cancelled _ rfl)
  | markUnasked looked still run =>
      exact grounded.next (kept_mark grounded run) (.none rfl)
        grounded.started (fun _ _ => id) (fun _ _ => Or.inl) fun _ => And.right
  | mark stopped run =>
      exact grounded.next (kept_mark grounded run) (.none rfl)
        grounded.started (fun _ _ => id) (fun _ _ => Or.inl) fun _ => And.right
  | acquire step =>
      exact grounded.aside rfl rfl (step.does grounded.acquisitions)

end steps

/-! ## A prefetch that has joined its flight -/

namespace Sample

theorem effect_sampleStep
    (op : Jobs.Op)
    (files : JobFiles) :
    Effect Never (fun _ _ => True) op files (sampleStep false op files).1
      (sampleStep false op files).2 := by
  cases op with
  | file op =>
      cases op with
      | list directory =>
          refine Or.inl ⟨_, rfl, rfl, files.keys.nodup_toList.filter _, ?_⟩
          intro path
          rw [List.mem_filter, Finset.mem_toList, Finmap.mem_keys, and_comm]
          simp
      | syncDirectory directory => cases directory <;> exact Or.inl rfl
      | _ => exact Or.inl rfl
  | unixTimestamp => exact ⟨by simp [sampleStep], rfl⟩
  | newJobId now => exact ⟨(by decide : isJobId "j" = true), trivial, rfl⟩

/-- A step of the sample. -/
abbrev Goes (event : Event Unit) : World Unit → World Unit → Prop :=
  Step id (fun _ _ => True) event

def opened : World Unit :=
  ⟨∅, ∅, fun _ => none, fun _ => none, .new, fun _ => none⟩

theorem opened_initial : Initial opened := by
  refine ⟨⟨rfl, ?_, fun _ => rfl, fun _ => rfl⟩, fun _ => rfl, rfl,
    fun _ => rfl⟩
  rintro id job ⟨⟩

def prefetch : JobRequest :=
  ⟨.prefetch, .model, some "org/model", some "main", none, none⟩

noncomputable def submission : Except String (Job × Bool) × JobFiles :=
  (submit id ∅ prefetch none ⟨"bearer", none, none⟩).run.run
    (sampleStep false) ∅

/-- A prefetch was submitted. -/
noncomputable def submitted : World Unit :=
  opened.follow
    { opened.manager with
      jobs := (∅ : ActiveJobs).afterSubmit submission.1
      files := submission.2
      thread := spawn (fun _ => none) submission.1 }

theorem goes_submitted : Goes .other opened submitted :=
  .submit (.submit (Program.runs_run effect_sampleStep _ _))

noncomputable def starting : (ActiveJobs × Option Job) × JobFiles :=
  (update submitted.jobs "j" Job.start).run (sampleStep false)
    submitted.files

/-- Its thread has started it. -/
noncomputable def started : World Unit :=
  (submitted.follow
    { submitted.manager with
      jobs := starting.1.1
      files := starting.2
      thread := Function.update submitted.thread "j"
        (afterStart starting.1.2) }).setWork "j" .preparing

theorem goes_started : Goes .other submitted started := by
  refine .start (.start ?_ (Program.runs_run effect_sampleStep _ _)) ?_
  · exact (by decide +kernel : submitted.thread "j" = some .spawned)
  · exact (by decide +kernel : started.thread "j" = some .working)

noncomputable def job : Job :=
  (started.jobs.lookup "j").get (by decide +kernel)

theorem preparing_started : started.work "j" = some .preparing := by
  simp only [started, World.setWork, Function.update_self]

theorem lookup_job : started.jobs.lookup "j" = some job :=
  (Option.some_get _).symm

theorem record_job : durable started.files "j" = some job := by
  rw [← lookup_job]
  decide +kernel

noncomputable def request : Request :=
  (request? job).get (by decide +kernel)

theorem request_job : request? job = some request :=
  (Option.some_get _).symm

/-- The prefetch has its flight. -/
noncomputable def joined : Acquisitions := (Acquisitions.new.join request).2

/-- The flight is registered. -/
noncomputable def registered : Acquisitions :=
  joined.register 0 ⟨request, .starting⟩

theorem matching_registered :
    registered.matching (target job) = some 0 := by
  have same : request.target = target job := by decide +kernel
  rw [Acquisitions.matching]
  simp [registered, joined, Acquisitions.register, Acquisitions.advance,
    Acquisitions.join, Acquisitions.new, same]

/-- A world with these calls, in which the thread of the prefetch waits. -/
noncomputable def waiting
    (acquisitions : Acquisitions)
    (call : Unit → Option Call) :
    World Unit :=
  { started with
    work := Function.update started.work "j" (some (.waiting 0))
    acquisitions := acquisitions
    call := call }

theorem goes_joined
    (call : Unit → Option Call) :
    Goes .other { started with call := call } (waiting joined call) :=
  .join (by decide +kernel : started.thread "j" = some .working)
    preparing_started record_job request_job

theorem goes_registered
    (call : Unit → Option Call) :
    Goes .other (waiting joined call) (waiting registered call) :=
  .acquire (.register _ 0 ⟨request, .starting⟩ rfl rfl)

theorem work_waiting
    {acquisitions : Acquisitions}
    {call : Unit → Option Call} :
    (waiting acquisitions call).work "j" = some (.waiting 0) := by
  simp only [waiting, Function.update_self]

end Sample

end InFlight
end ModelKeep
