import ModelKeep.Jobs.Records
import Mathlib.Logic.Relation

/-!
# The life of a job

Submissions, the threads of the jobs and cancellations, in any order.  Each of
them reads and writes the records below the lock of the active jobs, from the
first look to the last write, so that one step of the system is one such
section; any step of `persist` may fail in it.

The two copies of a job stay the same as long as no directory sync fails after
the rename it follows, and a job whose thread has returned is over as long as
its last record could be written.
-/

namespace ModelKeep
namespace Jobs

open Concurrency Program

/-! ## Transitions -/

/-- A transition was made in memory and on disk, or in neither; a directory
sync that fails leaves it on disk alone. -/
inductive Moves
    (faulty : FileOp → Prop)
    (jobs : ActiveJobs)
    (before after : JobFiles)
    (previous snapshot : Job) :
    ActiveJobs → Prop
  | made
      (written : after.lookup (.record snapshot.id) =
        some ⟨some (.job snapshot), true⟩) :
      Moves faulty jobs before after previous snapshot
        (if snapshot.state.isActive then jobs.insert snapshot.id snapshot
          else jobs.erase snapshot.id)
  | undone
      (failed : ∃ op, faulty op ∧ op ≠ .syncDirectory .jobs)
      (kept : after.lookup (.record snapshot.id) =
        before.lookup (.record snapshot.id)) :
      Moves faulty jobs before after previous snapshot
        (jobs.insert snapshot.id previous)
  | torn
      (failed : faulty (.syncDirectory .jobs)) :
      Moves faulty jobs before after previous snapshot
        (jobs.insert snapshot.id previous)

/-- The records of the other jobs are as they were. -/
def OnlyRecord (id : String) (before after : JobFiles) : Prop :=
  ∀ other, other ≠ id →
    after.lookup (.record other) = before.lookup (.record other)

section steps

variable {faulty : FileOp → Prop} {draws : JobFiles → String → Prop}
  {jobs : ActiveJobs} {before after : JobFiles}

/-- Writing a snapshot either makes the transition or takes it back. -/
theorem Moves.of_persist
    (jobs : ActiveJobs)
    (previous : Job)
    {snapshot : Job}
    {outcome : Except ArchiveError Unit}
    (returns : Returns (Effect faulty draws) (persist snapshot) before
      outcome after) :
    Moves faulty jobs before after previous snapshot
      (match outcome with
      | .ok _ =>
          if snapshot.state.isActive then jobs.insert snapshot.id snapshot
          else jobs.erase snapshot.id
      | .error _ => jobs.insert snapshot.id previous) := by
  have writes := (returns_persist returns).writes
  cases outcome with
  | ok _ => exact .made writes
  | error error =>
      rcases writes with ⟨failed, kept⟩ | ⟨failed, _⟩
      · exact .undone failed kept
      · exact .torn failed

/-- What `update` does to a job that is active, and what it hands back. -/
theorem runs_update
    {id : String}
    {change : Nat → Job → Job}
    {previous : Job}
    {result : ActiveJobs × Option Job}
    (active : jobs.lookup id = some previous)
    (named : ∀ now, (change now previous).id = id)
    (run : (update jobs id change).Runs (Effect faulty draws) before result
      after) :
    ∃ now updatedAt, Moves faulty jobs before after previous
        { change now previous with updatedAt := updatedAt } result.1 ∧
      OnlyRecord id before after ∧
      (result.2 = some { change now previous with updatedAt := updatedAt } ∨
        result.2 = some previous) := by
  unfold update at run
  rw [active] at run
  obtain ⟨now, clocked, clock, first⟩ := (runs_bind ..).mp run
  obtain ⟨_, rfl⟩ := runs_unixTimestamp.mp clock
  obtain ⟨updatedAt, start, stamp, second⟩ := (runs_bind ..).mp first
  obtain ⟨_, rfl⟩ := runs_unixTimestamp.mp stamp
  obtain ⟨outcome, written, persisted, last⟩ := (runs_bind ..).mp second
  have moves := Moves.of_persist jobs previous persisted
  have others : OnlyRecord id start written := by
    intro other different
    apply (returns_persist persisted).others
    rw [named]
    exact different
  rw [named] at moves
  refine ⟨now, updatedAt, ?_⟩
  cases outcome with
  | ok _ =>
      dsimp only at last moves
      split at last <;> obtain ⟨rfl, rfl⟩ := last
      · next stays =>
          rw [if_pos stays] at moves
          exact ⟨moves, others, Or.inl rfl⟩
      · next ends =>
          rw [if_neg ends] at moves
          exact ⟨moves, others, Or.inl rfl⟩
  | error error =>
      obtain ⟨rfl, rfl⟩ := last
      exact ⟨moves, others, Or.inr rfl⟩

theorem runs_cancelRecord
    {id : String}
    {previous : Job}
    {result : ActiveJobs × Option (Except String Job)}
    (active : jobs.lookup id = some previous)
    (named : previous.id = id)
    (run : (cancelRecord jobs id).Runs (Effect faulty draws) before result
      after) :
    ∃ now, Moves faulty jobs before after previous (previous.cancel now)
        result.1 ∧
      OnlyRecord id before after := by
  unfold cancelRecord at run
  rw [active] at run
  obtain ⟨now, start, clock, first⟩ := (runs_bind ..).mp run
  obtain ⟨_, rfl⟩ := runs_unixTimestamp.mp clock
  obtain ⟨outcome, written, persisted, last⟩ := (runs_bind ..).mp first
  have moves := Moves.of_persist jobs previous persisted
  have others : OnlyRecord id start written := by
    intro other different
    apply (returns_persist persisted).others
    exact fun same => different (same.trans named)
  have same : (previous.cancel now).id = id := named
  rw [same] at moves
  refine ⟨now, ?_⟩
  cases outcome with
  | ok _ =>
      obtain ⟨rfl, rfl⟩ := last
      exact ⟨moves, others⟩
  | error error =>
      obtain ⟨rfl, rfl⟩ := last
      exact ⟨moves, others⟩

end steps

/-! ## Memory and disk -/

/-- The active jobs are the records that are queued or running. -/
def Agree (jobs : ActiveJobs) (files : JobFiles) : Prop :=
  ∀ id, jobs.lookup id =
    (durable files id).filter fun job => job.state.isActive

/-- The moves of a record: nothing, to queued, and from an active state to any
but back from running to queued. -/
inductive Moved : Option Job → Option Job → Prop
  | same (record : Option Job) : Moved record record
  | queued {job : Job} (state : job.state = .queued) : Moved none (some job)
  | on
      {old new : Job}
      (active : old.state.isActive = true)
      (forward : old.state = .running → new.state ≠ .queued)
      (same : new.identity = old.identity) :
      Moved (some old) (some new)

theorem Agree.active
    {jobs : ActiveJobs}
    {files : JobFiles}
    {id : String}
    {job : Job}
    (agree : Agree jobs files)
    (present : jobs.lookup id = some job) :
    durable files id = some job ∧ job.state.isActive = true := by
  rw [agree, Option.filter_eq_some_iff] at present
  exact present

/-- A transition that is not torn keeps the two copies the same. -/
theorem Moves.agree
    {faulty : FileOp → Prop}
    {jobs moved : ActiveJobs}
    {before after : JobFiles}
    {previous snapshot : Job}
    (moves : Moves faulty jobs before after previous snapshot moved)
    (whole : ¬faulty (.syncDirectory .jobs))
    (agree : Agree jobs before)
    (active : jobs.lookup snapshot.id = some previous)
    (others : OnlyRecord snapshot.id before after) :
    Agree moved after ∧
      (durable after snapshot.id = some snapshot ∨
        (∃ op, faulty op) ∧
          durable after snapshot.id = durable before snapshot.id) := by
  cases moves with
  | made written =>
      have record : durable after snapshot.id = some snapshot := by
        rw [durable, written]
      refine ⟨?_, Or.inl record⟩
      intro id
      by_cases same : id = snapshot.id
      · rw [same, record, Option.filter_some]
        split
        · exact Finmap.lookup_insert _
        · exact Finmap.lookup_erase _ _
      · rw [durable_congr (others id same), ← agree]
        split
        · exact Finmap.lookup_insert_of_ne _ same
        · exact Finmap.lookup_erase_ne same
  | undone failed kept =>
      obtain ⟨op, fault, _⟩ := failed
      refine ⟨?_, Or.inr ⟨⟨op, fault⟩, durable_congr kept⟩⟩
      intro id
      by_cases same : id = snapshot.id
      · rw [same, durable_congr kept, ← agree, active, Finmap.lookup_insert]
      · rw [durable_congr (others id same), ← agree]
        exact Finmap.lookup_insert_of_ne _ same
  | torn failed => exact absurd failed whole

/-! ## Interleavings -/

/-- How far the thread of a job has come. -/
inductive Thread
  | spawned
  /-- Between its first transition and its last. -/
  | working
  | returned
  deriving DecidableEq

/-- The job manager, the threads it spawned, and the callers of `cancel` with
the job they looked up. -/
structure System (κ : Type) where
  jobs : ActiveJobs
  files : JobFiles
  thread : String → Option Thread
  asked : κ → Option Job

inductive Label (κ : Type)
  | submit
  | start (id : String)
  | progress (id : String)
  | finish (id : String)
  | look (caller : κ)
  | cancel (caller : κ)
  | leave (caller : κ)

/-- A new job has its thread. -/
def spawn
    (thread : String → Option Thread) :
    Except String (Job × Bool) → String → Option Thread
  | .ok (job, true) => Function.update thread job.id (some .spawned)
  | _ => thread

/-- What `run` does once its first transition is made. -/
def afterStart : Option Job → Thread
  | none => .returned
  | some job => if job.state = .cancelled then .returned else .working

/-- One section below the lock.  Between the look and the transition of a
cancellation the acquisition was asked; it may have answered anything. -/
inductive Step
    {κ : Type}
    [DecidableEq κ]
    (digest : String → String)
    (draws : JobFiles → String → Prop)
    (faulty : FileOp → Prop) :
    Label κ → System κ → System κ → Prop
  | submit
      {s : System κ}
      {request : JobRequest}
      {key : Option String}
      {principal : PrincipalView}
      {outcome : Except String (Job × Bool)}
      {files : JobFiles}
      (returns : Returns (Effect faulty draws)
        (submit digest s.jobs request key principal) s.files outcome files) :
      Step digest draws faulty .submit s
        { s with
          jobs := s.jobs.afterSubmit outcome
          files := files
          thread := spawn s.thread outcome }
  | start
      {s : System κ}
      {id : String}
      {result : ActiveJobs × Option Job}
      {files : JobFiles}
      (thread : s.thread id = some .spawned)
      (run : (update s.jobs id Job.start).Runs (Effect faulty draws) s.files
        result files) :
      Step digest draws faulty (.start id) s
        { s with
          jobs := result.1
          files := files
          thread := Function.update s.thread id (afterStart result.2) }
  | progress
      {s : System κ}
      {id : String}
      {event : FetchProgress}
      {result : ActiveJobs × Option Job}
      {files : JobFiles}
      (thread : s.thread id = some .working ∨ s.thread id = some .returned)
      (run : (update s.jobs id (Job.progress event)).Runs
        (Effect faulty draws) s.files result files) :
      Step digest draws faulty (.progress id) s
        { s with jobs := result.1, files := files }
  | finish
      {s : System κ}
      {id : String}
      {outcome : JobRunResult}
      {result : ActiveJobs × Option Job}
      {files : JobFiles}
      (thread : s.thread id = some .working)
      (run : (update s.jobs id (Job.finish outcome)).Runs
        (Effect faulty draws) s.files result files) :
      Step digest draws faulty (.finish id) s
        { s with
          jobs := result.1
          files := files
          thread := Function.update s.thread id (some .returned) }
  | look
      {s : System κ}
      {caller : κ}
      {id : String}
      {job : Job}
      (found : s.jobs.lookup id = some job) :
      Step digest draws faulty (.look caller) s
        { s with asked := Function.update s.asked caller (some job) }
  | cancel
      {s : System κ}
      {caller : κ}
      {job : Job}
      {result : ActiveJobs × Option (Except String Job)}
      {files : JobFiles}
      (asked : s.asked caller = some job)
      (run : (cancelRecord s.jobs job.id).Runs (Effect faulty draws) s.files
        result files) :
      Step digest draws faulty (.cancel caller) s
        { s with
          jobs := result.1
          files := files
          asked := Function.update s.asked caller none }
  | leave
      {s : System κ}
      {caller : κ} :
      Step digest draws faulty (.leave caller) s
        { s with asked := Function.update s.asked caller none }

/-- What the system starts from: nothing is active, and no record is. -/
structure Initial {κ : Type} (s : System κ) : Prop where
  jobs : s.jobs = ∅
  records : ∀ id job, durable s.files id = some job →
    job.state.isActive = false
  thread : ∀ id, s.thread id = none
  asked : ∀ caller, s.asked caller = none

/-- Memory and disk agree, and a thread that returned left its job ended. -/
structure Sound {κ : Type} (s : System κ) : Prop where
  agree : Agree s.jobs s.files
  returned : ∀ id, s.thread id = some .returned →
    ∃ job, durable s.files id = some job ∧ job.state.isActive = false

/-- What is kept besides: active jobs are filed under their ids, threads have
records, and a job is queued until its thread starts it. -/
structure Tidy {κ : Type} (s : System κ) : Prop where
  named : ∀ id job, s.jobs.lookup id = some job → job.id = id
  filed : ∀ id, s.thread id ≠ none → durable s.files id ≠ none
  queued : ∀ id job, s.thread id = some .spawned →
    s.jobs.lookup id = some job → job.state = .queued

/-- No directory sync fails after its rename, and the last record of a job that
is active is written. -/
def Careful {κ : Type} (faulty : FileOp → Prop) (s : System κ) :
    Label κ → Prop
  | .finish id => id ∈ s.jobs → ∀ op, ¬faulty op
  | _ => ¬faulty (.syncDirectory .jobs)

section moved

theorem Moved.present
    {old new : Option Job}
    (moved : Moved old new)
    (present : old ≠ none) :
    new ≠ none := by
  cases moved with
  | same => exact present
  | queued state => exact absurd rfl present
  | on => simp

/-- A record that has ended stays as it is. -/
theorem Moved.ended
    {job : Job}
    {new : Option Job}
    (moved : Moved (some job) new)
    (ended : job.state.isActive = false) :
    new = some job := by
  cases moved with
  | same => rfl
  | on active => exact absurd active (by simp [ended])

end moved

section transitions

variable {κ : Type} {faulty : FileOp → Prop}
  {draws : JobFiles → String → Prop} {s : System κ}

/-- What a transition of one active job leaves in memory and on disk. -/
structure Transition
    (s : System κ)
    (id : String)
    (snapshot : Job)
    (jobs : ActiveJobs)
    (files : JobFiles) :
    Prop where
  agree : Agree jobs files
  moved : ∀ other, Moved (durable s.files other) (durable files other)
  named : ∀ other job, jobs.lookup other = some job → job.id = other
  others : ∀ other, other ≠ id → jobs.lookup other = s.jobs.lookup other
  here : jobs.lookup id = s.jobs.lookup id ∨ durable files id = some snapshot

theorem Moves.transition
    {id : String}
    {previous snapshot : Job}
    {jobs : ActiveJobs}
    {files : JobFiles}
    (agree : Agree s.jobs s.files)
    (tidy : Tidy s)
    (whole : ¬faulty (.syncDirectory .jobs))
    (active : s.jobs.lookup id = some previous)
    (same : snapshot.identity = previous.identity)
    (forward : previous.state = .running → snapshot.state ≠ .queued)
    (moves : Moves faulty s.jobs s.files files previous snapshot jobs)
    (others : OnlyRecord id s.files files) :
    Transition s id snapshot jobs files ∧
      ((∀ op, ¬faulty op) → durable files id = some snapshot) := by
  have sameId : snapshot.id = id :=
    (congrArg Job.Identity.id same).trans (tidy.named id previous active)
  subst sameId
  obtain ⟨agreed, record⟩ := moves.agree whole agree active others
  have elsewhere : ∀ other, other ≠ snapshot.id →
      jobs.lookup other = s.jobs.lookup other := by
    intro other different
    rw [agreed, agree, durable_congr (others other different)]
  have here : jobs.lookup snapshot.id = s.jobs.lookup snapshot.id ∨
      durable files snapshot.id = some snapshot := by
    rcases record with written | ⟨_, kept⟩
    · exact Or.inr written
    · left
      rw [agreed, agree, kept]
  refine ⟨⟨agreed, ?_, ?_, elsewhere, here⟩, ?_⟩
  · intro other
    by_cases equal : other = snapshot.id
    · obtain ⟨old, running⟩ := agree.active active
      rw [equal]
      rcases record with written | ⟨_, kept⟩
      · rw [written, old]
        exact .on running forward same
      · rw [kept]
        exact .same _
    · rw [durable_congr (others other equal)]
      exact .same _
  · intro other job present
    by_cases equal : other = snapshot.id
    · rw [equal] at present ⊢
      rcases here with kept | written
      · exact tidy.named _ job (kept ▸ present)
      · have found := (agreed.active present).1
        rw [written] at found
        cases found
        rfl
    · rw [elsewhere other equal] at present
      exact tidy.named other job present
  · intro healthy
    rcases record with written | ⟨⟨op, fault⟩, _⟩
    · exact written
    · exact absurd fault (healthy op)

/-- `update` makes its transition, or does not, or finds no job. -/
theorem transition_of_update
    {id : String}
    {change : Nat → Job → Job}
    {result : ActiveJobs × Option Job}
    {files : JobFiles}
    (agree : Agree s.jobs s.files)
    (tidy : Tidy s)
    (whole : id ∈ s.jobs → ¬faulty (.syncDirectory .jobs))
    (same : ∀ now job, (change now job).identity = job.identity)
    (forward : ∀ now job, s.jobs.lookup id = some job →
      job.state = .running → (change now job).state ≠ .queued)
    (run : (update s.jobs id change).Runs (Effect faulty draws) s.files
      result files) :
    (s.jobs.lookup id = none ∧ result = (s.jobs, none) ∧ files = s.files) ∨
      ∃ previous now updatedAt, s.jobs.lookup id = some previous ∧
        Transition s id { change now previous with updatedAt := updatedAt }
          result.1 files ∧
        ((∀ op, ¬faulty op) → durable files id =
          some { change now previous with updatedAt := updatedAt }) ∧
        (result.2 =
            some { change now previous with updatedAt := updatedAt } ∨
          result.2 = some previous) := by
  cases active : s.jobs.lookup id with
  | none =>
      unfold update at run
      rw [active] at run
      obtain ⟨rfl, rfl⟩ := run
      exact Or.inl ⟨rfl, rfl, rfl⟩
  | some previous =>
      right
      have named : ∀ now, (change now previous).id = id := fun now =>
        (congrArg Job.Identity.id (same now previous)).trans
          (tidy.named id previous active)
      obtain ⟨now, updatedAt, moves, others, answer⟩ :=
        runs_update active named run
      refine ⟨previous, now, updatedAt, rfl, ?_⟩
      rw [← and_assoc]
      refine ⟨moves.transition agree tidy ?_ active ?_ ?_ others, answer⟩
      · exact whole (Finmap.mem_iff.mpr ⟨previous, active⟩)
      · exact same now previous
      · exact forward now previous active

theorem state_progress_of_running
    {event : FetchProgress}
    {now : Nat}
    {job : Job}
    (running : job.state = .running) :
    (job.progress event now).state ≠ .queued := by
  rw [Job.state_progress, running]
  simp

end transitions

section steps

variable {κ : Type} {s t : System κ}

/-- A transition that leaves no spawned thread with a job that moved. -/
theorem Tidy.of_transition
    {id : String}
    {snapshot : Job}
    (tidy : Tidy s)
    (transition : Transition s id snapshot t.jobs t.files)
    (filed : ∀ other, t.thread other ≠ none → s.thread other ≠ none)
    (spawned : ∀ other, t.thread other = some .spawned →
      s.thread other = some .spawned)
    (settled : t.thread id = some .spawned →
      snapshot.state.isActive = false) :
    Tidy t := by
  refine ⟨transition.named, ?_, ?_⟩
  · intro other present
    exact (transition.moved other).present
      (tidy.filed other (filed other present))
  · intro other job waiting present
    by_cases same : other = id
    · rw [same] at waiting present
      rcases transition.here with kept | written
      · exact tidy.queued id job (spawned id waiting) (kept ▸ present)
      · obtain ⟨found, active⟩ := transition.agree.active present
        rw [written] at found
        cases found
        rw [settled waiting] at active
        cases active
    · rw [transition.others other same] at present
      exact tidy.queued other job (spawned other waiting) present

/-- A thread that had returned still has its ended record. -/
theorem Sound.ended
    {id : String}
    (sound : Sound s)
    (moved : ∀ other, Moved (durable s.files other) (durable t.files other))
    (returned : s.thread id = some .returned) :
    ∃ job, durable t.files id = some job ∧ job.state.isActive = false := by
  obtain ⟨job, record, ended⟩ := sound.returned id returned
  have later := moved id
  rw [record] at later
  exact ⟨job, later.ended ended, ended⟩

/-- What every careful step keeps, and how it moves the records. -/
structure Kept (s t : System κ) : Prop where
  sound : Sound t
  tidy : Tidy t
  moved : ∀ id, Moved (durable s.files id) (durable t.files id)

/-- A step of the thread of a job, or of a cancellation. -/
theorem Kept.of_transition
    {id : String}
    {snapshot : Job}
    (sound : Sound s)
    (tidy : Tidy s)
    (transition : Transition s id snapshot t.jobs t.files)
    (elsewhere : ∀ other, other ≠ id → t.thread other = s.thread other)
    (filed : t.thread id ≠ none → s.thread id ≠ none)
    (spawned : t.thread id = some .spawned → s.thread id = some .spawned ∧
      snapshot.state.isActive = false)
    (returned : t.thread id = some .returned →
      s.thread id = some .returned ∨
        ∃ job, durable t.files id = some job ∧
          job.state.isActive = false) :
    Kept s t := by
  refine ⟨⟨transition.agree, ?_⟩, ?_, transition.moved⟩
  · intro other ceased
    by_cases same : other = id
    · rw [same] at ceased ⊢
      rcases returned ceased with before | ended
      · exact sound.ended transition.moved before
      · exact ended
    · rw [elsewhere other same] at ceased
      exact sound.ended transition.moved ceased
  · refine tidy.of_transition transition ?_ ?_ fun waiting =>
      (spawned waiting).2
    · intro other present
      by_cases same : other = id
      · rw [same] at present ⊢
        exact filed present
      · rw [← elsewhere other same]
        exact present
    · intro other waiting
      by_cases same : other = id
      · rw [same] at waiting ⊢
        exact (spawned waiting).1
      · rw [← elsewhere other same]
        exact waiting

/-- A step that leaves memory and the records as they are. -/
theorem Kept.of_same
    (sound : Sound s)
    (tidy : Tidy s)
    (jobs : t.jobs = s.jobs)
    (records : ∀ id, t.files.lookup (.record id) =
      s.files.lookup (.record id))
    (waiting : ∀ id, t.thread id = some .spawned →
      s.thread id = some .spawned)
    (filed : ∀ id, t.thread id ≠ none → s.thread id ≠ none)
    (returned : ∀ id, t.thread id = some .returned →
      s.thread id = some .returned ∨
        ∃ job, durable s.files id = some job ∧
          job.state.isActive = false) :
    Kept s t := by
  have same : ∀ id, durable t.files id = durable s.files id :=
    fun id => durable_congr (records id)
  refine ⟨⟨?_, ?_⟩, ⟨?_, ?_, ?_⟩, ?_⟩
  · intro id
    rw [jobs, same, sound.agree]
  · intro id ceased
    rw [same]
    rcases returned id ceased with before | ended
    · exact sound.returned id before
    · exact ended
  · rw [jobs]
    exact tidy.named
  · intro id present
    rw [same]
    exact tidy.filed id (filed id present)
  · intro id job spawned
    rw [jobs]
    exact tidy.queued id job (waiting id spawned)
  · intro id
    rw [same]
    exact .same _

/-- A thread finds that its job has ended. -/
theorem Kept.of_absent
    {id : String}
    {stage : Thread}
    (sound : Sound s)
    (tidy : Tidy s)
    (absent : s.jobs.lookup id = none)
    (started : s.thread id ≠ none)
    (later : stage ≠ .spawned) :
    Kept s { s with thread := Function.update s.thread id (some stage) } := by
  refine .of_same sound tidy rfl (fun _ => rfl) ?_ ?_ ?_
  · intro other waiting
    by_cases same : other = id
    · simp only [same, Function.update_self, Option.some.injEq] at waiting
      exact absurd waiting later
    · simpa [Function.update_of_ne same] using waiting
  · intro other present
    by_cases same : other = id
    · rw [same]
      exact started
    · simpa [Function.update_of_ne same] using present
  · intro other returned
    by_cases same : other = id
    · right
      obtain ⟨job, record⟩ :=
        Option.ne_none_iff_exists'.mp (tidy.filed id started)
      refine ⟨job, same ▸ record, ?_⟩
      have inactive := sound.agree id
      rw [absent, record, Option.filter_some] at inactive
      simpa using inactive
    · left
      simpa [Function.update_of_ne same] using returned

/-- A submission that made a job. -/
theorem Kept.of_created
    {job : Job}
    (sound : Sound s)
    (tidy : Tidy s)
    (queued : job.state = .queued)
    (free : s.files.lookup (.record job.id) = none)
    (record : t.files.lookup (.record job.id) =
      some ⟨some (.job job), true⟩)
    (others : OnlyRecord job.id s.files t.files)
    (jobs : t.jobs = s.jobs.insert job.id job)
    (thread : t.thread =
      Function.update s.thread job.id (some .spawned)) :
    Kept s t := by
  have before : durable s.files job.id = none := by
    rw [durable, free]
  have after : durable t.files job.id = some job := by
    rw [durable, record]
  have active : job.state.isActive = true := by
    rw [queued]
    rfl
  have moved : ∀ id, Moved (durable s.files id) (durable t.files id) := by
    intro id
    by_cases same : id = job.id
    · rw [same, before, after]
      exact .queued queued
    · rw [durable_congr (others id same)]
      exact .same _
  refine ⟨⟨?_, ?_⟩, ⟨?_, ?_, ?_⟩, moved⟩
  · intro id
    rw [jobs]
    by_cases same : id = job.id
    · rw [same, Finmap.lookup_insert, after, Option.filter_some,
        if_pos active]
    · rw [Finmap.lookup_insert_of_ne _ same, sound.agree,
        durable_congr (others id same)]
  · intro id ceased
    by_cases same : id = job.id
    · rw [thread, same, Function.update_self] at ceased
      cases ceased
    · rw [thread, Function.update_of_ne same] at ceased
      exact sound.ended moved ceased
  · intro id found present
    by_cases same : id = job.id
    · rw [jobs, same, Finmap.lookup_insert] at present
      cases present
      exact same.symm
    · rw [jobs, Finmap.lookup_insert_of_ne _ same] at present
      exact tidy.named id found present
  · intro id present
    by_cases same : id = job.id
    · rw [same, after]
      simp
    · rw [thread, Function.update_of_ne same] at present
      exact (moved id).present (tidy.filed id present)
  · intro id found spawned present
    by_cases same : id = job.id
    · rw [jobs, same, Finmap.lookup_insert] at present
      cases present
      exact queued
    · rw [thread, Function.update_of_ne same] at spawned
      rw [jobs, Finmap.lookup_insert_of_ne _ same] at present
      exact tidy.queued id found spawned present

variable {faulty : FileOp → Prop} {draws : JobFiles → String → Prop}

/-- The thread of a job makes its first transition. -/
theorem kept_start
    {id : String}
    {result : ActiveJobs × Option Job}
    {files : JobFiles}
    (whole : ¬faulty (.syncDirectory .jobs))
    (sound : Sound s)
    (tidy : Tidy s)
    (thread : s.thread id = some .spawned)
    (run : (update s.jobs id Job.start).Runs (Effect faulty draws) s.files
      result files) :
    Kept s
      { s with
        jobs := result.1
        files := files
        thread := Function.update s.thread id (afterStart result.2) } := by
  have started : s.thread id ≠ none := by
    rw [thread]
    simp
  rcases transition_of_update sound.agree tidy (fun _ => whole)
      (fun _ _ => Job.identity_start ..) (fun now job active running => by
        rw [tidy.queued id job thread active] at running
        cases running) run with
    ⟨absent, rfl, rfl⟩ |
      ⟨previous, now, updatedAt, active, transition, _, answer⟩
  · exact .of_absent sound tidy absent started nofun
  · have going : afterStart result.2 = .working := by
      have queued := tidy.queued id previous thread active
      rcases answer with same | same
      · rw [same, afterStart, if_neg]
        exact Job.state_start (by simp [queued])
      · rw [same, afterStart, if_neg]
        simp [queued]
    rw [going]
    refine .of_transition sound tidy transition
      (fun _ different => Function.update_of_ne different ..)
      (fun _ => started) ?_ ?_ <;>
    · intro wrong
      dsimp only at wrong
      rw [Function.update_self] at wrong
      cases wrong

/-- The thread of a job makes its last transition. -/
theorem kept_finish
    {id : String}
    {outcome : JobRunResult}
    {result : ActiveJobs × Option Job}
    {files : JobFiles}
    (healthy : id ∈ s.jobs → ∀ op, ¬faulty op)
    (sound : Sound s)
    (tidy : Tidy s)
    (thread : s.thread id = some .working)
    (run : (update s.jobs id (Job.finish outcome)).Runs
      (Effect faulty draws) s.files result files) :
    Kept s
      { s with
        jobs := result.1
        files := files
        thread := Function.update s.thread id (some .returned) } := by
  have started : s.thread id ≠ none := by
    rw [thread]
    simp
  rcases transition_of_update sound.agree tidy
      (fun active => healthy active _) (fun _ _ => Job.identity_finish ..)
      (fun now job _ _ queued => by
        have ended := Job.state_finish outcome now job
        rw [queued] at ended
        cases ended) run with
    ⟨absent, rfl, rfl⟩ |
      ⟨previous, now, updatedAt, active, transition, written, _⟩
  · exact .of_absent sound tidy absent started nofun
  · have record := written (healthy (Finmap.mem_iff.mpr ⟨previous, active⟩))
    refine .of_transition sound tidy transition
      (fun _ different => Function.update_of_ne different ..)
      (fun _ => started) ?_ ?_
    · intro wrong
      dsimp only at wrong
      rw [Function.update_self] at wrong
      cases wrong
    · intro _
      exact Or.inr ⟨_, record, Job.state_finish ..⟩

theorem Initial.sound
    (initial : Initial s) :
    Sound s ∧ Tidy s := by
  refine ⟨⟨?_, ?_⟩, ⟨?_, ?_, ?_⟩⟩
  · intro id
    rw [initial.jobs, Finmap.lookup_empty]
    cases record : durable s.files id with
    | none => rfl
    | some job =>
        rw [Option.filter_some, if_neg]
        simp [initial.records id job record]
  · simp [initial.thread]
  · simp [initial.jobs]
  · simp [initial.thread]
  · simp [initial.thread]

variable [DecidableEq κ] {digest : String → String}

/-- A careful step keeps memory and disk the same, and moves every record
forward. -/
theorem Step.kept
    {label : Label κ}
    (limited : ∀ op, faulty op → PersistStep op)
    (careful : Careful faulty s label)
    (sound : Sound s)
    (tidy : Tidy s)
    (step : Step digest draws faulty label s t) :
    Kept s t := by
  cases step with
  | submit returns =>
      have submits := returns_submit limited returns
      next outcome _ =>
      match outcome, submits with
      | .ok (job, true), ⟨_, queued, free, record, others⟩ =>
          exact .of_created sound tidy queued free record others rfl rfl
      | .ok (job, false), same =>
          exact .of_same sound tidy rfl (same.resolve_right careful)
            (fun _ => id) (fun _ => id) fun _ => Or.inl
      | .error error, same =>
          exact .of_same sound tidy rfl (same.resolve_right careful)
            (fun _ => id) (fun _ => id) fun _ => Or.inl
  | start thread run =>
      exact kept_start careful sound tidy thread run
  | progress thread run =>
      rcases transition_of_update sound.agree tidy (fun _ => careful)
          (fun _ _ => Job.identity_progress ..)
          (fun _ _ _ => state_progress_of_running) run with
        ⟨_, rfl, rfl⟩ | ⟨previous, now, updatedAt, _, transition, _⟩
      · exact .of_same sound tidy rfl (fun _ => rfl) (fun _ => id)
          (fun _ => id) fun _ => Or.inl
      · refine .of_transition sound tidy transition (fun _ _ => rfl) id ?_
          Or.inl
        intro spawned
        rcases thread with working | returned
        · cases working.symm.trans spawned
        · cases returned.symm.trans spawned
  | finish thread run =>
      exact kept_finish careful sound tidy thread run
  | look found =>
      exact .of_same sound tidy rfl (fun _ => rfl) (fun _ => id)
        (fun _ => id) fun _ => Or.inl
  | cancel asked run =>
      next job _ _ =>
      cases active : s.jobs.lookup job.id with
      | none =>
          unfold cancelRecord at run
          rw [active] at run
          obtain ⟨rfl, rfl⟩ := run
          exact .of_same sound tidy rfl (fun _ => rfl) (fun _ => id)
            (fun _ => id) fun _ => Or.inl
      | some previous =>
          obtain ⟨now, moves, others⟩ := runs_cancelRecord active
            (tidy.named job.id previous active) run
          obtain ⟨transition, _⟩ := moves.transition sound.agree tidy careful
            active (Job.identity_cancel ..) (fun _ => by simp [Job.cancel])
            others
          exact .of_transition sound tidy transition (fun _ _ => rfl) id
            (fun spawned => ⟨spawned, rfl⟩) Or.inl
  | leave =>
      exact .of_same sound tidy rfl (fun _ => rfl) (fun _ => id)
        (fun _ => id) fun _ => Or.inl

/-- Some step in which a part of `persist` may fail. -/
def AnyStep
    (digest : String → String)
    (draws : JobFiles → String → Prop)
    (s t : System κ) :
    Prop :=
  ∃ label faulty, (∀ op, faulty op → PersistStep op) ∧
    Step digest draws faulty label s t

/-- Some step in which nothing fails that must not. -/
def CarefulStep
    (digest : String → String)
    (draws : JobFiles → String → Prop)
    (s t : System κ) :
    Prop :=
  ∃ label faulty, (∀ op, faulty op → PersistStep op) ∧
    Careful faulty s label ∧ Step digest draws faulty label s t

/-- Whatever fails in careful runs, memory and disk agree, jobs whose threads
returned have ended, and the records move forward only. -/
theorem lifecycle_of_careful
    (initial : Initial s)
    (run : Relation.ReflTransGen (CarefulStep digest draws) s t) :
    Sound t ∧ ∀ u, CarefulStep digest draws t u →
      ∀ id, Moved (durable t.files id) (durable u.files id) := by
  have reached : Sound t ∧ Tidy t := by
    induction run with
    | refl => exact initial.sound
    | tail _ step inductionHypothesis =>
        obtain ⟨label, faulty, limited, careful, step⟩ := step
        have kept := step.kept limited careful inductionHypothesis.1
          inductionHypothesis.2
        exact ⟨kept.sound, kept.tidy⟩
  refine ⟨reached.1, ?_⟩
  rintro u ⟨label, faulty, limited, careful, step⟩
  exact (step.kept limited careful reached.1 reached.2).moved

end steps

/-! ## A cancellation that is torn -/

section sample

/-- How the steps go, with the directory sync failing or not. -/
noncomputable def sampleStep (torn : Bool) :
    (op : Op) → JobFiles → op.Reply × JobFiles
  | .file (.list directory), files =>
      (.ok (files.keys.toList.filter fun path =>
        path.directory = directory), files)
  | .file (.syncDirectory .jobs), files =>
      if torn then (.error .other, files) else (.ok (), files)
  | .file op, files => Storage.respond op files
  | .unixTimestamp, files => (0, files)
  | .newJobId _, files => ("j", files)

/-- The directory sync may fail. -/
def Torn (torn : Bool) (op : FileOp) : Prop :=
  torn = true ∧ op = .syncDirectory .jobs

theorem effect_sampleStep
    {torn : Bool}
    (op : Op)
    (files : JobFiles) :
    Effect (Torn torn) (fun _ _ => True) op files (sampleStep torn op files).1
      (sampleStep torn op files).2 := by
  cases op with
  | file op =>
      cases op with
      | list directory =>
          refine Or.inl ⟨_, rfl, rfl, files.keys.nodup_toList.filter _, ?_⟩
          intro path
          rw [List.mem_filter, Finset.mem_toList, Finmap.mem_keys, and_comm]
          simp
      | syncDirectory directory =>
          cases directory <;> cases torn
          all_goals first
            | exact Or.inl rfl
            | exact Or.inr ⟨⟨rfl, rfl⟩, rfl⟩
      | _ => exact Or.inl rfl
  | unixTimestamp => exact ⟨by simp [sampleStep], rfl⟩
  | newJobId now => exact ⟨(by decide : isJobId "j" = true), trivial, rfl⟩

def sampleRequest : JobRequest := ⟨.audit, .model, none, none, none, none⟩

noncomputable def sampleSubmit : Except String (Job × Bool) × JobFiles :=
  (submit id ∅ sampleRequest none ⟨"token", none, none⟩).run.run
    (sampleStep false) ∅

/-- An audit was submitted. -/
noncomputable def sampleSubmitted : System Unit :=
  ⟨(∅ : ActiveJobs).afterSubmit sampleSubmit.1, sampleSubmit.2,
    spawn (fun _ => none) sampleSubmit.1, fun _ => none⟩

noncomputable def sampleUpdate
    (change : Nat → Job → Job)
    (s : System Unit) :
    (ActiveJobs × Option Job) × JobFiles :=
  (update s.jobs "j" change).run (sampleStep false) s.files

/-- Its thread started it. -/
noncomputable def sampleStarted : System Unit :=
  { sampleSubmitted with
    jobs := (sampleUpdate Job.start sampleSubmitted).1.1
    files := (sampleUpdate Job.start sampleSubmitted).2
    thread := Function.update sampleSubmitted.thread "j"
      (afterStart (sampleUpdate Job.start sampleSubmitted).1.2) }

noncomputable def sampleLooked : System Unit :=
  { sampleStarted with
    asked := Function.update sampleStarted.asked ()
      (sampleStarted.jobs.lookup "j") }

noncomputable def sampleCancel :
    (ActiveJobs × Option (Except String Job)) × JobFiles :=
  (cancelRecord sampleLooked.jobs "j").run (sampleStep true)
    sampleLooked.files

/-- Its record was cancelled, but the cancellation failed. -/
noncomputable def sampleCancelled : System Unit :=
  { sampleLooked with
    jobs := sampleCancel.1.1
    files := sampleCancel.2
    asked := Function.update sampleLooked.asked () none }

def sampleResult : JobRunResult := .ok (none, none)

/-- The audit came to its end. -/
noncomputable def sampleFinished : System Unit :=
  { sampleCancelled with
    jobs := (sampleUpdate (Job.finish sampleResult) sampleCancelled).1.1
    files := (sampleUpdate (Job.finish sampleResult) sampleCancelled).2
    thread := Function.update sampleCancelled.thread "j" (some .returned) }

/-- A step of the sample. -/
abbrev SampleStep : System Unit → System Unit → Prop :=
  AnyStep id fun _ _ => True

theorem torn_limited
    {torn : Bool}
    (op : FileOp)
    (fault : Torn torn op) :
    PersistStep op := by
  rw [fault.2]
  exact .syncDirectory

theorem sample_initial :
    Initial (⟨∅, ∅, fun _ => none, fun _ => none⟩ : System Unit) := by
  refine ⟨rfl, ?_, fun _ => rfl, fun _ => rfl⟩
  rintro id job ⟨⟩

theorem sample_submit :
    Step id (fun _ _ => True) (Torn false) .submit
      ⟨∅, ∅, fun _ => none, fun _ => none⟩ sampleSubmitted :=
  .submit (runs_run effect_sampleStep _ _)

theorem sample_start :
    Step id (fun _ _ => True) (Torn false) (.start "j") sampleSubmitted
      sampleStarted :=
  .start (by decide +kernel) (runs_run effect_sampleStep _ _)

/-- The audit once it runs. -/
theorem lifecycle_of_started :
    Sound sampleStarted :=
  (lifecycle_of_careful sample_initial
    (.tail (.single ⟨.submit, Torn false, torn_limited, nofun,
      sample_submit⟩) ⟨.start "j", Torn false, torn_limited, nofun,
        sample_start⟩)).1

theorem sample_reaches :
    Relation.ReflTransGen SampleStep
      ⟨∅, ∅, fun _ => none, fun _ => none⟩ sampleCancelled := by
  have submitted : SampleStep ⟨∅, ∅, fun _ => none, fun _ => none⟩
      sampleSubmitted :=
    ⟨.submit, Torn false, torn_limited, sample_submit⟩
  have started : SampleStep sampleSubmitted sampleStarted :=
    ⟨.start "j", Torn false, torn_limited, sample_start⟩
  have looked : SampleStep sampleStarted sampleLooked := by
    obtain ⟨job, found⟩ : ∃ job, sampleStarted.jobs.lookup "j" = some job :=
      Option.isSome_iff_exists.mp (by decide +kernel)
    refine ⟨.look (), Torn false, torn_limited, ?_⟩
    rw [sampleLooked, found]
    exact .look found
  have cancelled : SampleStep sampleLooked sampleCancelled := by
    obtain ⟨job, asked, named⟩ : ∃ job, sampleLooked.asked () = some job ∧
        job.id = "j" :=
      Option.map_eq_some_iff.mp (by decide +kernel)
    refine ⟨.cancel (), Torn true, torn_limited, .cancel asked ?_⟩
    rw [named]
    exact runs_run effect_sampleStep _ _
  exact .tail (.tail (.tail (.tail .refl submitted) started) looked)
    cancelled

/-- The terminal record of a cancelled audit is overwritten. -/
theorem cancelled_record_rewritten :
    ∃ start cancelled finished : System Unit, Initial start ∧
      Relation.ReflTransGen (AnyStep id fun _ _ => True) start cancelled ∧
      AnyStep id (fun _ _ => True) cancelled finished ∧
      (cancelled.jobs.lookup "j").map Job.state = some .running ∧
      (durable cancelled.files "j").map Job.state = some .cancelled ∧
      (durable finished.files "j").map Job.state = some .completed := by
  refine ⟨⟨∅, ∅, fun _ => none, fun _ => none⟩, sampleCancelled,
    sampleFinished, sample_initial, sample_reaches,
    ⟨.finish "j", Torn false, torn_limited, .finish (by decide +kernel)
      (runs_run effect_sampleStep _ _)⟩, ?_, ?_, ?_⟩
  all_goals decide +kernel

end sample

end Jobs
end ModelKeep
