import ModelKeep.InFlight.Jobs

/-!
# A cancellation is decided once

A call of `cancel` looks, asks and marks in three separate sections.  As long
as the thread of the job does not come in between, the answer of the token, the
record and what the acquisition does afterwards say the same.
-/

namespace ModelKeep
namespace InFlight

open Concurrency Jobs

section conditions

variable {κ : Type}

/-- The job a call is about, until it has answered. -/
def Call.job? : Call → Option Job
  | .looked job => some job
  | .found job _ => some job
  | .stopped job _ => some job
  | .done _ _ _ => none

/-- The call may still be the one that stops the acquisition, or it is and has
not marked the record yet. -/
def Pending (s : World κ) (caller : κ) (id : String) : Prop :=
  match s.call caller with
  | some (.found job entry) =>
      job.id = id ∧ (s.acquisitions.token entry).phase = .running
  | some (.stopped job .cancelled) => job.id = id
  | _ => False

/-- The job has its acquisition, which the registry finds or which has ended;
and an acquisition that can still be stopped is found for an active job
only. -/
def Landed (s : World κ) (job : Job) : Prop :=
  (∃ number flight, s.Attached job.id number ∧
    s.acquisitions.flight number = some flight ∧
      (flight.worker.Ended ∨ ∃ entry, flight.worker.entry? = some entry ∧
        s.acquisitions.matching (target job) = some entry)) ∧
  ∀ entry, s.acquisitions.matching (target job) = some entry →
    (s.acquisitions.token entry).phase = .running → job.id ∈ s.jobs

/-- The thread of the job does not come between the parts of a call: the
registry is asked once the acquisition is registered, a job that was not
started when the call looked is marked before it is, and nobody ends the record
of a job whose acquisition a call is about to stop or has stopped. -/
def Careful (s : World κ) : Event κ → Prop
  | .find caller => ∀ job, s.call caller = some (.looked job) → Landed s job
  | .mark caller => ∀ call job, s.call caller = some call →
      call.job? = some job → job.id ∈ s.jobs →
      (asks job = false → Transfers job.kind = true →
        s.thread job.id = some .spawned) ∧
      ∀ other, other ≠ caller → ¬Pending s other job.id
  | .finish id => id ∈ s.jobs → ∀ other, ¬Pending s other id
  | .other => True

end conditions

/-! ## What each call may rely on -/

namespace Acquisitions

/-- The flight has ended, or this is its entry. -/
def Owns (s : Acquisitions) (number entry : Nat) : Prop :=
  ∃ flight, s.flight number = some flight ∧
    (flight.worker.Ended ∨ flight.worker.entry? = some entry)

theorem Does.owns
    {s t : Acquisitions}
    {number entry : Nat}
    (sound : s.Sound)
    (does : Does s t)
    (owns : s.Owns number entry) :
    t.Owns number entry := by
  obtain ⟨flight, found, ceased⟩ := owns
  obtain ⟨later, present, _, ended, kept⟩ := does.flight sound found
  exact ⟨later, present, ceased.imp ended (kept entry)⟩

/-- What becomes of a flight whose token is asked to cancel. -/
theorem Owns.cancel
    {s : Acquisitions}
    {number entry : Nat}
    (owns : s.Owns number entry) :
    ((s.token entry).cancel.1 = .alreadyFinished →
      (s.setToken entry (s.token entry).cancel.2).Claimed number) ∧
    ((s.token entry).cancel.1 ≠ .alreadyFinished →
      (s.setToken entry (s.token entry).cancel.2).Stopped number) := by
  obtain ⟨flight, found, ceased⟩ := owns
  have phase : ((s.setToken entry (s.token entry).cancel.2).token
      entry).phase = (s.token entry).cancel.2.phase :=
    congrArg _ (Function.update_self ..)
  rcases ceased with ceased | own
  · exact ⟨fun _ => ⟨flight, found, Or.inl ceased⟩,
      fun _ => ⟨flight, found, Or.inl ceased⟩⟩
  · constructor
    · intro finished
      refine ⟨flight, found, Or.inr ⟨entry, own, ?_⟩⟩
      rw [phase]
      revert finished
      unfold Cancellation.cancel
      cases stands : (s.token entry).phase <;> simp [stands]
    · intro unfinished
      refine ⟨flight, found, Or.inr ⟨entry, own, ?_⟩⟩
      rw [phase]
      revert unfinished
      unfold Cancellation.cancel
      cases stands : (s.token entry).phase <;> simp [stands]

end Acquisitions

section calls

variable {κ : Type}

/-- The job that was looked up is on record. -/
def OnRecord (s : World κ) (job : Job) : Prop :=
  ∃ record, durable s.files job.id = some record ∧
    record.identity = job.identity

/-- The record has ended as cancelled. -/
def Cancelled (s : World κ) (id : String) : Prop :=
  ∃ record, durable s.files id = some record ∧ record.state = .cancelled

/-- The thread of the job has no flight and gets none, or its flight writes
nothing any more. -/
def Silent (s : World κ) (id : String) : Prop :=
  s.Barred id ∨
  (∃ record, durable s.files id = some record ∧
    Transfers record.kind = false) ∨
  ∃ number, s.Attached id number ∧ s.acquisitions.Stopped number

/-- What is true of a call, by how far it has come. -/
def CallSound (s : World κ) : Call → Prop
  | .looked job => OnRecord s job
  | .found job entry =>
      OnRecord s job ∧ entry < s.acquisitions.nextEntry ∧
        (∃ number, s.Attached job.id number ∧
          s.acquisitions.Owns number entry) ∧
        ((s.acquisitions.token entry).phase = .running → job.id ∈ s.jobs)
  | .stopped job outcome =>
      OnRecord s job ∧
        (∃ number, s.Attached job.id number ∧
          s.acquisitions.Stopped number) ∧
        (outcome = .cancelled → job.id ∈ s.jobs)
  | .done id asked report =>
      (asked = some .cancelled → report = .ok .cancelled) ∧
      (report = .ok .cancelled → Cancelled s id ∧ Silent s id) ∧
      (report = .ok .alreadyFinishing → ∃ number, s.Attached id number ∧
        s.acquisitions.Claimed number)

end calls

section passive

variable {κ : Type} {s t : World κ}

theorem OnRecord.evolves
    {job : Job}
    (record : OnRecord s job)
    (evolves : Evolves s t) :
    OnRecord t job := by
  obtain ⟨old, found, same⟩ := record
  have moved := evolves.kept.moved job.id
  rw [show durable s.manager.files job.id = some old from found] at moved
  obtain ⟨later, present, sameLater⟩ := identity_of_moved moved
  exact ⟨later, present, sameLater.trans same⟩

theorem Cancelled.evolves
    {id : String}
    (cancelled : Cancelled s id)
    (evolves : Evolves s t) :
    Cancelled t id := by
  obtain ⟨record, found, state⟩ := cancelled
  have moved := evolves.kept.moved id
  rw [show durable s.manager.files id = some record from found] at moved
  exact ⟨record, moved.ended (by rw [state]; rfl), state⟩

theorem Silent.evolves
    {id : String}
    (silent : Silent s id)
    (grounded : Grounded s)
    (evolves : Evolves s t) :
    Silent t id := by
  rcases silent with barred | ⟨record, found, kind⟩ |
    ⟨number, attached, stopped⟩
  · exact Or.inl (evolves.barred id barred)
  · have moved := evolves.kept.moved id
    rw [show durable s.manager.files id = some record from found] at moved
    obtain ⟨later, present, same⟩ := identity_of_moved moved
    have sameKind : later.kind = record.kind := congrArg Job.Identity.kind same
    exact Or.inr (Or.inl ⟨later, present, sameKind ▸ kind⟩)
  · exact Or.inr (Or.inr ⟨number, evolves.attached id number attached,
      (evolves.acquisitions.stopped grounded.acquisitions stopped).1⟩)

/-- A job that is not ended by the step is still active. -/
def Spares (s t : World κ) (id : String) : Prop := id ∈ s.jobs → id ∈ t.jobs

/-- What a call relies on is not disturbed by a step of somebody else. -/
theorem CallSound.evolves
    {caller : κ}
    {call : Call}
    (sound : CallSound s call)
    (grounded : Grounded s)
    (evolves : Evolves s t)
    (calling : s.call caller = some call)
    (spares : ∀ id, Pending s caller id → Spares s t id) :
    CallSound t call := by
  cases call with
  | looked job => exact OnRecord.evolves sound evolves
  | found job entry =>
      obtain ⟨record, issued, ⟨number, attached, owns⟩, active⟩ := sound
      refine ⟨record.evolves evolves,
        issued.trans_le evolves.acquisitions.nextEntry,
        ⟨number, evolves.attached _ _ attached,
          evolves.acquisitions.owns grounded.acquisitions owns⟩, ?_⟩
      intro running
      have was : (s.acquisitions.token entry).phase = .running := by
        by_contra left
        exact left
          ((evolves.acquisitions.phase issued left).symm.trans running)
      refine spares job.id ?_ (active was)
      unfold Pending
      rw [calling]
      exact ⟨rfl, was⟩
  | stopped job outcome =>
      obtain ⟨record, ⟨number, attached, stopped⟩, active⟩ := sound
      refine ⟨record.evolves evolves, ⟨number, evolves.attached _ _ attached,
        (evolves.acquisitions.stopped grounded.acquisitions stopped).1⟩, ?_⟩
      rintro rfl
      refine spares job.id ?_ (active rfl)
      unfold Pending
      rw [calling]
  | done id asked report =>
      obtain ⟨token, cancelled, finishing⟩ := sound
      refine ⟨token, ?_, ?_⟩
      · intro same
        obtain ⟨record, silent⟩ := cancelled same
        exact ⟨record.evolves evolves, silent.evolves grounded evolves⟩
      · intro same
        obtain ⟨number, attached, claimed⟩ := finishing same
        exact ⟨number, evolves.attached _ _ attached,
          evolves.acquisitions.claimed grounded.acquisitions claimed⟩

end passive

section active

variable {κ : Type} {digest : String → String}
  {draws : JobFiles → String → Prop} {s t : World κ}

/-- A transition that does not end jobs spares them all. -/
theorem spares_of_update
    {id : String}
    {change : Nat → Job → Job}
    {result : ActiveJobs × Option Job}
    {files : JobFiles}
    (grounded : Grounded s)
    (same : ∀ now job, (change now job).identity = job.identity)
    (forward : ∀ now job, s.jobs.lookup id = some job →
      job.state = .running → (change now job).state ≠ .queued)
    (active : ∀ now job, job.state.isActive = true →
      (change now job).state.isActive = true)
    (run : (update s.jobs id change).Runs (Effect Never draws) s.files result
      files)
    {other : String}
    (present : other ∈ s.jobs) :
    other ∈ result.1 := by
  rcases transition_of_update (s := s.manager) grounded.sound.agree
      grounded.tidy (fun _ fault => fault.elim) same forward run with
    ⟨_, rfl, _⟩ | ⟨previous, now, updatedAt, found, transition, written, _⟩
  · exact present
  · rw [← Finmap.lookup_isSome]
    by_cases equal : other = id
    · have going : previous.state.isActive = true :=
        (grounded.sound.agree.active found).2
      rw [equal, transition.agree, written fun _ fault => fault.elim,
        Option.filter_some, if_pos (active now previous going)]
      rfl
    · rw [transition.others other equal, Finmap.lookup_isSome]
      exact present

theorem active_start
    {now : Nat}
    {job : Job}
    (active : job.state.isActive = true) :
    (job.start now).state.isActive = true := by
  have standing : job.state ≠ .cancelled := by
    rintro cancelled
    rw [cancelled] at active
    cases active
  rw [Job.start, if_neg standing]
  split <;> rfl

theorem active_progress
    {event : FetchProgress}
    {now : Nat}
    {job : Job}
    (active : job.state.isActive = true) :
    (job.progress event now).state.isActive = true := by
  rw [Job.state_progress]
  split
  · rfl
  · exact active

/-- What a mark reports, and what it leaves. -/
theorem cases_of_mark
    {id : String}
    {result : ActiveJobs × Option (Except String Job)}
    {files : JobFiles}
    (grounded : Grounded s)
    (run : (cancelRecord s.jobs id).Runs (Effect Never draws) s.files result
      files) :
    (id ∉ s.jobs ∧ result = (s.jobs, none) ∧ files = s.files) ∨
      ∃ previous now, s.jobs.lookup id = some previous ∧
        result = (s.jobs.erase id, some (.ok (previous.cancel now))) ∧
        durable files id = some (previous.cancel now) := by
  cases found : s.jobs.lookup id with
  | none =>
      unfold cancelRecord at run
      rw [found] at run
      obtain ⟨rfl, rfl⟩ := run
      exact Or.inl ⟨Finmap.lookup_eq_none.mp found, rfl, rfl⟩
  | some previous =>
      right
      have named : previous.id = id := grounded.tidy.named id previous found
      unfold cancelRecord at run
      rw [found] at run
      obtain ⟨now, start, clock, first⟩ := (Program.runs_bind ..).mp run
      obtain ⟨_, rfl⟩ := runs_unixTimestamp.mp clock
      obtain ⟨outcome, written, persisted, last⟩ :=
        (Program.runs_bind ..).mp first
      have writes := (returns_persist persisted).writes
      cases outcome with
      | ok _ =>
          obtain ⟨rfl, rfl⟩ := last
          refine ⟨previous, now, rfl, rfl, ?_⟩
          have record : files.lookup (.record previous.id) =
              some ⟨some (.job (previous.cancel now)), true⟩ := writes
          rw [← named, durable, record]
      | error error =>
          rcases writes with ⟨⟨_, fault, _⟩, _⟩ | ⟨fault, _⟩
          · exact fault.elim
          · exact fault.elim

variable [DecidableEq κ]

/-- A job is only ended by its thread and by a mark. -/
theorem Step.spares
    {event : Event κ}
    {id : String}
    (grounded : Grounded s)
    (step : Step digest draws event s t)
    (unfinished : event ≠ .finish id)
    (unmarked : ∀ caller call job, event = .mark caller →
      s.call caller = some call → call.job? = some job → job.id ≠ id) :
    Spares s t id := by
  intro present
  cases step with
  | submit step =>
      cases step with
      | submit returns =>
          next outcome _ =>
          match outcome with
          | .ok (job, true) =>
              exact Finmap.mem_insert.mpr (Or.inr present)
          | .ok (job, false) => exact present
          | .error error => exact present
  | start step working =>
      cases step with
      | start thread run =>
          refine spares_of_update grounded (fun _ _ => Job.identity_start ..)
            ?_ (fun _ _ => active_start) run present
          intro now job found running
          rw [grounded.tidy.queued _ job thread found] at running
          cases running
  | startNone step returned =>
      cases step with
      | start thread run =>
          refine spares_of_update grounded (fun _ _ => Job.identity_start ..)
            ?_ (fun _ _ => active_start) run present
          intro now job found running
          rw [grounded.tidy.queued _ job thread found] at running
          cases running
  | progress waiting step =>
      cases step with
      | progress thread run =>
          exact spares_of_update grounded
            (fun _ _ => Job.identity_progress ..)
            (fun _ _ _ => state_progress_of_running)
            (fun _ _ => active_progress) run present
  | finish answered finishes =>
      next finished number result manager =>
      have different : id ≠ finished := fun same =>
        unfinished (congrArg Event.finish same.symm)
      cases finishes with
      | mk thread run =>
          rcases transition_of_update (s := s.manager) grounded.sound.agree
              grounded.tidy (fun _ fault => fault.elim)
              (fun _ _ => Job.identity_finish ..)
              (fun now job _ _ queued => by
                have ended := Job.state_finish result now job
                rw [queued] at ended
                cases ended) run with
            ⟨_, rfl, _⟩ | ⟨previous, now, updatedAt, found, transition, _⟩
          · exact present
          · refine Finmap.lookup_isSome.mp ?_
            exact (congrArg Option.isSome
              (transition.others id different)).trans
                (Finmap.lookup_isSome.mpr present)
  | markUnasked looked still run =>
      next caller job result files =>
      have different := unmarked caller _ job rfl looked rfl
      rcases cases_of_mark grounded run with ⟨_, rfl, _⟩ | ⟨_, _, _, rfl, _⟩
      · exact present
      · exact Finmap.mem_erase.mpr ⟨different.symm, present⟩
  | mark stopped run =>
      next caller job outcome result files =>
      have different := unmarked caller _ job rfl stopped rfl
      rcases cases_of_mark grounded run with ⟨_, rfl, _⟩ | ⟨_, _, _, rfl, _⟩
      · exact present
      · exact Finmap.mem_erase.mpr ⟨different.symm, present⟩
  | _ => exact present

/-- A careful step does not end the job of a call that may have stopped its
acquisition. -/
theorem Careful.spares
    {event : Event κ}
    {caller : κ}
    {id : String}
    (grounded : Grounded s)
    (careful : Careful s event)
    (step : Step digest draws event s t)
    (pending : Pending s caller id)
    (another : event ≠ .mark caller) :
    Spares s t id := by
  intro active
  refine step.spares grounded ?_ ?_ active
  · rintro rfl
    exact careful active caller pending
  · rintro marker call job rfl calling about rfl
    refine (careful call job calling about active).2 caller ?_ pending
    rintro rfl
    exact another rfl

/-- Calls that rely on what is there. -/
def CallsSound (s : World κ) : Prop :=
  ∀ caller call, s.call caller = some call → CallSound s call

/-- A step of one call leaves the others as they are. -/
theorem CallsSound.set
    {caller : κ}
    {call : Call}
    (others : ∀ other found, other ≠ caller → t.call other = some found →
      CallSound (t.setCall caller call) found)
    (own : CallSound (t.setCall caller call) call) :
    CallsSound (t.setCall caller call) := by
  intro other found calling
  by_cases same : other = caller
  · rw [same] at calling
    cases (Function.update_self ..).symm.trans calling
    exact own
  · exact others other found same
      ((Function.update_of_ne same ..).symm.trans calling)

theorem absentReport_ne
    (files : JobFiles)
    (id missing : String) :
    absentReport files id missing ≠ .ok .cancelled ∧
      absentReport files id missing ≠ .ok .alreadyFinishing := by
  unfold absentReport
  split <;> simp

/-- The mark of a call that need not ask, or has asked. -/
theorem callSound_of_mark
    {caller : κ}
    {job : Job}
    {asked : Option CancelOutcome}
    {result : ActiveJobs × Option (Except String Job)}
    {files : JobFiles}
    (grounded : Grounded s)
    (run : (cancelRecord s.jobs job.id).Runs (Effect Never draws) s.files
      result files)
    (still : asked = some .cancelled → job.id ∈ s.jobs)
    (silent : job.id ∈ s.jobs → Cancelled ({ s with
      jobs := result.1, files := files }.setCall caller
        (.done job.id asked (markReport files job.id result.2))) job.id →
      Silent ({ s with
        jobs := result.1, files := files }.setCall caller
          (.done job.id asked (markReport files job.id result.2))) job.id) :
    CallSound ({ s with jobs := result.1, files := files }.setCall caller
        (.done job.id asked (markReport files job.id result.2)))
      (.done job.id asked (markReport files job.id result.2)) := by
  rcases cases_of_mark grounded run with
    ⟨absent, rfl, rfl⟩ | ⟨previous, now, found, rfl, record⟩
  · obtain ⟨first, second⟩ := absentReport_ne s.files job.id "storage"
    exact ⟨fun same => absurd (still same) absent,
      fun same => absurd same first, fun same => absurd same second⟩
  · have cancelled : Cancelled ({ s with
        jobs := s.jobs.erase job.id, files := files }.setCall caller
          (.done job.id asked (.ok .cancelled))) job.id := ⟨_, record, rfl⟩
    refine ⟨fun _ => rfl, fun _ => ⟨cancelled, ?_⟩, ?_⟩
    · refine silent ?_ cancelled
      exact Finmap.mem_iff.mpr ⟨previous, found⟩
    · intro same
      cases same

/-- Every careful step leaves all calls with what they rely on. -/
theorem Step.callsSound
    {event : Event κ}
    (grounded : Grounded s)
    (calls : CallsSound s)
    (careful : Careful s event)
    (step : Step digest draws event s t) :
    CallsSound t := by
  have evolves := (step.grounded grounded).2
  -- a call that does not move relies on the same
  have passive : ∀ other found, s.call other = some found →
      event ≠ .mark other → CallSound t found := fun other found calling
      another =>
    (calls other found calling).evolves grounded evolves calling
      fun id pending => careful.spares grounded step pending another
  cases step with
  | look free active =>
      next caller id job =>
      refine .set (fun other found _ calling =>
        passive other found calling nofun) ?_
      have named : job.id = id := grounded.tidy.named id job active
      have record := (grounded.sound.agree.active active).1
      exact ⟨job, by rw [named]; exact record, rfl⟩
  | lookAbsent free absent =>
      next caller id =>
      refine .set (fun other found _ calling =>
        passive other found calling nofun) ?_
      obtain ⟨first, second⟩ := absentReport_ne s.files id "not_found"
      exact ⟨nofun, fun same => absurd same first,
        fun same => absurd same second⟩
  | find looked going matched =>
      next caller job entry =>
      refine .set (fun other found _ calling =>
        passive other found calling nofun) ?_
      obtain ⟨⟨number, flight, attached, present, ceased⟩, active⟩ :=
        careful job looked
      refine ⟨calls caller _ looked, grounded.acquisitions.matching matched,
        ⟨number, attached, flight, present, ?_⟩, active entry matched⟩
      refine ceased.imp_right ?_
      rintro ⟨own, made, same⟩
      rw [made, ← same, matched]
  | findNone looked going unmatched =>
      next caller job =>
      refine .set (fun other found _ calling =>
        passive other found calling nofun) ?_
      obtain ⟨⟨number, flight, attached, present, ceased⟩, _⟩ :=
        careful job looked
      refine ⟨nofun, nofun, fun _ => ⟨number, attached, flight, present, ?_⟩⟩
      rcases ceased with ceased | ⟨own, made, same⟩
      · exact Or.inl ceased
      · rw [unmatched] at same
        cases same
  | ask found =>
      next caller job entry =>
      refine .set (fun other call _ calling =>
        passive other call calling nofun) ?_
      obtain ⟨record, issued, ⟨number, attached, owns⟩, active⟩ :=
        calls caller _ found
      obtain ⟨claimed, stopped⟩ := owns.cancel
      have outcome := (s.acquisitions.token entry).cancel_outcome
      split
      · next finished =>
          exact ⟨nofun, nofun,
            fun _ => ⟨number, attached, claimed finished⟩⟩
      · next unfinished =>
          exact ⟨record, ⟨number, attached, stopped unfinished⟩,
            fun cancelled => active (outcome.mp cancelled)⟩
  | markUnasked looked still run =>
      next caller job result files =>
      refine .set (fun other found different calling =>
        passive other found calling fun same =>
          different (Event.mark.inj same).symm) ?_
      refine callSound_of_mark grounded run nofun ?_
      rintro active ⟨record, present, state⟩
      have condition := (careful _ job looked rfl active).1 still
      by_cases transfers : Transfers job.kind = true
      · have spawned := condition transfers
        refine Or.inl ⟨⟨record, present, by rw [state]; rfl⟩, ?_,
          Or.inl spawned⟩
        by_contra busy
        have started := grounded.started job.id busy
        rw [spawned] at started
        simp at started
      · right
        left
        obtain ⟨later, there, same⟩ :=
          OnRecord.evolves (calls caller _ looked) evolves
        have kind : later.kind = job.kind := congrArg Job.Identity.kind same
        exact ⟨later, there, by rw [kind]; simpa using transfers⟩
  | mark stopped run =>
      next caller job outcome result files =>
      refine .set (fun other found different calling =>
        passive other found calling fun same =>
          different (Event.mark.inj same).symm) ?_
      obtain ⟨record, ⟨number, attached, ceased⟩, active⟩ :=
        calls caller _ stopped
      refine callSound_of_mark grounded run
        (fun same => active (Option.some.inj same)) fun _ _ => ?_
      exact Or.inr (Or.inr ⟨number, attached, ceased⟩)
  | _ => exact fun other found calling => passive other found calling nofun

/-- A step that meets the condition. -/
def CarefulStep
    (digest : String → String)
    (draws : JobFiles → String → Prop)
    (s t : World κ) :
    Prop :=
  ∃ event, Careful s event ∧ Step digest draws event s t

theorem grounded_of_careful
    (initial : Initial s)
    (run : Relation.ReflTransGen (CarefulStep digest draws) s t) :
    Grounded t ∧ CallsSound t := by
  induction run with
  | refl =>
      refine ⟨initial.grounded, ?_⟩
      intro caller call calling
      rw [initial.call] at calling
      cases calling
  | tail _ step inductionHypothesis =>
      obtain ⟨event, careful, step⟩ := step
      obtain ⟨grounded, calls⟩ := inductionHypothesis
      exact ⟨(step.grounded grounded).1,
        step.callsSound grounded calls careful⟩

/-- Any step. -/
def AnyStep
    (digest : String → String)
    (draws : JobFiles → String → Prop)
    (s t : World κ) :
    Prop :=
  ∃ event, Step digest draws event s t

/-- What the answers of the calls mean, now and whatever comes after. -/
structure Decided
    (digest : String → String)
    (draws : JobFiles → String → Prop)
    (s : World κ) :
    Prop where
  cancels : ∀ caller id report,
    s.call caller = some (.done id (some .cancelled) report) →
      report = .ok .cancelled
  stays : ∀ caller id asked,
    s.call caller = some (.done id asked (.ok .cancelled)) →
    ∀ t, Relation.ReflTransGen (AnyStep digest draws) s t → Cancelled t id
  silent : ∀ caller id asked,
    s.call caller = some (.done id asked (.ok .cancelled)) →
    ∀ t, Relation.ReflTransGen (AnyStep digest draws) s t →
      ∀ number, t.Attached id number →
        t.acquisitions.writes number = s.acquisitions.writes number
  finishing : ∀ caller id asked,
    s.call caller = some (.done id asked (.ok .alreadyFinishing)) →
    ∃ number, s.Attached id number ∧ s.acquisitions.Claimed number

/-- Once a call has cancelled a job, its acquisition writes nothing more. -/
theorem silent_of_silent
    {id : String}
    (grounded : Grounded s)
    (silent : Silent s id)
    (run : Relation.ReflTransGen (AnyStep digest draws) s t) :
    Grounded t ∧ Silent t id ∧ ∀ number, t.Attached id number →
      t.acquisitions.writes number = s.acquisitions.writes number := by
  induction run with
  | refl => exact ⟨grounded, silent, fun _ _ => rfl⟩
  | @tail middle later _ step inductionHypothesis =>
      obtain ⟨event, step⟩ := step
      obtain ⟨before, still, same⟩ := inductionHypothesis
      obtain ⟨after, evolves⟩ := step.grounded before
      refine ⟨after, still.evolves before evolves, ?_⟩
      intro number attached
      rcases still with barred | ⟨record, found, kind⟩ |
        ⟨own, joined, stopped⟩
      · obtain ⟨work, doing, _⟩ := attached
        rw [(evolves.barred id barred).2.1] at doing
        cases doing
      · obtain ⟨now, present, transfers⟩ :=
          after.transfers id number attached
        have moved := evolves.kept.moved id
        rw [show durable middle.manager.files id = some record from found,
          show durable later.manager.files id = some now from present]
          at moved
        obtain ⟨_, ⟨⟩, sameIdentity⟩ := identity_of_moved moved
        have sameKind : now.kind = record.kind :=
          congrArg Job.Identity.kind sameIdentity
        rw [sameKind, kind] at transfers
        cases transfers
      · obtain ⟨work, doing, flight⟩ := attached
        obtain ⟨kept, keeping, keptFlight⟩ :=
          evolves.attached id own joined
        cases doing.symm.trans keeping
        cases flight.symm.trans keptFlight
        rw [(evolves.acquisitions.stopped before.acquisitions stopped).2]
        exact same number joined

/-- In every run in which the thread of a job does not come between the parts
of a call, the answers of the calls are true. -/
theorem decided_of_careful
    {start : World κ}
    (initial : Initial start)
    (run : Relation.ReflTransGen (CarefulStep digest draws) start s) :
    Decided digest draws s := by
  obtain ⟨grounded, calls⟩ := grounded_of_careful initial run
  refine ⟨?_, ?_, ?_, ?_⟩
  · intro caller id report answered
    exact (calls caller _ answered).1 rfl
  · intro caller id asked answered t later
    obtain ⟨cancelled, _⟩ := (calls caller _ answered).2.1 rfl
    have kept : Grounded t ∧ Cancelled t id := by
      induction later with
      | refl => exact ⟨grounded, cancelled⟩
      | tail _ step inductionHypothesis =>
          obtain ⟨event, step⟩ := step
          obtain ⟨after, evolves⟩ := step.grounded inductionHypothesis.1
          exact ⟨after, inductionHypothesis.2.evolves evolves⟩
    exact kept.2
  · intro caller id asked answered t later
    obtain ⟨_, silent⟩ := (calls caller _ answered).2.1 rfl
    exact (silent_of_silent grounded silent later).2.2
  · intro caller id asked answered
    exact (calls caller _ answered).2.2 rfl

end active

/-! ## A call before the acquisition is registered -/

namespace Sample

/-- The call has looked up the prefetch. -/
noncomputable def looking : Unit → Option Call :=
  Function.update (fun _ => none) () (some (.looked job))

theorem goes_looking
    {acquisitions : Acquisitions} :
    Goes .other (waiting acquisitions fun _ => none)
      (waiting acquisitions looking) :=
  .look rfl lookup_job

/-- A call that looked when the prefetch had no flight yet. -/
noncomputable def early : Unit → Option Call :=
  Function.update looking () (some
    (.done job.id none (.ok .alreadyFinishing)))

/-- A call answers that the job is finishing before its acquisition begins. -/
theorem finishing_before_start :
    ∃ start s : World Unit, Initial start ∧
      Relation.ReflTransGen (AnyStep id fun _ _ => True) start s ∧
      s.call () = some (.done "j" none (.ok .alreadyFinishing)) ∧
      (∃ number, s.Attached "j" number) ∧
      ∀ number, s.Attached "j" number →
        ¬s.acquisitions.Claimed number := by
  have named : job.id = "j" := by decide +kernel
  have look : Goes .other started { started with call := looking } :=
    .look rfl lookup_job
  have find : Goes (.find ()) { started with call := looking }
      { started with call := early } :=
    .findNone rfl (by decide +kernel) rfl
  refine ⟨opened, waiting registered early, opened_initial, ?_, ?_,
    ⟨0, _, work_waiting, rfl⟩, ?_⟩
  · exact .tail (.tail (.tail (.tail (.tail (.tail .refl
      ⟨_, goes_submitted⟩) ⟨_, goes_started⟩) ⟨_, look⟩) ⟨_, find⟩)
      ⟨_, goes_joined early⟩) ⟨_, goes_registered early⟩
  · rw [← named]
    rfl
  · rintro number ⟨work, doing, flight⟩ ⟨own, found, past⟩
    cases work_waiting.symm.trans doing
    cases flight
    cases found
    rcases past with ceased | ⟨entry, made, committing⟩
    · exact ceased
    · cases made
      cases committing

/-- A call that stops the acquisition while the thread waits for it. -/
theorem decided_of_cancelled :
    ∃ s : World Unit,
      s.call () = some (.done "j" (some .cancelled) (.ok .cancelled)) ∧
        Decided id (fun _ _ => True) s := by
  have named : job.id = "j" := by decide +kernel
  have going : asks job = true := by decide +kernel
  -- the registry finds the acquisition of the waiting thread
  have landed : Landed (waiting registered looking) job := by
    refine ⟨⟨0, _, ⟨_, by rw [named]; exact work_waiting, rfl⟩, rfl,
      Or.inr ⟨0, rfl, matching_registered⟩⟩, ?_⟩
    intro entry _ _
    rw [named]
    exact Finmap.mem_iff.mpr ⟨job, lookup_job⟩
  have find : CarefulStep id (fun _ _ => True) (waiting registered looking)
      ((waiting registered looking).setCall () (.found job 0)) := by
    refine ⟨.find (), ?_, .find rfl going matching_registered⟩
    intro found looked
    cases looked
    exact landed
  have ask : Goes .other
      ((waiting registered looking).setCall () (.found job 0))
      (((waiting (registered.setToken 0 (registered.token 0).cancel.2)
        looking).setCall () (.found job 0)).setCall () (.stopped job
          .cancelled)) :=
    .ask rfl
  have mark : ∃ report s, CarefulStep id (fun _ _ => True)
      (((waiting (registered.setToken 0 (registered.token 0).cancel.2)
        looking).setCall () (.found job 0)).setCall () (.stopped job
          .cancelled)) s ∧
      s.call () = some (.done job.id (some .cancelled) report) := by
    refine ⟨_, _, ⟨.mark (), ?_, .mark rfl
      (Program.runs_run effect_sampleStep _ _)⟩, rfl⟩
    intro call about calling same _
    cases calling
    cases same
    refine ⟨fun still => ?_, fun other different => absurd rfl different⟩
    rw [going] at still
    cases still
  obtain ⟨report, s, mark, answered⟩ := mark
  have quiet : ∀ {before after : World Unit}, Goes .other before after →
      CarefulStep id (fun _ _ => True) before after :=
    fun step => ⟨.other, trivial, step⟩
  have decided : Decided id (fun _ _ => True) s :=
    decided_of_careful opened_initial
      (.tail (.tail (.tail (.tail (.tail (.tail (.tail (.tail .refl
        (quiet goes_submitted)) (quiet goes_started))
        (quiet (goes_joined fun _ => none)))
        (quiet (goes_registered fun _ => none))) (quiet goes_looking)) find)
        (quiet ask)) mark)
  refine ⟨s, ?_, decided⟩
  rw [answered, named, decided.cancels () _ report answered]

end Sample

end InFlight
end ModelKeep
