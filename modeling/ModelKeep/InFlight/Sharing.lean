import ModelKeep.InFlight.Cancelling

/-!
# Jobs that share an acquisition

Whoever cancels an acquisition stops it for every job that has joined it.  A
job comes to hear of it in one of two ways: its own call of `cancel` marks the
record, or its thread is given the error of the flight and ends the record
itself.
-/

namespace ModelKeep
namespace InFlight

open Concurrency Jobs

namespace Acquisitions

/-- The acquisition of the flight was cancelled. -/
def CalledOff (s : Acquisitions) (number : Nat) : Prop :=
  ∃ flight entry, s.flight number = some flight ∧
    flight.worker.entry? = some entry ∧ (s.token entry).phase = .cancelled

theorem Does.calledOff
    {s t : Acquisitions}
    {number : Nat}
    (sound : s.Sound)
    (does : Does s t)
    (calledOff : s.CalledOff number) :
    t.CalledOff number := by
  obtain ⟨flight, entry, found, own, cancelled⟩ := calledOff
  obtain ⟨later, present, _, _, kept⟩ := does.flight sound found
  refine ⟨later, entry, present, kept entry own, ?_⟩
  rw [does.phase (sound.issued number flight entry found own)
    (by rw [cancelled]; simp), cancelled]

theorem token_join
    {s : Acquisitions}
    {request : Request} :
    (s.join request).2.token = s.token := by
  unfold join
  split <;> rfl

/-- A step that cancels an acquisition is no step of a thread. -/
theorem Step.of_cancelled
    {s t : Acquisitions}
    {entry : Nat}
    (step : Step s t)
    (issued : entry < s.nextEntry)
    (running : (s.token entry).phase = .running)
    (cancelled : (t.token entry).phase = .cancelled) :
    t = s.setToken entry (s.token entry).cancel.2 := by
  have moved : t.token entry ≠ s.token entry := by
    intro same
    rw [same, running] at cancelled
    cases cancelled
  cases step with
  | join request => exact absurd (congrFun (token_join ..) entry) moved
  | register number flight found starting =>
      exact absurd (Function.update_of_ne (Nat.ne_of_lt issued) ..) moved
  | call number own flight op next reply token found working answers =>
      rw [token_record] at cancelled moved
      have same : entry = own := by
        by_contra different
        exact moved (Function.update_of_ne different ..)
      subst same
      rw [show ((s.setToken entry token).advance number flight
        (.working entry (next reply))).token entry = token from
          Function.update_self ..] at cancelled
      -- no answer of a call cancels the token
      cases op with
      | commit =>
          have phase := (s.token entry).commit_phase
          rw [show (s.token entry).commit = (reply, token) from answers,
            if_pos running, cancelled] at phase
          cases phase
      | cancel => exact answers.elim
      | isCancelled =>
          rw [answers.2, running] at cancelled
          cases cancelled
      | fetch =>
          rw [show token.phase = _ from answers, running] at cancelled
          cases cancelled
      | _ =>
          rw [show token = s.token entry from answers, running] at cancelled
          cases cancelled
  | cancel own issued =>
      have same : entry = own := by
        by_contra different
        exact moved (Function.update_of_ne different ..)
      rw [same]
  | _ => exact absurd rfl moved

/-- A flight whose body runs to its end answers everyone who waits for it. -/
theorem reaches_over
    {s : Acquisitions}
    {number entry : Nat}
    {flight : Flight}
    {body : Program PullThrough.interface (Except PullThroughError Landing)}
    {result : Except PullThroughError Landing}
    {token : Cancellation}
    (found : s.flight number = some flight)
    (working : flight.worker = .working entry body)
    (runs : body.Runs Answers (s.token entry) result token) :
    ∃ t, Relation.ReflTransGen Step s t ∧
      t.flight number = some
        { flight with worker := .ceased entry (some result) } := by
  induction body generalizing s flight with
  | done value =>
      obtain ⟨rfl, _⟩ := runs
      refine ⟨_, .tail (.tail (.single (.finish s number entry flight _ found
        working)) (.drop _ number entry _ _ (Function.update_self ..) rfl))
        (.land _ number entry _ _ (Function.update_self ..) rfl), ?_⟩
      exact Function.update_self ..
  | call op next inductionHypothesis =>
      obtain ⟨reply, middle, answers, rest⟩ := runs
      have step := Step.call s number entry flight op next reply middle found
        working answers
      have token : (((s.setToken entry middle).advance number flight
          (.working entry (next reply))).record number op).token entry =
            middle := by
        rw [token_record]
        exact Function.update_self ..
      have present : (((s.setToken entry middle).advance number flight
          (.working entry (next reply))).record number op).flight number =
            some { flight with worker := .working entry (next reply) } := by
        rw [flight_record]
        exact Function.update_self ..
      obtain ⟨t, steps, ceased⟩ := inductionHypothesis reply present rfl
        (token.symm ▸ rest)
      exact ⟨t, .head step steps, ceased⟩

end Acquisitions

section conditions

variable {κ : Type}

/-- No thread ends the record of a job whose acquisition was cancelled: a call
of `cancel` for that very job has marked it before. -/
def Marked (s : World κ) : Event κ → Prop
  | .finish id => id ∈ s.jobs → ∀ number, s.Attached id number →
      ¬s.acquisitions.CalledOff number
  | _ => True

/-- The record is not over or was marked, or the job ran something else. -/
def Spared (s : World κ) (number : Nat) (id : String) : Prop :=
  (∀ record, durable s.files id = some record →
    record.state.isActive = true ∨ record.state = .cancelled) ∨
  ∃ other, s.work id = some (.ceased other) ∧ other ≠ some number

end conditions

section finishing

variable {κ : Type} {draws : JobFiles → String → Prop} {s : World κ}

/-- What the end of its own thread makes of an active record. -/
theorem Finishes.state
    {id : String}
    {result : JobRunResult}
    {manager : System κ}
    (grounded : Grounded s)
    (active : id ∈ s.jobs)
    (finishes : Finishes draws id result s manager) :
    ∃ record, durable manager.files id = some record ∧
      record.state = if result.isOk then .completed else .failed := by
  cases finishes with
  | mk thread run =>
      rcases transition_of_update (s := s.manager) grounded.sound.agree
          grounded.tidy (fun _ fault => fault.elim)
          (fun _ _ => Job.identity_finish ..)
          (fun now job _ _ queued => by
            have ended := Job.state_finish result now job
            rw [queued] at ended
            cases ended) run with
        ⟨absent, _⟩ | ⟨previous, now, updatedAt, _, _, written, _⟩
      · exact absurd active (Finmap.lookup_eq_none.mp absent)
      · refine ⟨_, written fun _ fault => fault, ?_⟩
        cases result <;> rfl

end finishing

section steps

variable {κ : Type} [DecidableEq κ] {digest : String → String}
  {draws : JobFiles → String → Prop} {s t : World κ} {id : String}

/-- A step that meets the condition. -/
def MarkedStep
    (digest : String → String)
    (draws : JobFiles → String → Prop)
    (s t : World κ) :
    Prop :=
  ∃ event, Marked s event ∧ Step digest draws event s t

/-- A thread that has ended its job does nothing more. -/
theorem Step.ceased
    {event : Event κ}
    {number : Option Nat}
    (grounded : Grounded s)
    (step : Step digest draws event s t)
    (ceased : s.work id = some (.ceased number)) :
    t.work id = some (.ceased number) := by
  have apart : ∀ {other : String} {before after : Work} {moved : World κ},
      moved.work = s.work → s.work other = some before →
      before ≠ .ceased number →
      (moved.setWork other after).work id = some (.ceased number) := by
    intro other before after moved same doing different
    have elsewhere : id ≠ other := by
      rintro rfl
      exact different (Option.some.inj (doing.symm.trans ceased))
    rw [work_setWork_of_ne elsewhere, same, ceased]
  cases step with
  | start step working =>
      next started manager =>
      have elsewhere : id ≠ started := by
        rintro rfl
        have before := grounded.started id (by rw [ceased]; simp)
        rw [show s.thread id = some .spawned from
          (thread_of_start step).1] at before
        simp at before
      rw [work_setWork_of_ne elsewhere]
      exact ceased
  | join thread preparing record requested => exact apart rfl preparing nofun
  | reject thread preparing record prefetch unsafePatterns =>
      exact apart rfl preparing nofun
  | check thread preparing record kind => exact apart rfl preparing nofun
  | receive waiting found ceased => exact apart rfl waiting nofun
  | finish answered finishes => exact apart rfl answered nofun
  | _ => exact ceased

/-- A record that ends is ended by its thread, or marked. -/
theorem Step.ends
    {event : Event κ}
    {record : Job}
    (grounded : Grounded s)
    (step : Step digest draws event s t)
    (present : durable t.files id = some record)
    (ended : record.state.isActive = false) :
    durable s.files id = some record ∨
      (event = .finish id ∧ id ∈ s.jobs) ∨ record.state = .cancelled := by
  obtain ⟨after, evolves⟩ := step.grounded grounded
  have gone : id ∉ t.jobs := by
    intro active
    obtain ⟨job, found⟩ := Finmap.mem_iff.mp active
    have filed := after.sound.agree.active found
    rw [show durable t.manager.files id = some record from present] at filed
    cases filed.1
    rw [ended] at filed
    cases filed.2
  have moved := evolves.kept.moved id
  rw [show durable t.manager.files id = some record from present] at moved
  cases before : durable s.files id with
  | none =>
      rw [show durable s.manager.files id = none from before] at moved
      cases moved with
      | queued state =>
          rw [state] at ended
          cases ended
  | some old =>
      rw [show durable s.manager.files id = some old from before] at moved
      by_cases ceased : old.state.isActive = false
      · exact Or.inl (moved.ended ceased).symm
      · right
        have active : id ∈ s.jobs := by
          refine Finmap.mem_iff.mpr ⟨old, ?_⟩
          rw [show s.jobs.lookup id = _ from grounded.sound.agree id,
            show durable s.manager.files id = some old from before,
            Option.filter_some, if_pos (by simpa using ceased)]
        by_cases finishing : event = .finish id
        · exact Or.inl ⟨finishing, active⟩
        · right
          by_contra unmarked
          refine gone (step.spares grounded finishing ?_ active)
          rintro caller call job rfl calling about rfl
          have marks : ∀ {result : ActiveJobs × Option (Except String Job)},
              (cancelRecord s.jobs job.id).Runs (Effect Never draws) s.files
                result t.files → False := by
            intro result run
            rcases cases_of_mark grounded run with
              ⟨absent, _⟩ | ⟨previous, now, _, _, written⟩
            · exact absent active
            · rw [present] at written
              exact unmarked (congrArg Job.state (Option.some.inj written))
          cases step with
          | markUnasked looked still run =>
              rw [looked] at calling
              cases calling
              cases about
              exact marks run
          | mark stopped run =>
              rw [stopped] at calling
              cases calling
              cases about
              exact marks run

/-- What a marked step leaves. -/
theorem Step.spared
    {event : Event κ}
    {number : Nat}
    (grounded : Grounded s)
    (calledOff : s.acquisitions.CalledOff number)
    (marked : Marked s event)
    (step : Step digest draws event s t)
    (spared : Spared s number id) :
    Spared t number id := by
  rcases spared with kept | ⟨other, ceased, different⟩
  · by_cases finishing : event = .finish id ∧ id ∈ s.jobs
    · obtain ⟨rfl, active⟩ := finishing
      cases step with
      | finish answered finishes =>
          next joined result manager =>
          refine Or.inr ⟨joined, Function.update_self .., ?_⟩
          rintro rfl
          exact marked active number ⟨_, answered, rfl⟩ calledOff
    · left
      intro record present
      by_cases active : record.state.isActive = true
      · exact Or.inl active
      · rcases step.ends grounded present (by simpa using active) with
          before | thread | cancelled
        · exact kept record before
        · exact absurd thread finishing
        · exact Or.inr cancelled
  · exact Or.inr ⟨other, step.ceased grounded ceased, different⟩

/-- What a cancellation of an acquisition means for its jobs and for all the
others. -/
structure Reaching
    (digest : String → String)
    (draws : JobFiles → String → Prop)
    (s : World κ) :
    Prop where
  /-- Every job that shares the acquisition, whenever it has joined, ends
  cancelled. -/
  jobs : ∀ number, s.acquisitions.CalledOff number →
    ∀ t, Relation.ReflTransGen (MarkedStep digest draws) s t →
    ∀ id, t.Attached id number →
    (∀ record, durable s.files id = some record →
      record.state.isActive = true) →
    ∀ record, durable t.files id = some record →
      record.state.isActive = false → record.state = .cancelled
  /-- The step that cancels an acquisition touches its token and no more. -/
  token : ∀ t entry, AnyStep digest draws s t →
    entry < s.acquisitions.nextEntry →
    (s.acquisitions.token entry).phase = .running →
    (t.acquisitions.token entry).phase = .cancelled →
    t.acquisitions = s.acquisitions.setToken entry
        (s.acquisitions.token entry).cancel.2 ∧
      t.manager = s.manager ∧ t.work = s.work
  /-- A mark touches the record of its own job and no more. -/
  record : ∀ t caller call job, Step digest draws (.mark caller) s t →
    s.call caller = some call → call.job? = some job →
    (∀ id, id ≠ job.id → t.jobs.lookup id = s.jobs.lookup id ∧
      durable t.files id = durable s.files id) ∧
      t.acquisitions = s.acquisitions ∧ t.thread = s.thread ∧
      t.work = s.work
  /-- A thread that comes before the mark leaves a job that is not
  cancelled. -/
  otherwise : ∀ t id, Step digest draws (.finish id) s t →
    ¬Marked s (.finish id) →
    ∃ record, durable t.files id = some record ∧
      (record.state = .completed ∨ record.state = .failed)

theorem grounded_of_run
    (grounded : Grounded s)
    (run : Relation.ReflTransGen (AnyStep digest draws) s t) :
    Grounded t := by
  induction run with
  | refl => exact grounded
  | tail _ step inductionHypothesis =>
      obtain ⟨event, step⟩ := step
      exact (step.grounded inductionHypothesis).1

/-- A run of marked steps leaves the jobs of a cancelled acquisition active or
cancelled. -/
theorem spared_of_marked
    {number : Nat}
    (grounded : Grounded s)
    (calledOff : s.acquisitions.CalledOff number)
    (spared : Spared s number id)
    (run : Relation.ReflTransGen (MarkedStep digest draws) s t) :
    Grounded t ∧ t.acquisitions.CalledOff number ∧ Spared t number id := by
  induction run with
  | refl => exact ⟨grounded, calledOff, spared⟩
  | tail _ step inductionHypothesis =>
      obtain ⟨event, marked, step⟩ := step
      obtain ⟨before, cancelled, still⟩ := inductionHypothesis
      obtain ⟨after, evolves⟩ := step.grounded before
      exact ⟨after,
        evolves.acquisitions.calledOff before.acquisitions cancelled,
        step.spared before cancelled marked still⟩

/-- The step that cancels is one of the acquisitions, or asks for a job. -/
theorem Step.of_cancelled
    {event : Event κ}
    {entry : Nat}
    (step : Step digest draws event s t)
    (issued : entry < s.acquisitions.nextEntry)
    (running : (s.acquisitions.token entry).phase = .running)
    (cancelled : (t.acquisitions.token entry).phase = .cancelled) :
    t.acquisitions = s.acquisitions.setToken entry
        (s.acquisitions.token entry).cancel.2 ∧
      t.manager = s.manager ∧ t.work = s.work := by
  have moved : t.acquisitions.token entry ≠ s.acquisitions.token entry := by
    intro same
    rw [same, running] at cancelled
    cases cancelled
  cases step with
  | join thread preparing record requested =>
      exact absurd (congrFun (Acquisitions.token_join ..) entry) moved
  | ask found =>
      next caller job own =>
      have same : entry = own := by
        by_contra different
        exact moved (Function.update_of_ne different ..)
      rw [same]
      exact ⟨rfl, rfl, rfl⟩
  | acquire step =>
      exact ⟨step.of_cancelled issued running cancelled, rfl, rfl⟩
  | _ => exact absurd rfl moved

/-- A mark touches the record of its own job only. -/
theorem Step.of_mark
    {caller : κ}
    {call : Call}
    {job : Job}
    (grounded : Grounded s)
    (step : Step digest draws (.mark caller) s t)
    (calling : s.call caller = some call)
    (about : call.job? = some job) :
    (∀ id, id ≠ job.id → t.jobs.lookup id = s.jobs.lookup id ∧
      durable t.files id = durable s.files id) ∧
      t.acquisitions = s.acquisitions ∧ t.thread = s.thread ∧
      t.work = s.work := by
  have marks : ∀ {result : ActiveJobs × Option (Except String Job)}
      {files : JobFiles},
      (cancelRecord s.jobs job.id).Runs (Effect Never draws) s.files result
        files →
      ∀ id, id ≠ job.id → result.1.lookup id = s.jobs.lookup id ∧
        durable files id = durable s.files id := by
    intro result files run id different
    cases active : s.jobs.lookup job.id with
    | none =>
        unfold cancelRecord at run
        rw [active] at run
        obtain ⟨rfl, rfl⟩ := run
        exact ⟨rfl, rfl⟩
    | some previous =>
        obtain ⟨now, moves, others⟩ := runs_cancelRecord active
          (grounded.tidy.named job.id previous active) run
        obtain ⟨transition, _⟩ := moves.transition grounded.sound.agree
          grounded.tidy (fun fault => fault.elim) active
          (Job.identity_cancel ..) (fun _ => by simp [Job.cancel]) others
        exact ⟨transition.others id different,
          durable_congr (others id different)⟩
  cases step with
  | markUnasked looked still run =>
      rw [looked] at calling
      cases calling
      cases about
      exact ⟨marks run, rfl, rfl, rfl⟩
  | mark stopped run =>
      rw [stopped] at calling
      cases calling
      cases about
      exact ⟨marks run, rfl, rfl, rfl⟩

/-- In every reachable state a cancellation reaches the jobs that share the
acquisition, as long as their own calls come before their threads, and nobody
else. -/
theorem cancelled_of_marked
    {start : World κ}
    (initial : Initial start)
    (run : Relation.ReflTransGen (AnyStep digest draws) start s) :
    Reaching digest draws s := by
  have grounded := grounded_of_run initial.grounded run
  refine ⟨?_, ?_, ?_, ?_⟩
  · intro number calledOff t later id attached active record present ended
    have spared : Spared s number id :=
      Or.inl fun record present => Or.inl (active record present)
    obtain ⟨_, _, after⟩ :=
      spared_of_marked grounded calledOff spared later
    rcases after with kept | ⟨other, ceased, different⟩
    · rcases kept record present with still | cancelled
      · rw [ended] at still
        cases still
      · exact cancelled
    · obtain ⟨work, doing, joined⟩ := attached
      cases ceased.symm.trans doing
      exact absurd joined different
  · rintro t entry ⟨event, step⟩ issued running cancelled
    exact step.of_cancelled issued running cancelled
  · intro t caller call job step calling about
    exact step.of_mark grounded calling about
  · intro t id step unmarked
    have active : id ∈ s.jobs := by
      by_contra absent
      exact unmarked fun present => absurd present absent
    cases step with
    | finish answered finishes =>
        next number result manager =>
        obtain ⟨record, present, state⟩ := finishes.state grounded active
        refine ⟨record, present, ?_⟩
        rw [state]
        split
        · exact Or.inl rfl
        · exact Or.inr rfl

end steps

/-! ## A prefetch whose acquisition is cancelled by its identifier -/

namespace Sample

/-- Every body may come to a cancellation with nothing but errors before. -/
theorem runs_cancelled (request : Request) :
    request.body.Runs Answers ⟨.cancelled, none⟩ (.error .cancelled)
      ⟨.cancelled, none⟩ := by
  cases request with
  | pullThrough repository requestedRevision selection reconcile =>
      cases reconcile with
      | false =>
          exact ⟨.error (.io .notFound), _, rfl, .ok false, _, rfl, true, _,
            ⟨rfl, rfl⟩, rfl, rfl⟩
      | true =>
          exact ⟨.error (.io .notFound), _, rfl, .ok false, _, rfl,
            .error (.io .notFound), _, rfl, .ok false, _, rfl, true, _,
            ⟨rfl, rfl⟩, rfl, rfl⟩
  | refresh repository reference dryRun =>
      exact ⟨.error (.io .notFound), _, rfl, .ok false, _, rfl, true, _,
        ⟨rfl, rfl⟩, rfl, rfl⟩

/-- The acquisition of the prefetch was cancelled by its identifier. -/
noncomputable def calledOff : Acquisitions :=
  registered.setToken 0 (registered.token 0).cancel.2

theorem steps_acquisitions
    {before after : Acquisitions}
    {call : Unit → Option Call}
    (steps : Relation.ReflTransGen Acquisitions.Step before after) :
    Relation.ReflTransGen (AnyStep id fun _ _ => True) (waiting before call)
      (waiting after call) := by
  induction steps with
  | refl => exact .refl
  | tail _ step inductionHypothesis =>
      exact inductionHypothesis.tail ⟨.other, .acquire step⟩

/-- The thread of the prefetch waits, and nobody cancels the job. -/
theorem steps_registered :
    Relation.ReflTransGen (AnyStep id fun _ _ => True) opened
      (waiting registered fun _ => none) :=
  .tail (.tail (.tail (.tail .refl ⟨_, goes_submitted⟩) ⟨_, goes_started⟩)
    ⟨_, goes_joined fun _ => none⟩) ⟨_, goes_registered fun _ => none⟩

theorem goes_calledOff :
    Goes .other (waiting registered fun _ => none)
      (waiting calledOff fun _ => none) :=
  .acquire (.cancel registered 0 Nat.zero_lt_one)

theorem attached_waiting
    {acquisitions : Acquisitions}
    {call : Unit → Option Call} :
    (waiting acquisitions call).Attached "j" 0 :=
  ⟨_, work_waiting, rfl⟩

theorem calledOff_calledOff : calledOff.CalledOff 0 :=
  ⟨_, 0, rfl, rfl, rfl⟩

/-- The thread of the prefetch was given the error of its flight. -/
noncomputable def failing (acquisitions : Acquisitions) : World Unit :=
  (waiting acquisitions fun _ => none).setWork "j"
    (.answered (some 0) (resultOf (some (.error .cancelled))))

theorem work_failing
    {acquisitions : Acquisitions} :
    (failing acquisitions).work "j" =
      some (.answered (some 0) (resultOf (some (.error .cancelled)))) := by
  simp only [failing, World.setWork, Function.update_self]

/-- A prefetch whose acquisition was cancelled ends as a failure. -/
theorem cancelled_acquisition_fails_job :
    ∃ start before s t : World Unit, Initial start ∧
      Relation.ReflTransGen (AnyStep id fun _ _ => True) start before ∧
      Goes .other before s ∧
      (before.acquisitions.token 0).phase = .running ∧
      s.acquisitions.CalledOff 0 ∧ s.Attached "j" 0 ∧ "j" ∈ s.jobs ∧
      Relation.ReflTransGen (AnyStep id fun _ _ => True) s t ∧
      t.Attached "j" 0 ∧
      ∃ record, durable t.files "j" = some record ∧
        record.state = .failed := by
  have found : calledOff.flight 0 =
      some ⟨request, .working 0 request.body⟩ := rfl
  obtain ⟨after, steps, ceased⟩ := Acquisitions.reaches_over found rfl
    (runs_cancelled request)
  have cancelled : Relation.ReflTransGen (AnyStep id fun _ _ => True)
      (waiting calledOff fun _ => none) (waiting after fun _ => none) :=
    steps_acquisitions steps
  have receive : Goes .other (waiting after fun _ => none) (failing after) :=
    .receive work_waiting ceased rfl
  obtain ⟨manager, finishes⟩ : ∃ manager, Finishes (fun _ _ => True) "j"
      (resultOf (some (.error .cancelled))) (failing after) manager :=
    ⟨_, .mk (by decide +kernel : started.thread "j" = some .working)
      (Program.runs_run effect_sampleStep _ _)⟩
  have finish : Goes (.finish "j") (failing after)
      (((failing after).follow manager).setWork "j" (.ceased (some 0))) :=
    .finish work_failing finishes
  have active : "j" ∈ (waiting calledOff fun _ => none).jobs :=
    Finmap.mem_iff.mpr ⟨job, lookup_job⟩
  have grounded := grounded_of_run opened_initial.grounded
    ((steps_registered.tail ⟨_, goes_calledOff⟩).trans
      (cancelled.tail ⟨_, receive⟩))
  refine ⟨opened, _, waiting calledOff fun _ => none, _, opened_initial,
    steps_registered, goes_calledOff, rfl, calledOff_calledOff,
    attached_waiting, active,
    (cancelled.tail ⟨_, receive⟩).tail ⟨_, finish⟩,
    ⟨.ceased (some 0), by simp only [World.setWork, Function.update_self],
      rfl⟩, ?_⟩
  exact finishes.state grounded active

/-- The acquisition of the prefetch is cancelled while its thread waits. -/
theorem reaching_calledOff :
    ∃ s : World Unit, s.acquisitions.CalledOff 0 ∧ s.Attached "j" 0 ∧
      Reaching id (fun _ _ => True) s :=
  ⟨waiting calledOff fun _ => none, calledOff_calledOff, attached_waiting,
    cancelled_of_marked opened_initial
      (steps_registered.tail ⟨_, goes_calledOff⟩)⟩

end Sample

end InFlight
end ModelKeep
