import ModelKeep.SingleFlight

/-!
# Safety of single-flight coordination

What one step can do to a flight and to a call, and from it what callers can
count on in every interleaving: one fetch per key, the outcome of the fetch a
caller shares, and a fresh fetch after an outcome has been published.
-/

namespace ModelKeep
namespace Flights

variable {ι K V E P : Type} [DecidableEq ι] [DecidableEq K]

/-! ## What a step can do -/

/-- A flight after a step is the one before it, or its thread went one step
ahead, or it was registered just now. -/
theorem Step.flight_cases
    {before after : Flights ι K V E P}
    (step : Step before after)
    (consistent : before.Consistent)
    {number : Nat}
    {later : Flight K V E P}
    (present : after.flight number = some later) :
    before.flight number = some later ∨
      (∃ flight, before.flight number = some flight ∧
        later.key = flight.key ∧ flight.worker.Next later.worker ∧
          (flight.worker.Spawned → after.call = before.call)) ∨
      (number = before.next ∧ later.worker = .starting ∧
        before.registry later.key = none ∧
          after.registry later.key = some number) := by
  have advanced : ∀ {other : Nat} {flight following : Flight K V E P},
      Function.update before.flight other (some following) number =
        some later →
      before.flight other = some flight →
      following.key = flight.key →
      flight.worker.Next following.worker →
      (flight.worker.Spawned → after.call = before.call) →
      before.flight number = some later ∨
        (∃ flight, before.flight number = some flight ∧
          later.key = flight.key ∧ flight.worker.Next later.worker ∧
            (flight.worker.Spawned → after.call = before.call)) ∨
        (number = before.next ∧ later.worker = .starting ∧
          before.registry later.key = none ∧
            after.registry later.key = some number) := by
    intro other flight following found presentToo sameKey ahead calls
    by_cases same : number = other
    · subst same
      rw [Function.update_self, Option.some.injEq] at found
      subst found
      exact Or.inr (Or.inl ⟨flight, presentToo, sameKey, ahead, calls⟩)
    · rw [Function.update_of_ne same] at found
      exact Or.inl found
  cases step with
  | register caller call called phase free absent =>
      by_cases same : number = before.next
      · subst same
        have here : some later = some ⟨call.key, .new, .starting⟩ :=
          present.symm.trans (Function.update_self ..)
        cases here
        exact Or.inr (Or.inr ⟨rfl, rfl, absent, Function.update_self ..⟩)
      · exact Or.inl ((Function.update_of_ne same ..).symm.trans present)
  | spawn caller call other flight called phase presentToo =>
      have starts := (consistent.starting called phase presentToo).2
      apply advanced present presentToo rfl
      · rw [starts]
        exact .spawn
      · rw [starts]
        exact False.elim
  | spawnFailed caller call other flight called phase presentToo =>
      have starts := (consistent.starting called phase presentToo).2
      apply advanced present presentToo rfl
      · rw [starts]
        exact .fail
      · rw [starts]
        exact False.elim
  | progress other flight event presentToo fetching =>
      apply advanced present presentToo rfl ?_ (fun _ => rfl)
      rw [fetching]
      exact .progress
  | fetched other flight ending presentToo fetching =>
      apply advanced present presentToo rfl ?_ (fun _ => rfl)
      rw [fetching]
      exact .fetched ending
  | retire other flight ending presentToo ended free =>
      apply advanced present presentToo rfl ?_ (fun _ => rfl)
      rw [ended]
      exact .retire ending
  | finish other flight ending presentToo retired =>
      apply advanced present presentToo rfl ?_ (fun _ => rfl)
      rw [retired]
      exact .finish ending
  | release other flight ending presentToo published =>
      apply advanced present presentToo rfl ?_ (fun _ => rfl)
      rw [published]
      exact .release ending
  | pass caller call other cursor expired flight now called phase _ =>
      left
      cases decision : flight.state.pass cursor expired call.deadline now <;>
        (rw [decision] at present; exact present)
  | _ => exact Or.inl present

/-- Flights are never forgotten. -/
theorem Step.flight_stays
    {before after : Flights ι K V E P}
    (step : Step before after)
    {number : Nat}
    {flight : Flight K V E P}
    (consistent : before.Consistent)
    (present : before.flight number = some flight) :
    ∃ later, after.flight number = some later ∧ later.key = flight.key := by
  have advanced : ∀ {other : Nat} {old following : Flight K V E P},
      before.flight other = some old →
      following.key = old.key →
      ∃ later, Function.update before.flight other (some following) number =
        some later ∧ later.key = flight.key := by
    intro other old following presentToo sameKey
    by_cases same : number = other
    · subst same
      rw [present, Option.some.injEq] at presentToo
      subst presentToo
      exact ⟨following, Function.update_self .., sameKey⟩
    · exact ⟨flight, (Function.update_of_ne same ..).trans present, rfl⟩
  cases step with
  | register caller call called phase free absent =>
      have different : number ≠ before.next := by
        rintro rfl
        rw [consistent.fresh before.next (Nat.le_refl _)] at present
        cases present
      exact ⟨flight, (Function.update_of_ne different ..).trans present, rfl⟩
  | spawn caller call other old called phase presentToo =>
      exact advanced presentToo rfl
  | spawnFailed caller call other old called phase presentToo =>
      exact advanced presentToo rfl
  | progress other old event presentToo fetching =>
      exact advanced presentToo rfl
  | fetched other old ending presentToo fetching =>
      exact advanced presentToo rfl
  | retire other old ending presentToo ended free =>
      exact advanced presentToo rfl
  | finish other old ending presentToo retired =>
      exact advanced presentToo rfl
  | release other old ending presentToo published =>
      exact advanced presentToo rfl
  | pass caller call other cursor expired old now called phase _ =>
      refine ⟨flight, ?_, rfl⟩
      cases old.state.pass cursor expired call.deadline now <;> exact present
  | _ => exact ⟨flight, present, rfl⟩

/-- How a call gets to a flight: it was there before the step, or it found
the flight in the registry, or it registered the flight. -/
theorem Step.attached_cases
    {before after : Flights ι K V E P}
    (step : Step before after)
    {caller : ι}
    {call : JoinCall K V E P}
    {number : Nat}
    (called : after.call caller = some call)
    (shares : call.phase.flight? = some number) :
    (∃ old, before.call caller = some old ∧ old.key = call.key ∧
        old.phase.flight? = some number) ∨
      (before.lock = none ∧ before.registry call.key = some number ∧
        after.flight = before.flight) ∨
      (before.lock = none ∧ before.registry call.key = none ∧
        number = before.next) := by
  have moved : ∀ {other : ι} {old : JoinCall K V E P} {phase : Phase V E P},
      before.call other = some old →
      (phase.flight? = some number → old.phase.flight? = some number) →
      Function.update before.call other
        (some { old with phase := phase }) caller = some call →
      (∃ old, before.call caller = some old ∧ old.key = call.key ∧
        old.phase.flight? = some number) := by
    intro other old phase present keeps found
    by_cases same : caller = other
    · subst same
      rw [Function.update_self, Option.some.injEq] at found
      subst found
      exact ⟨old, present, rfl, keeps shares⟩
    · rw [Function.update_of_ne same] at found
      exact ⟨call, found, rfl, shares⟩
  cases step with
  | enter other key deadline absent =>
      left
      by_cases same : caller = other
      · subst same
        have here : some call = some ⟨key, deadline, .entering⟩ :=
          called.symm.trans (Function.update_self ..)
        cases here
        cases shares
      · exact ⟨call, (Function.update_of_ne same ..).symm.trans called, rfl,
          shares⟩
  | attach other old found present phase free entry =>
      by_cases same : caller = other
      · subst same
        have here : some call = some { old with phase := .attached found } :=
          called.symm.trans (Function.update_self ..)
        cases here
        cases shares
        exact Or.inr (Or.inl ⟨free, entry, rfl⟩)
      · exact Or.inl ⟨call,
          (Function.update_of_ne same ..).symm.trans called, rfl, shares⟩
  | register other old present phase free absent =>
      by_cases same : caller = other
      · subst same
        have here : some call = some { old with
            phase := .starting before.next } :=
          called.symm.trans (Function.update_self ..)
        cases here
        cases shares
        exact Or.inr (Or.inr ⟨free, absent, rfl⟩)
      · exact Or.inl ⟨call,
          (Function.update_of_ne same ..).symm.trans called, rfl, shares⟩
  | spawn other old found flight present phase _ =>
      exact Or.inl (moved present (by rw [phase]; exact id) called)
  | spawnFailed other old found flight present phase _ =>
      exact Or.inl (moved present (fun none => by cases none) called)
  | unwind other old present phase =>
      exact Or.inl (moved present (fun none => by cases none) called)
  | unlock other old found present phase =>
      exact Or.inl (moved present (by rw [phase]; exact id) called)
  | begin other old found flight present phase _ =>
      exact Or.inl (moved present (by rw [phase]; exact id) called)
  | pass other old found cursor expired flight now present phase _ =>
      left
      cases decision : flight.state.pass cursor expired old.deadline now <;>
        (rw [decision] at called
         exact moved present (by rw [phase]; exact id) called)
  | wake other old found cursor timedOut present phase _ =>
      exact Or.inl (moved present (by rw [phase]; exact id) called)
  | observe other old found cursor expired event events answer present
      phase =>
      exact Or.inl (moved present (by rw [phase]; exact id) called)
  | observerPanics other old found cursor expired event events answer
      present phase =>
      exact Or.inl (moved present (by rw [phase]; exact id) called)
  | again other old found cursor expired present phase =>
      exact Or.inl (moved present (by rw [phase]; exact id) called)
  | answer other old found cursor expired joined present phase =>
      exact Or.inl (moved present (by rw [phase]; exact id) called)
  | _ => exact Or.inl ⟨call, called, rfl, shares⟩

/-- A call inside `wait` moves by itself: neither the registry nor any flight
notices. -/
theorem Step.waiting_cases
    {before after : Flights ι K V E P}
    (step : Step before after)
    {caller : ι}
    {call : JoinCall K V E P}
    (called : before.call caller = some call)
    (waits : call.phase.Waits) :
    after.call caller = some call ∨
      ∃ phase, after = before.move caller call phase := by
  have apart : ∀ {other : ι} {old : JoinCall K V E P} {phase : Phase V E P},
      before.call other = some old →
      ¬old.phase.Waits →
      Function.update before.call other
        (some { old with phase := phase }) caller = some call := by
    intro other old phase present resting
    have different : caller ≠ other := by
      rintro rfl
      rw [called, Option.some.injEq] at present
      subst present
      exact resting waits
    rw [Function.update_of_ne different]
    exact called
  have together : ∀ {other : ι} {old : JoinCall K V E P}
      {phase : Phase V E P},
      before.call other = some old →
      (before.move other old phase).call caller = some call ∨
        ∃ following, before.move other old phase =
          before.move caller call following := by
    intro other old phase present
    by_cases same : caller = other
    · subst same
      rw [called, Option.some.injEq] at present
      subst present
      exact Or.inr ⟨phase, rfl⟩
    · exact Or.inl ((Function.update_of_ne same ..).trans called)
  cases step with
  | enter other key deadline absent =>
      left
      have different : caller ≠ other := by
        rintro rfl
        rw [called] at absent
        cases absent
      exact (Function.update_of_ne different ..).trans called
  | attach other old found present phase free entry =>
      exact Or.inl (apart present (by rw [phase]; exact id))
  | register other old present phase free absent =>
      exact Or.inl (apart present (by rw [phase]; exact id))
  | spawn other old found flight present phase _ =>
      exact Or.inl (apart present (by rw [phase]; exact id))
  | spawnFailed other old found flight present phase _ =>
      exact Or.inl (apart present (by rw [phase]; exact id))
  | unwind other old present phase =>
      exact Or.inl (apart present (by rw [phase]; exact id))
  | unlock other old found present phase =>
      exact Or.inl (apart present (by rw [phase]; exact id))
  | begin other old found flight present phase _ => exact together present
  | pass other old found cursor expired flight now present phase _ =>
      cases flight.state.pass cursor expired old.deadline now <;>
        exact together present
  | wake other old found cursor timedOut present phase _ =>
      exact together present
  | observe other old found cursor expired event events answer present
      phase =>
      exact together present
  | observerPanics other old found cursor expired event events answer
      present phase =>
      exact together present
  | again other old found cursor expired present phase =>
      exact together present
  | answer other old found cursor expired joined present phase =>
      exact together present
  | _ => exact Or.inl called

/-! ## What callers can count on -/

/-- A fetch of the key is running. -/
def Fetching
    (flights : Flights ι K V E P)
    (key : K)
    (number : Nat) :
    Prop :=
  ∃ flight, flights.flight number = some flight ∧ flight.key = key ∧
    flight.worker = .fetching

/-- Callers can see the outcome of the fetch. -/
def Visible
    (flights : Flights ι K V E P)
    (number : Nat)
    (ending : Ending V E) :
    Prop :=
  ∃ flight, flights.flight number = some flight ∧
    flight.worker.visible = some ending

/-- The call with this key has its flight. -/
def Attached
    (flights : Flights ι K V E P)
    (caller : ι)
    (key : K)
    (number : Nat) :
    Prop :=
  ∃ call, flights.call caller = some call ∧ call.key = key ∧
    call.phase.flight? = some number

/-- The call was given the answer. -/
def Returned
    (flights : Flights ι K V E P)
    (caller : ι)
    (number : Nat)
    (joined : Joined V E) :
    Prop :=
  ∃ call, flights.call caller = some call ∧
    call.phase = .returned number joined

/-- The step makes the outcome visible. -/
structure Publishes
    (before after : Flights ι K V E P)
    (number : Nat)
    (ending : Ending V E) :
    Prop where
  step : Step before after
  hidden : ¬before.Visible number ending
  shown : after.Visible number ending

/-- A visible outcome stays visible, and what is not registered any more does
not come back. -/
theorem Step.settled
    {before after : Flights ι K V E P}
    (step : Step before after)
    (consistent : before.Consistent)
    {number : Nat}
    {flight : Flight K V E P}
    (present : before.flight number = some flight)
    (out : ¬flight.worker.Registered) :
    ∃ later, after.flight number = some later ∧ later.key = flight.key ∧
      ¬later.worker.Registered ∧
        ∀ ending, flight.worker.visible = some ending →
          later.worker.visible = some ending := by
  obtain ⟨later, presentLater, sameKey⟩ := step.flight_stays consistent present
  refine ⟨later, presentLater, sameKey, ?_⟩
  rcases step.flight_cases consistent presentLater with
    same | ⟨old, presentToo, _, ahead, _⟩ | ⟨same, _⟩
  · rw [present, Option.some.injEq] at same
    subst same
    exact ⟨out, fun _ visible => visible⟩
  · rw [present, Option.some.injEq] at presentToo
    subst presentToo
    exact ahead.settled out
  · rw [same, consistent.fresh before.next (Nat.le_refl _)] at present
    cases present

theorem settled_of_reaches
    {before after : Flights ι K V E P}
    (consistent : before.Consistent)
    (reaches : Relation.ReflTransGen Step before after)
    {number : Nat}
    {flight : Flight K V E P}
    (present : before.flight number = some flight)
    (out : ¬flight.worker.Registered) :
    after.Consistent ∧
      ∃ later, after.flight number = some later ∧ later.key = flight.key ∧
        ¬later.worker.Registered ∧
          ∀ ending, flight.worker.visible = some ending →
            later.worker.visible = some ending := by
  induction reaches with
  | refl => exact ⟨consistent, flight, present, rfl, out, fun _ shown => shown⟩
  | tail _ step inductionHypothesis =>
      obtain ⟨agree, middle, presentMiddle, keyMiddle, outMiddle,
        shownMiddle⟩ := inductionHypothesis
      obtain ⟨later, presentLater, keyLater, outLater, shownLater⟩ :=
        step.settled agree presentMiddle outMiddle
      exact ⟨step.consistent agree, later, presentLater,
        keyLater.trans keyMiddle, outLater,
        fun ending shown => shownLater ending (shownMiddle ending shown)⟩

/-- The outcome becomes visible by the step of its own thread, which holds
the registry lock and has retired its key. -/
theorem Publishes.retired
    {before after : Flights ι K V E P}
    {number : Nat}
    {ending : Ending V E}
    (publishes : Publishes before after number ending)
    (consistent : before.Consistent) :
    after.call = before.call ∧
      ∃ flight later, before.flight number = some flight ∧
        after.flight number = some later ∧ later.key = flight.key ∧
          later.worker = .published ending := by
  obtain ⟨step, hidden, later, presentLater, shown⟩ := publishes
  rcases step.flight_cases consistent presentLater with
    same | ⟨flight, present, sameKey, ahead, calls⟩ | ⟨_, starts, _⟩
  · exact absurd ⟨later, same, shown⟩ hidden
  · have stage := ahead.publishes
      (fun visible => hidden ⟨flight, present, visible⟩) shown
    refine ⟨calls ?_, flight, later, present, presentLater, sameKey, stage.2⟩
    rw [stage.1]
    trivial
  · rw [starts] at shown
    cases shown

omit [DecidableEq ι] [DecidableEq K] in
/-- A call shares a flight of its own key. -/
theorem Consistent.attached_key
    {flights : Flights ι K V E P}
    (consistent : flights.Consistent)
    {caller : ι}
    {key : K}
    {number : Nat}
    (attached : flights.Attached caller key number) :
    ∃ flight, flights.flight number = some flight ∧ flight.key = key := by
  obtain ⟨call, called, rfl, shares⟩ := attached
  have sound := consistent.call caller call called
  have of_shares : ∀ shared, shared = number →
      flights.Shares call.key shared →
      ∃ flight, flights.flight number = some flight ∧
        flight.key = call.key := by
    rintro _ rfl ⟨flight, present, sameKey, _⟩
    exact ⟨flight, present, sameKey⟩
  unfold CallSound at sound
  revert sound shares
  cases call.phase with
  | entering =>
      intro shares
      cases shares
  | failing =>
      intro shares
      cases shares
  | starting shared =>
      intro shares sound
      cases shares
      obtain ⟨flight, present, sameKey, _⟩ := sound
      exact ⟨flight, present, sameKey⟩
  | attached shared =>
      exact fun shares sound => of_shares _ (Option.some.inj shares) sound
  | waiting shared =>
      exact fun shares sound => of_shares _ (Option.some.inj shares) sound
  | looking shared cursor expired =>
      exact fun shares sound => of_shares _ (Option.some.inj shares) sound.1
  | sleeping shared cursor =>
      exact fun shares sound => of_shares _ (Option.some.inj shares) sound
  | relaying shared cursor expired events answer =>
      exact fun shares sound => of_shares _ (Option.some.inj shares) sound.1
  | returned shared joined =>
      exact fun shares sound => of_shares _ (Option.some.inj shares) sound.1
  | panicked shared =>
      exact fun shares sound => of_shares _ rfl (sound number shares)

/-- Nobody gets to a flight that is out of the registry. -/
theorem Step.attached_before
    {before after : Flights ι K V E P}
    (step : Step before after)
    (consistent : before.Consistent)
    {caller : ι}
    {key : K}
    {number : Nat}
    {flight : Flight K V E P}
    (present : before.flight number = some flight)
    (out : ¬flight.worker.Registered)
    (attached : after.Attached caller key number) :
    before.Attached caller key number := by
  obtain ⟨call, called, rfl, shares⟩ := attached
  rcases step.attached_cases called shares with
    ⟨old, calledBefore, sameKey, sharesBefore⟩ | ⟨_, entry, _⟩ | ⟨_, _, same⟩
  · exact ⟨old, calledBefore, sameKey, sharesBefore⟩
  · obtain ⟨held, presentToo, _, registered⟩ :=
      consistent.registered call.key number entry
    rw [present, Option.some.injEq] at presentToo
    subst presentToo
    exact absurd registered out
  · rw [same, consistent.fresh before.next (Nat.le_refl _)] at present
    cases present

/-- Whoever shares a flight with a visible outcome got to it before the
outcome was published. -/
theorem Reachable.published_before
    {flights : Flights ι K V E P}
    (reachable : flights.Reachable)
    {caller : ι}
    {key : K}
    {number : Nat}
    {ending : Ending V E}
    (attached : flights.Attached caller key number)
    (visible : flights.Visible number ending) :
    ∃ before after : Flights ι K V E P, before.Reachable ∧
      Publishes before after number ending ∧
      Relation.ReflTransGen Step after flights ∧
      before.Attached caller key number := by
  induction reachable with
  | refl =>
      obtain ⟨flight, present, _⟩ := visible
      cases present
  | @tail before after reached step inductionHypothesis =>
      have consistent := Reachable.consistent reached
      by_cases shown : before.Visible number ending
      · obtain ⟨flight, present, visibleBefore⟩ := shown
        have out : ¬flight.worker.Registered := by
          intro registered
          cases worker : flight.worker <;>
            simp_all [Worker.visible, Worker.Registered]
        obtain ⟨first, second, reachedFirst, publishes, later, early⟩ :=
          inductionHypothesis
            (step.attached_before consistent present out attached)
            ⟨flight, present, visibleBefore⟩
        exact ⟨first, second, reachedFirst, publishes, later.tail step,
          early⟩
      · have publishes : Publishes before after number ending :=
          ⟨step, shown, visible⟩
        refine ⟨before, after, reached, publishes, .refl, ?_⟩
        obtain ⟨call, called, sameKey, shares⟩ := attached
        rw [(publishes.retired consistent).1] at called
        exact ⟨call, called, sameKey, shares⟩

theorem attached_since
    {before later : Flights ι K V E P}
    (consistent : before.Consistent)
    (reaches : Relation.ReflTransGen Step before later)
    {caller : ι}
    {key : K}
    {number : Nat}
    {flight : Flight K V E P}
    (present : before.flight number = some flight)
    (out : ¬flight.worker.Registered)
    (attached : later.Attached caller key number) :
    before.Attached caller key number := by
  induction reaches with
  | refl => exact attached
  | tail reached step inductionHypothesis =>
      obtain ⟨agree, middle, presentMiddle, _, outMiddle, _⟩ :=
        settled_of_reaches consistent reached present out
      exact inductionHypothesis
        (step.attached_before agree presentMiddle outMiddle attached)

/-- A flight keeps its key. -/
theorem flight_stays_of_reaches
    {before later : Flights ι K V E P}
    (consistent : before.Consistent)
    (reaches : Relation.ReflTransGen Step before later)
    {number : Nat}
    {flight : Flight K V E P}
    (present : before.flight number = some flight) :
    later.Consistent ∧ ∃ following, later.flight number = some following ∧
      following.key = flight.key := by
  induction reaches with
  | refl => exact ⟨consistent, flight, present, rfl⟩
  | tail _ step inductionHypothesis =>
      obtain ⟨agree, middle, presentMiddle, keyMiddle⟩ := inductionHypothesis
      obtain ⟨following, presentLater, keyLater⟩ :=
        step.flight_stays agree presentMiddle
      exact ⟨step.consistent agree, following, presentLater,
        keyLater.trans keyMiddle⟩

/-- After an outcome was published nobody gets to a flight of its key that
existed then. -/
theorem Publishes.later
    {before after later : Flights ι K V E P}
    {number : Nat}
    {ending : Ending V E}
    (publishes : Publishes before after number ending)
    (consistent : before.Consistent)
    (reaches : Relation.ReflTransGen Step after later)
    {caller : ι}
    {flight : Flight K V E P}
    (present : before.flight number = some flight)
    {other : Nat}
    (attached : later.Attached caller flight.key other) :
    before.Attached caller flight.key other ∨
      after.flight other = none := by
  obtain ⟨calls, found, following, presentToo, presentAfter, keyAfter,
    worker⟩ := publishes.retired consistent
  rw [present, Option.some.injEq] at presentToo
  subst presentToo
  have agree := publishes.step.consistent consistent
  have gone : after.registry flight.key = none := by
    rw [← keyAfter]
    apply (agree.flight number following presentAfter).retired
    rw [worker]
    trivial
  cases existing : after.flight other with
  | none => exact Or.inr rfl
  | some held =>
      left
      obtain ⟨agreeLater, last, presentLast, keyLast⟩ :=
        flight_stays_of_reaches agree reaches existing
      obtain ⟨shared, presentShared, keyShared⟩ :=
        agreeLater.attached_key attached
      rw [presentLast, Option.some.injEq] at presentShared
      subst presentShared
      have sameKey : held.key = flight.key := keyLast.symm.trans keyShared
      have out : ¬held.worker.Registered := by
        intro registered
        have entry := (agree.flight other held existing).registered registered
        rw [sameKey, gone] at entry
        cases entry
      obtain ⟨call, called, keyCall, shares⟩ :=
        attached_since agree reaches existing out attached
      rw [calls] at called
      exact ⟨call, called, keyCall, shares⟩

/-- Whoever gets to a flight now found it in the registry, or registered it
under a key that was free. -/
theorem Step.attaches
    {before after : Flights ι K V E P}
    (step : Step before after)
    (consistent : before.Consistent)
    {caller : ι}
    {key : K}
    {number : Nat}
    (attached : after.Attached caller key number) :
    before.Attached caller key number ∨
      before.registry key = some number ∨
      (before.registry key = none ∧ before.flight number = none ∧
        ∀ other, ¬before.Fetching key other) := by
  obtain ⟨call, called, rfl, shares⟩ := attached
  rcases step.attached_cases called shares with
    ⟨old, calledBefore, sameKey, sharesBefore⟩ | ⟨_, entry, _⟩ |
      ⟨_, absent, same⟩
  · exact Or.inl ⟨old, calledBefore, sameKey, sharesBefore⟩
  · exact Or.inr (Or.inl entry)
  · refine Or.inr (Or.inr ⟨absent, ?_, ?_⟩)
    · rw [same]
      exact consistent.fresh before.next (Nat.le_refl _)
    · rintro other ⟨flight, present, sameKey, fetching⟩
      have entry := consistent.fetching_entry present fetching
      rw [sameKey, absent] at entry
      cases entry

/-- A running fetch goes on, whoever leaves, until it ends by itself. -/
theorem Step.fetch_continues
    {before after : Flights ι K V E P}
    (step : Step before after)
    (consistent : before.Consistent)
    {key : K}
    {number : Nat}
    (fetching : before.Fetching key number) :
    after.Fetching key number ∨
      ∃ flight ending, after.call = before.call ∧
        after.flight number = some flight ∧ flight.key = key ∧
          flight.worker = .ended ending := by
  obtain ⟨flight, present, rfl, worker⟩ := fetching
  obtain ⟨later, presentLater, sameKey⟩ := step.flight_stays consistent present
  rcases step.flight_cases consistent presentLater with
    same | ⟨old, presentToo, _, ahead, calls⟩ | ⟨same, _⟩
  · rw [present, Option.some.injEq] at same
    subst same
    exact Or.inl ⟨flight, presentLater, rfl, worker⟩
  · rw [present, Option.some.injEq] at presentToo
    subst presentToo
    rw [worker] at ahead calls
    generalize stage : later.worker = following at ahead
    cases ahead with
    | progress => exact Or.inl ⟨later, presentLater, sameKey, stage⟩
    | fetched ending =>
        exact Or.inr ⟨later, ending, calls trivial, presentLater, sameKey,
          stage⟩
  · rw [same, consistent.fresh before.next (Nat.le_refl _)] at present
    cases present

/-- A fetch starts for the call that registered its flight, and while no
other fetch of the key runs. -/
theorem Step.fetch_starts
    {before after : Flights ι K V E P}
    (step : Step before after)
    (consistent : before.Consistent)
    {key : K}
    {number : Nat}
    (fetching : after.Fetching key number) :
    before.Fetching key number ∨
      (before.registry key = some number ∧
        (∀ other, ¬before.Fetching key other) ∧
          ∃ caller call, before.call caller = some call ∧
            call.phase = .starting number) := by
  obtain ⟨later, presentLater, rfl, worker⟩ := fetching
  rcases step.flight_cases consistent presentLater with
    same | ⟨flight, present, sameKey, ahead, _⟩ | ⟨_, starts, _⟩
  · exact Or.inl ⟨later, same, rfl, worker⟩
  · rw [worker] at ahead
    generalize stage : flight.worker = old at ahead
    cases ahead with
    | spawn =>
        have entry : before.registry flight.key = some number := by
          apply (consistent.flight number flight present).registered
          rw [stage]
          trivial
        rw [sameKey]
        refine Or.inr ⟨entry, ?_,
          consistent.launching number flight present stage⟩
        rintro other ⟨found, presentToo, keyToo, running⟩
        have entryToo := consistent.fetching_entry presentToo running
        rw [keyToo, entry, Option.some.injEq] at entryToo
        subst entryToo
        rw [present, Option.some.injEq] at presentToo
        subst presentToo
        rw [stage] at running
        cases running
    | progress => exact Or.inl ⟨flight, present, sameKey.symm, stage⟩
  · rw [starts] at worker
    cases worker

/-- The safety of single-flight coordination in a state: what holds in it,
what its steps can do, and what the run from it can. -/
structure Sound (flights : Flights ι K V E P) : Prop where
  oneFetch : ∀ key first second, flights.Fetching key first →
    flights.Fetching key second → first = second
  /-- Callers other than the ones that gave up return the outcome of the fetch
  they had attached to before it was published. -/
  told : ∀ caller key number joined,
    flights.Attached caller key number →
    flights.Returned caller number joined →
    joined ≠ .pending →
    ∃ ending, joined = .ofEnding ending ∧
      ∃ before after : Flights ι K V E P, before.Reachable ∧
        Publishes before after number ending ∧
        Relation.ReflTransGen Step after flights ∧
        before.Attached caller key number
  /-- Whoever gave no deadline does not give up. -/
  patient : ∀ caller call number, flights.call caller = some call →
    call.phase = .returned number .pending → call.deadline.isSome
  /-- A fetch is started only when none is registered, by the call that
  registers it. -/
  attaches : ∀ after caller key number, Step flights after →
    after.Attached caller key number →
    flights.Attached caller key number ∨
      flights.registry key = some number ∨
      (flights.registry key = none ∧ flights.flight number = none ∧
        ∀ other, ¬flights.Fetching key other)
  starts : ∀ after key number, Step flights after →
    after.Fetching key number →
    flights.Fetching key number ∨
      (flights.registry key = some number ∧
        (∀ other, ¬flights.Fetching key other) ∧
          ∃ caller call, flights.call caller = some call ∧
            call.phase = .starting number)
  /-- A call that asks for a key whose fetch runs shares this fetch. -/
  shares : ∀ after caller key number other, Step flights after →
    flights.Fetching key number →
    after.Attached caller key other →
    flights.Attached caller key other ∨ other = number
  /-- Once an outcome is visible, whoever asks for the key gets a flight that
  did not exist then. -/
  fresh : ∀ before number ending flight caller other,
    before.Reachable →
    (∃ after, Publishes before after number ending ∧
      Relation.ReflTransGen Step after flights ∧
      before.flight number = some flight ∧
      (after.flight other).isSome) →
    flights.Attached caller flight.key other →
    before.Attached caller flight.key other
  /-- A waiter moves, and leaves, by itself. -/
  leaves : ∀ after caller call, Step flights after →
    flights.call caller = some call → call.phase.Waits →
    after.call caller = some call ∨
      ∃ phase, after = flights.move caller call phase
  /-- Nothing but its own end stops a fetch. -/
  continues : ∀ after key number, Step flights after →
    flights.Fetching key number →
    after.Fetching key number ∨
      ∃ flight ending, after.call = flights.call ∧
        after.flight number = some flight ∧ flight.key = key ∧
          flight.worker = .ended ending

/-- Single-flight coordination is safe in every state that any number of
calls and threads can reach. -/
theorem Reachable.safe
    {flights : Flights ι K V E P}
    (reachable : flights.Reachable) :
    flights.Sound := by
  have consistent := reachable.consistent
  constructor
  · rintro key first second ⟨flight, present, rfl, running⟩
      ⟨found, presentToo, sameKey, runningToo⟩
    have entry := consistent.fetching_entry present running
    have entryToo := consistent.fetching_entry presentToo runningToo
    rw [sameKey, entry] at entryToo
    exact Option.some.inj entryToo
  · rintro caller key number joined attached ⟨call, called, phase⟩ answered
    rcases (consistent.phase called phase).2 with
      ⟨gaveUp, _⟩ | ⟨flight, ending, present, visible, same⟩
    · exact absurd gaveUp answered
    · exact ⟨ending, same,
        reachable.published_before attached ⟨flight, present, visible⟩⟩
  · intro caller call number called phase
    rcases (consistent.phase called phase).2 with
      ⟨_, given⟩ | ⟨_, ending, _, _, same⟩
    · exact given
    · cases ending <;> cases same
  · exact fun after caller key number step attached =>
      step.attaches consistent attached
  · exact fun after key number step fetching =>
      step.fetch_starts consistent fetching
  · rintro after caller key number other step
      ⟨flight, present, rfl, running⟩ attached
    have entry := consistent.fetching_entry present running
    rcases step.attaches consistent attached with
      already | found | ⟨absent, _⟩
    · exact Or.inl already
    · rw [entry] at found
      exact Or.inr (Option.some.inj found).symm
    · rw [entry] at absent
      cases absent
  · rintro before number ending flight caller other reachedBefore
      ⟨after, publishes, reaches, present, existing⟩ attached
    rcases publishes.later reachedBefore.consistent reaches present attached
      with early | missing
    · exact early
    · rw [missing] at existing
      cases existing
  · exact fun after caller call step called waits =>
      step.waiting_cases called waits
  · exact fun after key number step fetching =>
      step.fetch_continues consistent fetching

/-- One call starts a fetch, a second one shares it, and the first one
returns its result. -/
theorem safe_of_sharedFetch :
    ∃ flights : Flights Nat String Nat String Unit,
      flights.Returned 0 0 (.completed (.ok 7)) ∧
        flights.Attached 1 "key" 0 ∧ flights.Sound := by
  have first : Reachable (ι := Nat) (K := String) (V := Nat) (E := String)
      (P := Unit) _ :=
    Relation.ReflTransGen.refl.tail (.enter new 0 "key" none rfl)
  have registered := first.tail (.register _ 0 _ rfl rfl rfl rfl)
  have spawned := registered.tail (.spawn _ 0 _ 0 _ rfl rfl rfl)
  have unlocked := spawned.tail (.unlock _ 0 _ 0 rfl rfl)
  have second := unlocked.tail (.enter _ 1 "key" none rfl)
  have shared := second.tail (.attach _ 1 _ 0 rfl rfl rfl rfl)
  have free := shared.tail (.unlock _ 1 _ 0 rfl rfl)
  have fetched := free.tail (.fetched _ 0 _ (some (.ok 7)) rfl rfl)
  have retired := fetched.tail (.retire _ 0 _ _ rfl rfl rfl)
  have published := retired.tail (.finish _ 0 _ _ rfl rfl)
  have looks := published.tail (.begin _ 0 _ 0 _ rfl rfl rfl)
  have passed := looks.tail (.pass _ 0 _ 0 0 false _ 0 rfl rfl rfl)
  have answered := passed.tail (.answer _ 0 _ 0 0 false _ rfl rfl)
  exact ⟨_, ⟨_, rfl, rfl⟩, ⟨_, rfl, rfl, rfl⟩, Reachable.safe answered⟩

end Flights
end ModelKeep
