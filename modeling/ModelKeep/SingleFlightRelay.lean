import Mathlib.Data.List.Induction
import ModelKeep.SingleFlightSafety

/-!
# The relay of progress

A flight numbers the events it publishes and retains the newest ones; a waiter
drains them in passes and shows them to its observer outside the lock.  A watch
is kept beside a run: it remembers everything that was published, and what each
observer was shown, with its sequence number.  It reads both off the states and
never decides a step.
-/

namespace ModelKeep

/-! ## The retained events -/

/-- Events with the sequence numbers they were published under. -/
def numbered {P : Type} (log : List P) : List (Nat × P) :=
  log.zipIdx.map Prod.swap

section numbered

variable {P : Type} {log : List P}

@[simp] theorem length_numbered : (numbered log).length = log.length := by
  simp [numbered]

theorem numbered_append (event : P) :
    numbered (log ++ [event]) = numbered log ++ [(log.length, event)] := by
  simp [numbered, List.zipIdx_append]

theorem mem_numbered {entry : Nat × P} :
    entry ∈ numbered log ↔ log[entry.1]? = some entry.2 := by
  rw [numbered, List.mem_map]
  constructor
  · rintro ⟨found, member, rfl⟩
    exact List.mem_zipIdx_iff_getElem?.mp member
  · intro found
    exact ⟨(entry.2, entry.1), List.mem_zipIdx_iff_getElem?.mpr found, rfl⟩

theorem numbered_sorted : (numbered log).Pairwise (·.1 < ·.1) := by
  induction log using List.reverseRecOn with
  | nil => simp [numbered]
  | append_singleton log event inductionHypothesis =>
      rw [numbered_append, List.pairwise_append]
      refine ⟨inductionHypothesis, List.pairwise_singleton _ _, ?_⟩
      intro earlier member latest same
      rw [List.mem_singleton.mp same]
      exact (List.getElem?_eq_some_iff.mp (mem_numbered.mp member)).1

/-- The events from a sequence number on. -/
theorem filter_numbered (cursor : Nat) :
    (numbered log).filter (fun entry => cursor ≤ entry.1) =
      (numbered log).drop cursor := by
  induction log using List.reverseRecOn with
  | nil => simp [numbered]
  | append_singleton log event inductionHypothesis =>
      rw [numbered_append, List.filter_append, inductionHypothesis,
        List.drop_append, length_numbered]
      congr 1
      by_cases later : cursor ≤ log.length
      · simp [later]
      · have beyond : 1 ≤ cursor - log.length := by omega
        simpa [later] using beyond

end numbered

namespace FlightState

variable {V E P : Type}

/-- The flight has published these events and retains the newest ones. -/
structure Retains (state : FlightState V E P) (log : List P) : Prop where
  next : state.nextSequence = log.length
  progress : state.progress =
    (numbered log).drop (log.length - progressHistory)

theorem retains_new : (new : FlightState V E P).Retains [] :=
  ⟨rfl, rfl⟩

theorem Retains.publish
    {state : FlightState V E P}
    {log : List P}
    (retains : state.Retains log)
    (event : P) :
    (state.publish event).Retains (log ++ [event]) := by
  constructor
  · simp [FlightState.publish, retains.next]
  · have length : state.progress.length ≤ progressHistory := by
      rw [retains.progress, List.length_drop, length_numbered]
      omega
    rw [numbered_append, List.length_append, List.length_singleton]
    simp only [FlightState.publish, retains.next, List.length_append,
      List.length_singleton]
    by_cases few : log.length < progressHistory
    · have whole : state.progress = numbered log := by
        rw [retains.progress, Nat.sub_eq_zero_of_le (Nat.le_of_lt few),
          List.drop_zero]
      have all : log.length + 1 - progressHistory = 0 := by omega
      rw [whole, length_numbered, all, List.drop_zero]
    · have full : state.progress.length = progressHistory := by
        rw [retains.progress, List.length_drop, length_numbered]
        omega
      have oldest : progressHistory + 1 - progressHistory = 1 := by omega
      have later : log.length + 1 - progressHistory =
          log.length - progressHistory + 1 := by omega
      have inside : 1 ≤ ((numbered log).drop
          (log.length - progressHistory)).length := by
        rw [← retains.progress, full]
        decide
      rw [full, oldest, later, retains.progress,
        List.drop_append_of_le_length inside, List.drop_drop,
        ← List.drop_append_of_le_length]
      rw [length_numbered]
      have history : progressHistory = 64 := rfl
      omega

/-- What a waiter reads under the lock, with its sequence numbers. -/
def unread (state : FlightState V E P) (cursor : Nat) : List (Nat × P) :=
  state.progress.filter fun entry => cursor ≤ entry.1

theorem Retains.unread
    {state : FlightState V E P}
    {log : List P}
    (retains : state.Retains log)
    (cursor : Nat) :
    state.unread cursor =
      (numbered log).drop (max cursor (log.length - progressHistory)) := by
  rw [FlightState.unread, retains.progress, ← filter_numbered,
    List.filter_filter, ← filter_numbered]
  congr 1
  funext entry
  rw [← Bool.decide_and, decide_eq_decide]
  omega

/-- The pass through the retained events raises the cursor as it goes; they
are in order, so it reads what the first cursor reads. -/
theorem pending_eq
    {state : FlightState V E P}
    (sorted : state.progress.Pairwise (·.1 < ·.1))
    (cursor : Nat) :
    state.pending cursor = ((state.unread cursor).map Prod.snd,
      match (state.unread cursor).getLast? with
      | none => cursor
      | some latest => latest.1 + 1) := by
  have scans : ∀ (entries : List (Nat × P)) (read : List P) (position : Nat),
      entries.Pairwise (·.1 < ·.1) →
      entries.foldl (fun read event =>
          if read.2 ≤ event.1 then (read.1 ++ [event.2], event.1 + 1)
          else read) (read, position) =
        (read ++ (entries.filter fun entry => position ≤ entry.1).map
            Prod.snd,
          match (entries.filter fun entry => position ≤ entry.1).getLast? with
          | none => position
          | some latest => latest.1 + 1) := by
    intro entries
    induction entries with
    | nil => simp
    | cons entry entries inductionHypothesis =>
        intro read position ordered
        obtain ⟨below, ordered⟩ := List.pairwise_cons.mp ordered
        rw [List.foldl_cons, inductionHypothesis _ _ ordered]
        by_cases due : position ≤ entry.1
        · have all : ∀ start, start ≤ entry.1 + 1 →
              (entries.filter fun other => start ≤ other.1) = entries := by
            intro start early
            rw [List.filter_eq_self]
            intro other member
            have later := below other member
            simp only [decide_eq_true_eq]
            omega
          rw [List.filter_cons_of_pos (by simpa using due)]
          simp only [due, if_true]
          rw [all _ (Nat.le_refl _), all _ (by omega)]
          rw [List.getLast?_cons, List.map_cons, List.append_assoc]
          cases entries.getLast? <;> rfl
        · rw [List.filter_cons_of_neg (by simpa using due)]
          simp only [due, if_false]
  have whole := scans state.progress [] cursor sorted
  rw [List.nil_append] at whole
  exact whole

/-- A pass reads up to the latest event. -/
theorem Retains.pending
    {state : FlightState V E P}
    {log : List P}
    (retains : state.Retains log)
    (cursor : Nat) :
    state.pending cursor =
      ((state.unread cursor).map Prod.snd, max cursor log.length) := by
  have sorted : state.progress.Pairwise (·.1 < ·.1) := by
    rw [retains.progress]
    exact numbered_sorted.drop
  rw [pending_eq sorted, retains.unread]
  congr 1
  by_cases behind : cursor < log.length
  · have inside : max cursor (log.length - progressHistory) <
        log.length := by
      have history : progressHistory = 64 := rfl
      omega
    obtain ⟨rest, last, whole⟩ : ∃ rest last, log = rest ++ [last] := by
      cases log using List.reverseRecOn with
      | nil => cases behind
      | append_singleton rest last _ => exact ⟨rest, last, rfl⟩
    rw [List.getLast?_drop, length_numbered, if_neg (by omega), whole,
      numbered_append, List.getLast?_concat, ← whole]
    simp only [whole, List.length_append, List.length_singleton] at behind ⊢
    omega
  · rw [List.drop_eq_nil_of_le, List.getLast?_nil]
    · dsimp only
      omega
    · rw [length_numbered]
      omega

end FlightState

/-! ## The watch -/

/-- An event as an observer was shown it. -/
structure Sighting (P : Type) where
  sequence : Nat
  event : P
  /-- How many events had been published when it was drained. -/
  published : Nat

/-- What is remembered of one caller. -/
structure Sight (P : Type) where
  /-- How many events had been published when it began to wait. -/
  attached : Nat
  /-- What its observer was shown, in order. -/
  seen : List (Sighting P)
  /-- What it has drained and is still to show. -/
  drained : List (Sighting P)

namespace Flights

variable {ι K V E P : Type}

/-- A run that is watched. -/
structure Watched (ι K V E P : Type) where
  flights : Flights ι K V E P
  /-- What every flight has published, in order. -/
  log : Nat → List P
  sight : ι → Sight P

/-- What the lock of a flight protects, as long as there is a flight. -/
def state (flights : Flights ι K V E P) (number : Nat) : FlightState V E P :=
  ((flights.flight number).map Flight.state).getD .new

/-- How far a call is, for one that was made. -/
def phase (flights : Flights ι K V E P) (caller : ι) : Phase V E P :=
  ((flights.call caller).map JoinCall.phase).getD .entering

/-- Remember what a step published. -/
def record (log : List P) (before after : FlightState V E P) : List P :=
  if after.nextSequence = before.nextSequence then log
  else log ++ (after.progress.getLast?.map Prod.snd).toList

/-- The sightings of one pass. -/
def sightings (state : FlightState V E P) (cursor : Nat) :
    List (Sighting P) :=
  (state.unread cursor).map fun entry =>
    ⟨entry.1, entry.2, state.nextSequence⟩

/-- Remember what a step did to a waiter: it began, drained or showed. -/
def Sight.follow (flights : Flights ι K V E P) (sight : Sight P) :
    Phase V E P → Phase V E P → Sight P
  | .waiting number, .looking _ _ _ =>
      { sight with attached := (flights.state number).nextSequence }
  | .looking number cursor _, .relaying _ _ _ _ _ =>
      { sight with drained := sightings (flights.state number) cursor }
  | .relaying _ _ _ (_ :: events) _, .relaying _ _ _ later _ =>
      if later.length = events.length then
        { sight with
          seen := sight.seen ++ sight.drained.take 1
          drained := sight.drained.drop 1 }
      else
        sight
  | _, _ => sight

/-- The watch of a run that has gone on. -/
def Watched.follow (watched : Watched ι K V E P)
    (after : Flights ι K V E P) : Watched ι K V E P where
  flights := after
  log := fun number => record (watched.log number)
    (watched.flights.state number) (after.state number)
  sight := fun caller => Sight.follow watched.flights (watched.sight caller)
    (watched.flights.phase caller) (after.phase caller)

/-- Nothing has been published. -/
def Watched.new : Watched ι K V E P :=
  ⟨Flights.new, fun _ => [], fun _ => ⟨0, [], []⟩⟩

/-- Any step of the system, watched. -/
def Watched.Step [DecidableEq ι] [DecidableEq K]
    (before after : Watched ι K V E P) : Prop :=
  before.flights.Step after.flights ∧ after = before.follow after.flights

def Watched.Reachable [DecidableEq ι] [DecidableEq K]
    (watched : Watched ι K V E P) : Prop :=
  Relation.ReflTransGen Watched.Step .new watched

/-- Every run can be watched. -/
theorem Reachable.watched
    [DecidableEq ι]
    [DecidableEq K]
    {flights : Flights ι K V E P}
    (reachable : flights.Reachable) :
    ∃ watched : Watched ι K V E P,
      watched.Reachable ∧ watched.flights = flights := by
  induction reachable with
  | refl => exact ⟨.new, .refl, rfl⟩
  | tail _ step inductionHypothesis =>
      obtain ⟨watched, reached, rfl⟩ := inductionHypothesis
      exact ⟨watched.follow _, reached.tail ⟨step, rfl⟩, rfl⟩

theorem Watched.Reachable.flights
    [DecidableEq ι]
    [DecidableEq K]
    {watched : Watched ι K V E P}
    (reachable : watched.Reachable) :
    watched.flights.Reachable := by
  induction reachable with
  | refl => exact .refl
  | tail _ step inductionHypothesis => exact inductionHypothesis.tail step.1

/-! ## What an observer is shown -/

/-- The number was passed over: what was shown next was drained when enough
newer events had been published. -/
def PassedOver (items : List (Sighting P)) (sequence : Nat) : Prop :=
  ∃ item ∈ items, sequence < item.sequence ∧
    sequence + 1 + progressHistory ≤ item.published ∧
    ∀ other ∈ items, sequence < other.sequence →
      item.sequence ≤ other.sequence

/-- What a waiter has drained up to its cursor. -/
structure Reads (log : List P) (attached : Nat)
    (items : List (Sighting P)) (cursor : Nat) : Prop where
  genuine : ∀ item ∈ items, log[item.sequence]? = some item.event
  increasing : items.Pairwise (·.sequence < ·.sequence)
  recent : ∀ item ∈ items, attached ≤ item.sequence + 1
  behind : ∀ item ∈ items, item.sequence < cursor
  gaps : ∀ sequence, attached ≤ sequence + 1 → sequence < cursor →
    (∃ item ∈ items, item.sequence = sequence) ∨ PassedOver items sequence
  start : attached ≤ cursor + 1
  within : cursor ≤ log.length
  begun : attached ≤ log.length

/-- A waiter starts one event behind. -/
theorem reads_start (log : List P) :
    Reads log log.length [] (log.length - 1) where
  genuine := by simp
  increasing := List.Pairwise.nil
  recent := by simp
  behind := by simp
  gaps := by
    intro sequence late early
    omega
  start := by omega
  within := by omega
  begun := Nat.le_refl _

theorem Reads.grow
    {log later : List P}
    {attached cursor : Nat}
    {items : List (Sighting P)}
    (reads : Reads log attached items cursor)
    (grown : log <+: later) :
    Reads later attached items cursor where
  genuine := by
    intro item member
    have found := reads.genuine item member
    have inside := (List.getElem?_eq_some_iff.mp found).1
    obtain ⟨more, rfl⟩ := grown
    rw [List.getElem?_append_left inside, found]
  increasing := reads.increasing
  recent := reads.recent
  behind := reads.behind
  gaps := reads.gaps
  start := reads.start
  within := Nat.le_trans reads.within grown.length_le
  begun := Nat.le_trans reads.begun grown.length_le

theorem mem_sightings
    {state : FlightState V E P}
    {log : List P}
    (retains : state.Retains log)
    {cursor : Nat}
    {item : Sighting P} :
    item ∈ sightings state cursor ↔
      max cursor (log.length - progressHistory) ≤ item.sequence ∧
        log[item.sequence]? = some item.event ∧
        item.published = log.length := by
  rw [sightings, retains.unread, ← filter_numbered, List.mem_map]
  constructor
  · rintro ⟨entry, member, rfl⟩
    obtain ⟨found, late⟩ := List.mem_filter.mp member
    exact ⟨by simpa using late, mem_numbered.mp found, retains.next⟩
  · rintro ⟨late, found, total⟩
    refine ⟨(item.sequence, item.event), ?_, ?_⟩
    · exact List.mem_filter.mpr
        ⟨mem_numbered.mpr found, by simpa using late⟩
    · cases item
      rw [← total.trans retains.next.symm]

/-- One pass reads on to the latest event; what it skips has left the
history. -/
theorem Reads.pass
    {state : FlightState V E P}
    {log : List P}
    {attached cursor : Nat}
    {items : List (Sighting P)}
    (reads : Reads log attached items cursor)
    (retains : state.Retains log) :
    Reads log attached (items ++ sightings state cursor)
      (max cursor log.length) := by
  have fresh : ∀ item ∈ sightings state cursor,
      cursor ≤ item.sequence ∧ item.sequence < log.length := by
    intro item member
    obtain ⟨late, found, _⟩ := (mem_sightings retains).mp member
    exact ⟨by omega, (List.getElem?_eq_some_iff.mp found).1⟩
  have ordered : (sightings state cursor).Pairwise
      (·.sequence < ·.sequence) := by
    rw [sightings, retains.unread, List.pairwise_map]
    exact numbered_sorted.drop
  constructor
  · intro item member
    rcases List.mem_append.mp member with before | drained
    · exact reads.genuine item before
    · exact ((mem_sightings retains).mp drained).2.1
  · refine List.pairwise_append.mpr ⟨reads.increasing, ordered, ?_⟩
    intro earlier before later drained
    have first := reads.behind earlier before
    have second := (fresh later drained).1
    omega
  · intro item member
    rcases List.mem_append.mp member with before | drained
    · exact reads.recent item before
    · have start := reads.start
      have late := (fresh item drained).1
      omega
  · intro item member
    rcases List.mem_append.mp member with before | drained
    · have early := reads.behind item before
      omega
    · have early := (fresh item drained).2
      omega
  · intro sequence late early
    by_cases old : sequence < cursor
    · rcases reads.gaps sequence late old with
        ⟨item, member, same⟩ | ⟨item, member, beyond, enough, nearest⟩
      · exact Or.inl ⟨item, List.mem_append_left _ member, same⟩
      · right
        refine ⟨item, List.mem_append_left _ member, beyond, enough, ?_⟩
        intro other found past
        rcases List.mem_append.mp found with before | drained
        · exact nearest other before past
        · have first := reads.behind item member
          have second := (fresh other drained).1
          omega
    · -- the pass either drained the event or found it gone
      have inside : sequence < log.length := by omega
      by_cases kept : log.length - progressHistory ≤ sequence
      · left
        refine ⟨⟨sequence, log[sequence], log.length⟩,
          List.mem_append_right _ ((mem_sightings retains).mpr ⟨?_, ?_, rfl⟩),
          rfl⟩
        · simp only
          omega
        · exact List.getElem?_eq_getElem inside
      · right
        have history : progressHistory = 64 := rfl
        have oldest : max cursor (log.length - progressHistory) <
            log.length := by omega
        refine ⟨⟨max cursor (log.length - progressHistory), log[_],
          log.length⟩, List.mem_append_right _ ((mem_sightings retains).mpr
            ⟨Nat.le_refl _, List.getElem?_eq_getElem oldest, rfl⟩), ?_, ?_, ?_⟩
        · simp only
          omega
        · simp only
          omega
        · intro other found past
          rcases List.mem_append.mp found with before | drained
          · have first := reads.behind other before
            omega
          · exact ((mem_sightings retains).mp drained).1
  · have start := reads.start
    omega
  · have within := reads.within
    omega
  · exact reads.begun

/-- A waiter that is told the outcome has read up to the end. -/
def Caught
    (flights : Flights ι K V E P)
    (log : List P)
    (number cursor : Nat) : Prop :=
  cursor = log.length ∧ ∃ ending, flights.Visible number ending

/-- What is true of a caller's sight for as long as it stays where it is. -/
def Follows
    (flights : Flights ι K V E P)
    (log : Nat → List P)
    (sight : Sight P) : Phase V E P → Prop
  | .looking number cursor _ => sight.drained = [] ∧
      Reads (log number) sight.attached sight.seen cursor
  | .sleeping number cursor => sight.drained = [] ∧
      Reads (log number) sight.attached sight.seen cursor
  | .relaying number cursor _ events answer =>
      sight.drained.map Sighting.event = events ∧
        Reads (log number) sight.attached (sight.seen ++ sight.drained)
          cursor ∧
        (answer ≠ none → flights.Caught (log number) number cursor)
  | .returned number joined => sight.drained = [] ∧ ∃ cursor,
      Reads (log number) sight.attached sight.seen cursor ∧
        (joined ≠ .pending → flights.Caught (log number) number cursor)
  | .panicked (some number) => ∃ cursor,
      Reads (log number) sight.attached (sight.seen ++ sight.drained) cursor
  | _ => sight.seen = [] ∧ sight.drained = []

/-- The lists grow, but not once an outcome is visible. -/
structure Grows
    (before after : Flights ι K V E P)
    (log later : Nat → List P) : Prop where
  grown : ∀ number, log number <+: later number
  final : ∀ number ending, before.Visible number ending →
    later number = log number ∧ after.Visible number ending

theorem Caught.grow
    {before after : Flights ι K V E P}
    {log later : Nat → List P}
    {number cursor : Nat}
    (caught : before.Caught (log number) number cursor)
    (grows : Grows before after log later) :
    after.Caught (later number) number cursor := by
  obtain ⟨reached, ending, visible⟩ := caught
  obtain ⟨same, stays⟩ := grows.final number ending visible
  exact ⟨by rw [same, reached], ending, stays⟩

theorem Follows.grow
    {before after : Flights ι K V E P}
    {log later : Nat → List P}
    {sight : Sight P}
    {phase : Phase V E P}
    (follows : before.Follows log sight phase)
    (grows : Grows before after log later) :
    after.Follows later sight phase := by
  cases phase with
  | looking number cursor expired =>
      exact ⟨follows.1, follows.2.grow (grows.grown number)⟩
  | sleeping number cursor =>
      exact ⟨follows.1, follows.2.grow (grows.grown number)⟩
  | relaying number cursor expired events answer =>
      obtain ⟨same, reads, caught⟩ := follows
      exact ⟨same, reads.grow (grows.grown number),
        fun told => (caught told).grow grows⟩
  | returned number joined =>
      obtain ⟨none, cursor, reads, caught⟩ := follows
      exact ⟨none, cursor, reads.grow (grows.grown number),
        fun told => (caught told).grow grows⟩
  | panicked number =>
      cases number with
      | none => exact follows
      | some number =>
          obtain ⟨cursor, reads⟩ := follows
          exact ⟨cursor, reads.grow (grows.grown number)⟩
  | _ => exact follows

/-- A caller that stays where it is has nothing new to remember. -/
theorem follow_self
    (flights : Flights ι K V E P)
    (sight : Sight P)
    (phase : Phase V E P) :
    Sight.follow flights sight phase phase = sight := by
  cases phase with
  | relaying number cursor expired events answer =>
      cases events with
      | nil => rfl
      | cons event events =>
          exact if_neg (by simp)
  | _ => rfl

/-- The watch of a run agrees with its states. -/
structure Watched.Sound (watched : Watched ι K V E P) : Prop where
  retains : ∀ number,
    (watched.flights.state number).Retains (watched.log number)
  follows : ∀ caller, watched.flights.Follows watched.log
    (watched.sight caller) (watched.flights.phase caller)

theorem Watched.new_sound : (Watched.new : Watched ι K V E P).Sound :=
  ⟨fun _ => FlightState.retains_new, fun _ => ⟨rfl, rfl⟩⟩

/-- A caller goes on, and everybody else stays. -/
theorem phase_update
    [DecidableEq ι]
    {before after : Flights ι K V E P}
    {mover : ι}
    {later : JoinCall K V E P}
    (moved : after.call = Function.update before.call mover (some later))
    (caller : ι) :
    after.phase caller =
      if caller = mover then later.phase else before.phase caller := by
  unfold Flights.phase
  rw [moved]
  by_cases same : caller = mover
  · rw [same, Function.update_self, if_pos rfl]
    rfl
  · rw [Function.update_of_ne same, if_neg same]

theorem phase_eq
    {flights : Flights ι K V E P}
    {caller : ι}
    {call : JoinCall K V E P}
    {phase : Phase V E P}
    (called : flights.call caller = some call)
    (there : call.phase = phase) :
    flights.phase caller = phase := by
  unfold Flights.phase
  rw [called]
  exact there

/-! ## What a step publishes -/

variable [DecidableEq ι] [DecidableEq K]

/-- A step leaves the events of a flight as they are, or its fetch publishes
one more. -/
theorem Step.state_cases
    {before after : Flights ι K V E P}
    (step : Step before after)
    (consistent : before.Consistent)
    (number : Nat) :
    ((after.state number).progress = (before.state number).progress ∧
      (after.state number).nextSequence =
        (before.state number).nextSequence) ∨
    ∃ flight event, before.flight number = some flight ∧
      flight.worker = .fetching ∧
      after.state number = (before.state number).publish event := by
  have kept : after.flight = before.flight →
      ((after.state number).progress = (before.state number).progress ∧
        (after.state number).nextSequence =
          (before.state number).nextSequence) := by
    intro same
    unfold Flights.state
    rw [same]
    exact ⟨rfl, rfl⟩
  have advanced : ∀ {other : Nat} {flight later : Flight K V E P},
      before.flight other = some flight →
      after.flight = Function.update before.flight other (some later) →
      later.state.progress = flight.state.progress →
      later.state.nextSequence = flight.state.nextSequence →
      ((after.state number).progress = (before.state number).progress ∧
        (after.state number).nextSequence =
          (before.state number).nextSequence) := by
    intro other flight later present updated progress next
    unfold Flights.state
    by_cases same : number = other
    · rw [updated, same, Function.update_self, present]
      exact ⟨progress, next⟩
    · rw [updated, Function.update_of_ne same]
      exact ⟨rfl, rfl⟩
  cases step with
  | register caller call called phase free absent =>
      left
      unfold Flights.state
      by_cases same : number = before.next
      · rw [same, consistent.fresh before.next (Nat.le_refl _)]
        have here : (before.register caller call).flight before.next =
          some ⟨call.key, .new, .starting⟩ := Function.update_self ..
        rw [here]
        exact ⟨rfl, rfl⟩
      · have elsewhere : (before.register caller call).flight number =
          before.flight number := Function.update_of_ne same ..
        rw [elsewhere]
        exact ⟨rfl, rfl⟩
  | spawn caller call other flight called phase present =>
      exact Or.inl (advanced present rfl rfl rfl)
  | spawnFailed caller call other flight called phase present =>
      exact Or.inl (advanced present rfl rfl rfl)
  | progress other flight event present fetching =>
      by_cases same : number = other
      · right
        subst same
        refine ⟨flight, event, present, fetching, ?_⟩
        unfold Flights.state
        rw [present]
        have here : (before.advance number
            { flight with state := flight.state.publish event }).flight
              number = some _ := Function.update_self ..
        rw [here]
        rfl
      · left
        unfold Flights.state
        have elsewhere : (before.advance other
            { flight with state := flight.state.publish event }).flight
              number = before.flight number := Function.update_of_ne same ..
        rw [elsewhere]
        exact ⟨rfl, rfl⟩
  | fetched other flight ending present fetching =>
      exact Or.inl (advanced present rfl rfl rfl)
  | retire other flight ending present ended free =>
      exact Or.inl (advanced present rfl rfl rfl)
  | finish other flight ending present retired =>
      exact Or.inl (advanced present rfl rfl rfl)
  | release other flight ending present published =>
      exact Or.inl (advanced present rfl rfl rfl)
  | pass caller call other cursor expired flight now called phase present =>
      left
      apply kept
      cases flight.state.pass cursor expired call.deadline now <;> rfl
  | _ => exact Or.inl (kept rfl)

/-- The watch remembers what was published. -/
theorem Step.recorded
    {before after : Flights ι K V E P}
    (step : Step before after)
    (consistent : before.Consistent)
    {number : Nat}
    {log : List P}
    (retains : (before.state number).Retains log) :
    (after.state number).Retains
        (record log (before.state number) (after.state number)) ∧
      (record log (before.state number) (after.state number) = log ∨
        ∃ flight event, before.flight number = some flight ∧
          flight.worker = .fetching ∧
          record log (before.state number) (after.state number) =
            log ++ [event]) := by
  rcases step.state_cases consistent number with
    ⟨progress, next⟩ | ⟨flight, event, present, fetching, published⟩
  · have same : record log (before.state number) (after.state number) =
      log := if_pos next
    rw [same]
    exact ⟨⟨next.trans retains.next, progress.trans retains.progress⟩,
      Or.inl rfl⟩
  · have later := retains.publish event
    have latest : ((before.state number).publish event).progress.getLast? =
        some (log.length, event) := by
      have history : progressHistory = 64 := rfl
      rw [later.progress, numbered_append, List.getLast?_drop,
        List.getLast?_concat, if_neg]
      simp only [List.length_append, List.length_singleton, length_numbered]
      omega
    have recorded : record log (before.state number) (after.state number) =
        log ++ [event] := by
      rw [published, record, if_neg, latest]
      · rfl
      · simp [FlightState.publish]
    rw [recorded, published]
    exact ⟨later, Or.inr ⟨flight, event, present, fetching, rfl⟩⟩

/-- A step lets the lists grow. -/
theorem Watched.grows
    {watched : Watched ι K V E P}
    {after : Flights ι K V E P}
    (sound : watched.Sound)
    (consistent : watched.flights.Consistent)
    (step : watched.flights.Step after) :
    Grows watched.flights after watched.log (watched.follow after).log := by
  constructor
  · intro number
    rcases (step.recorded consistent (sound.retains number)).2 with
      same | ⟨_, event, _, _, more⟩
    · exact ⟨[], by rw [List.append_nil]; exact same.symm⟩
    · exact ⟨[event], more.symm⟩
  · intro number ending visible
    refine ⟨?_, ?_⟩
    swap
    · obtain ⟨flight, present, shown⟩ := visible
      have out : ¬flight.worker.Registered := by
        cases worker : flight.worker <;>
          simp_all [Worker.visible, Worker.Registered]
      obtain ⟨later, presentLater, _, _, stays⟩ :=
        step.settled consistent present out
      exact ⟨later, presentLater, stays ending shown⟩
    rcases (step.recorded consistent (sound.retains number)).2 with
      same | ⟨flight, _, present, fetching, _⟩
    · exact same
    · obtain ⟨other, found, shown⟩ := visible
      cases present.symm.trans found
      rw [fetching] at shown
      cases shown

/-- Every step keeps the watch in agreement. -/
theorem Watched.Sound.step
    {watched : Watched ι K V E P}
    {after : Flights ι K V E P}
    (sound : watched.Sound)
    (consistent : watched.flights.Consistent)
    (step : watched.flights.Step after) :
    (watched.follow after).Sound := by
  have grows := Watched.grows sound consistent step
  refine ⟨fun number =>
    (step.recorded consistent (sound.retains number)).1, ?_⟩
  -- most steps move one caller, which the others do not notice
  have stays : ∀ caller,
      after.phase caller = watched.flights.phase caller →
      after.Follows (watched.follow after).log
        ((watched.follow after).sight caller) (after.phase caller) := by
    intro caller same
    have unmoved : (watched.follow after).sight caller =
        watched.sight caller := by
      change Sight.follow _ _ _ (after.phase caller) = _
      rw [same, follow_self]
    rw [unmoved, same]
    exact (sound.follows caller).grow grows
  have moves : ∀ {mover : ι} {call : JoinCall K V E P}
      {old next : Phase V E P},
      watched.flights.call mover = some call →
      call.phase = old →
      after.call = Function.update watched.flights.call mover
        (some { call with phase := next }) →
      (watched.flights.Follows watched.log (watched.sight mover) old →
        watched.flights.Follows watched.log
          (Sight.follow watched.flights (watched.sight mover) old next)
          next) →
      ∀ caller, after.Follows (watched.follow after).log
        ((watched.follow after).sight caller) (after.phase caller) := by
    intro mover call old next called there moved goes caller
    have phases := phase_update moved caller
    by_cases same : caller = mover
    · subst same
      rw [if_pos rfl] at phases
      have was := phase_eq called there
      have followed : (watched.follow after).sight caller =
          Sight.follow watched.flights (watched.sight caller) old next := by
        change Sight.follow _ _ (watched.flights.phase caller)
          (after.phase caller) = _
        rw [phases, was]
      have held := sound.follows caller
      rw [was] at held
      rw [followed, phases]
      exact (goes held).grow grows
    · rw [if_neg same] at phases
      exact stays caller phases
  have still : after.call = watched.flights.call → ∀ caller,
      after.Follows (watched.follow after).log
        ((watched.follow after).sight caller) (after.phase caller) := by
    intro same caller
    apply stays
    unfold Flights.phase
    rw [same]
  cases step with
  | enter mover key deadline absent =>
      intro caller
      apply stays
      have moved : (watched.flights.move mover ⟨key, deadline, .entering⟩
          .entering).call = Function.update watched.flights.call mover
            (some ⟨key, deadline, .entering⟩) := rfl
      have phases := phase_update moved caller
      by_cases same : caller = mover
      · rw [phases, if_pos same]
        unfold Flights.phase
        rw [same, absent]
        rfl
      · rw [phases, if_neg same]
  | attach mover call number called phase free entry =>
      exact moves called phase rfl id
  | register mover call called phase free absent =>
      exact moves called phase rfl id
  | spawn mover call number flight called phase present =>
      exact moves called phase rfl id
  | spawnFailed mover call number flight called phase present =>
      exact moves called phase rfl id
  | unwind mover call called phase => exact moves called phase rfl id
  | unlock mover call number called phase => exact moves called phase rfl id
  | begin mover call number flight called phase present =>
      apply moves called phase rfl
      rintro ⟨unseen, undrained⟩
      have retains := sound.retains number
      have here : watched.flights.state number = flight.state := by
        unfold Flights.state
        rw [present]
        rfl
      rw [here] at retains
      refine ⟨undrained, ?_⟩
      have begins := reads_start (watched.log number)
      rw [← retains.next] at begins
      simp only [Sight.follow, here, unseen]
      exact begins
  | pass mover call number cursor expired flight now called phase present =>
      have retains := sound.retains number
      have here : watched.flights.state number = flight.state := by
        unfold Flights.state
        rw [present]
        rfl
      rw [here] at retains
      have completed := (consistent.flight number flight present).completion
      cases decision : flight.state.pass cursor expired call.deadline now with
      | leave =>
          rw [decision] at moves
          apply moves called phase rfl
          rintro ⟨undrained, reads⟩
          exact ⟨undrained, cursor, reads, fun told => absurd rfl told⟩
      | sleep =>
          rw [decision] at moves
          exact moves called phase rfl id
      | relay events position answer =>
          rw [decision] at moves
          apply moves called phase rfl
          rintro ⟨undrained, reads⟩
          obtain ⟨drained, reached⟩ :
              (flight.state.unread cursor).map Prod.snd = events ∧
                max cursor (watched.log number).length = position := by
            have pending := retains.pending cursor
            unfold FlightState.pass at decision
            rw [pending] at decision
            split at decision
            · split at decision
              · cases decision
              · split at decision
                · cases decision
                · split at decision <;> cases decision
            · cases decision
              simp_all
          have told := FlightState.joined_of_relay decision
          simp only [Sight.follow, here]
          refine ⟨?_, ?_, ?_⟩
          · rw [← drained, sightings, List.map_map]
            rfl
          · rw [← reached]
            exact reads.pass retains
          · intro answered
            refine ⟨?_, ?_⟩
            · have within := reads.within
              omega
            · rw [told, completed] at answered
              cases visible : flight.worker.visible with
              | none =>
                  unfold Worker.completion at answered
                  rw [visible] at answered
                  exact absurd rfl answered
              | some ending => exact ⟨ending, flight, present, visible⟩
  | wake mover call number cursor timedOut called phase _ =>
      exact moves called phase rfl id
  | observe mover call number cursor expired event events answer called
      phase =>
      apply moves called phase rfl
      rintro ⟨drained, reads, caught⟩
      simp only [Sight.follow, if_true]
      refine ⟨?_, ?_, caught⟩
      · rw [List.map_drop, drained]
        rfl
      · rw [List.append_assoc, List.take_append_drop]
        exact reads
  | observerPanics mover call number cursor expired event events answer
      called phase =>
      apply moves called phase rfl
      rintro ⟨drained, reads, caught⟩
      exact ⟨cursor, reads⟩
  | again mover call number cursor expired called phase =>
      apply moves called phase rfl
      rintro ⟨drained, reads, _⟩
      have nothing := List.map_eq_nil_iff.mp drained
      rw [nothing, List.append_nil] at reads
      exact ⟨nothing, reads⟩
  | answer mover call number cursor expired joined called phase =>
      apply moves called phase rfl
      rintro ⟨drained, reads, caught⟩
      have nothing := List.map_eq_nil_iff.mp drained
      rw [nothing, List.append_nil] at reads
      exact ⟨nothing, cursor, reads, fun _ => caught nofun⟩
  | _ => exact still rfl

theorem Watched.Reachable.sound
    {watched : Watched ι K V E P}
    (reachable : watched.Reachable) :
    watched.Sound := by
  induction reachable with
  | refl => exact Watched.new_sound
  | tail reached step inductionHypothesis =>
      obtain ⟨steps, followed⟩ := step
      rw [followed]
      exact inductionHypothesis.step
        (Reachable.consistent (Watched.Reachable.flights reached)) steps

/-! ## What an observer can count on -/

/-- What a caller's observer has been shown of the events of its flight, and
what it has been shown once the caller is told the outcome. -/
structure Watched.Relays
    (watched : Watched ι K V E P)
    (caller : ι)
    (number : Nat) : Prop where
  genuine : ∀ item ∈ (watched.sight caller).seen,
    (watched.log number)[item.sequence]? = some item.event
  increasing : (watched.sight caller).seen.Pairwise
    (·.sequence < ·.sequence)
  recent : ∀ item ∈ (watched.sight caller).seen,
    (watched.sight caller).attached ≤ item.sequence + 1
  skipped : ∀ sequence, (watched.sight caller).attached ≤ sequence + 1 →
    ∀ later ∈ (watched.sight caller).seen, sequence < later.sequence →
      (∃ item ∈ (watched.sight caller).seen, item.sequence = sequence) ∨
        PassedOver (watched.sight caller).seen sequence
  complete : ∀ joined, watched.flights.Returned caller number joined →
    joined ≠ .pending → ∀ event,
      (watched.log number).getLast? = some event →
        ∃ item, (watched.sight caller).seen.getLast? = some item ∧
          item.sequence + 1 = (watched.log number).length ∧
          item.event = event

/-- What was shown first of what was drained keeps its order and its gaps. -/
theorem Reads.shown
    {log : List P}
    {attached cursor : Nat}
    {seen drained : List (Sighting P)}
    (reads : Reads log attached (seen ++ drained) cursor)
    {sequence : Nat}
    (late : attached ≤ sequence + 1)
    {later : Sighting P}
    (member : later ∈ seen)
    (early : sequence < later.sequence) :
    (∃ item ∈ seen, item.sequence = sequence) ∨ PassedOver seen sequence := by
  have before := reads.behind later (List.mem_append_left _ member)
  have apart : ∀ item ∈ drained, later.sequence < item.sequence :=
    fun item found => (List.pairwise_append.mp reads.increasing).2.2
      later member item found
  rcases reads.gaps sequence late (by omega) with
    ⟨item, found, same⟩ | ⟨item, found, beyond, enough, nearest⟩
  · rcases List.mem_append.mp found with shown | waiting
    · exact Or.inl ⟨item, shown, same⟩
    · have past := apart item waiting
      omega
  · right
    have closest := nearest later (List.mem_append_left _ member) early
    rcases List.mem_append.mp found with shown | waiting
    · exact ⟨item, shown, beyond, enough, fun other inSeen =>
        nearest other (List.mem_append_left _ inSeen)⟩
    · have past := apart item waiting
      omega

/-- A reader that was told the outcome has seen the last event. -/
theorem Reads.latest
    {log : List P}
    {attached : Nat}
    {seen : List (Sighting P)}
    (reads : Reads log attached seen log.length)
    {event : P}
    (last : log.getLast? = some event) :
    ∃ item, seen.getLast? = some item ∧ item.sequence + 1 = log.length ∧
      item.event = event := by
  have positive : 0 < log.length := by
    cases log with
    | nil => cases last
    | cons _ _ => exact Nat.succ_pos _
  have begun := reads.begun
  have inside : ∀ item ∈ seen, item.sequence < log.length :=
    fun item member => reads.behind item member
  obtain ⟨item, member, same⟩ : ∃ item ∈ seen,
      item.sequence = log.length - 1 := by
    rcases reads.gaps (log.length - 1) (by omega) (by omega) with
      found | ⟨item, member, beyond, _⟩
    · exact found
    · have early := inside item member
      omega
  refine ⟨item, ?_, by omega, ?_⟩
  · obtain ⟨front, back, split⟩ := List.append_of_mem member
    cases back with
    | nil => rw [split, List.getLast?_concat]
    | cons other rest =>
        have ordered := reads.increasing
        rw [split] at ordered
        have higher := List.rel_of_pairwise_cons
          (List.pairwise_append.mp ordered).2.1
            (List.mem_cons_self (a := other) (l := rest))
        have early := inside other (by rw [split]; simp)
        omega
  · have found := reads.genuine item member
    rw [same, ← List.getLast?_eq_getElem?, last] at found
    exact (Option.some.inj found).symm

/-- In every interleaving an observer is shown events in the order they were
published, none older than the latest one when it began to wait; an event is
passed over only when it had left the history, and a caller that is told the
outcome was shown the last one. -/
theorem Watched.Reachable.relays
    {watched : Watched ι K V E P}
    (reachable : watched.Reachable)
    {caller : ι}
    {key : K}
    {number : Nat}
    (attached : watched.flights.Attached caller key number) :
    watched.Relays caller number := by
  have follows := (Watched.Reachable.sound reachable).follows caller
  obtain ⟨call, called, _, flight⟩ := attached
  rw [phase_eq called rfl] at follows
  -- before it waits a caller has seen nothing
  have blank : (watched.sight caller).seen = [] →
      (∀ joined, ¬watched.flights.Returned caller number joined) →
      watched.Relays caller number := by
    intro unseen waits
    constructor
    · simp [unseen]
    · simp [unseen]
    · simp [unseen]
    · simp [unseen]
    · intro joined returned
      exact absurd returned (waits joined)
  have read : ∀ {cursor : Nat} {drained : List (Sighting P)},
      Reads (watched.log number) (watched.sight caller).attached
        ((watched.sight caller).seen ++ drained) cursor →
      (∀ joined, watched.flights.Returned caller number joined →
        joined ≠ .pending → drained = [] ∧
          cursor = (watched.log number).length) →
      watched.Relays caller number := by
    intro cursor drained reads returned
    constructor
    · exact fun item member =>
        reads.genuine item (List.mem_append_left _ member)
    · exact (List.pairwise_append.mp reads.increasing).1
    · exact fun item member =>
        reads.recent item (List.mem_append_left _ member)
    · exact fun sequence late later member early =>
        reads.shown late member early
    · intro joined told answered event last
      obtain ⟨nothing, reached⟩ := returned joined told answered
      rw [nothing, List.append_nil, reached] at reads
      exact reads.latest last
  have elsewhere : (∀ joined, call.phase ≠ .returned number joined) →
      ∀ joined, ¬watched.flights.Returned caller number joined := by
    rintro waits joined ⟨other, calledToo, returned⟩
    cases called.symm.trans calledToo
    exact waits joined returned
  cases phase : call.phase with
  | entering =>
      rw [phase] at follows
      exact blank follows.1 (elsewhere (by simp [phase]))
  | starting other =>
      rw [phase] at follows
      exact blank follows.1 (elsewhere (by simp [phase]))
  | failing =>
      rw [phase] at follows
      exact blank follows.1 (elsewhere (by simp [phase]))
  | attached other =>
      rw [phase] at follows
      exact blank follows.1 (elsewhere (by simp [phase]))
  | waiting other =>
      rw [phase] at follows
      exact blank follows.1 (elsewhere (by simp [phase]))
  | looking other cursor expired =>
      rw [phase] at follows flight
      cases flight
      obtain ⟨nothing, reads⟩ := follows
      rw [← List.append_nil (watched.sight caller).seen] at reads
      exact read reads fun joined returned =>
        absurd returned (elsewhere (by simp [phase]) joined)
  | sleeping other cursor =>
      rw [phase] at follows flight
      cases flight
      obtain ⟨nothing, reads⟩ := follows
      rw [← List.append_nil (watched.sight caller).seen] at reads
      exact read reads fun joined returned =>
        absurd returned (elsewhere (by simp [phase]) joined)
  | relaying other cursor expired events answer =>
      rw [phase] at follows flight
      cases flight
      exact read follows.2.1 fun joined returned =>
        absurd returned (elsewhere (by simp [phase]) joined)
  | panicked shared =>
      rw [phase] at follows flight
      cases flight
      obtain ⟨cursor, reads⟩ := follows
      exact read reads fun joined returned =>
        absurd returned (elsewhere (by simp [phase]) joined)
  | returned other joined =>
      rw [phase] at follows flight
      cases flight
      obtain ⟨nothing, cursor, reads, caught⟩ := follows
      rw [← List.append_nil (watched.sight caller).seen] at reads
      apply read reads
      rintro told ⟨another, calledToo, returned⟩ answered
      cases called.symm.trans calledToo
      rw [phase] at returned
      cases returned
      exact ⟨rfl, (caught answered).1⟩

/-- Two events are published around the moment a caller begins to wait. -/
theorem relays_of_progress :
    ∃ watched : Watched Nat String Nat String Nat,
      (watched.sight 0).seen.map (fun item => (item.sequence, item.event)) =
          [(1, 6), (2, 7)] ∧
        watched.flights.Returned 0 0 (.completed (.ok 3)) ∧
        watched.Relays 0 0 := by
  have follow : ∀ {before : Watched Nat String Nat String Nat},
      before.Reachable →
      ∀ after, before.flights.Step after →
        (before.follow after).Reachable :=
    fun reached after step => reached.tail ⟨step, rfl⟩
  have entered := follow .refl _ (.enter _ 0 "key" none rfl)
  have registered := follow entered _ (.register _ 0 _ rfl rfl rfl rfl)
  have spawned := follow registered _ (.spawn _ 0 _ 0 _ rfl rfl rfl)
  have unlocked := follow spawned _ (.unlock _ 0 _ 0 rfl rfl)
  have five := follow unlocked _ (.progress _ 0 _ 5 rfl rfl)
  have six := follow five _ (.progress _ 0 _ 6 rfl rfl)
  have begun := follow six _ (.begin _ 0 _ 0 _ rfl rfl rfl)
  have seven := follow begun _ (.progress _ 0 _ 7 rfl rfl)
  have drained := follow seven _ (.pass _ 0 _ 0 1 false _ 0 rfl rfl rfl)
  have first := follow drained _ (.observe _ 0 _ 0 3 false 6 [7] none rfl rfl)
  have second := follow first _ (.observe _ 0 _ 0 3 false 7 [] none rfl rfl)
  have again := follow second _ (.again _ 0 _ 0 3 false rfl rfl)
  have fetched := follow again _ (.fetched _ 0 _ (some (.ok 3)) rfl rfl)
  have retired := follow fetched _ (.retire _ 0 _ _ rfl rfl rfl)
  have published := follow retired _ (.finish _ 0 _ _ rfl rfl)
  have passed := follow published _ (.pass _ 0 _ 0 3 false _ 0 rfl rfl rfl)
  have answered := follow passed _ (.answer _ 0 _ 0 3 false _ rfl rfl)
  exact ⟨_, rfl, ⟨_, rfl, rfl⟩,
    Watched.Reachable.relays answered ⟨_, rfl, rfl, rfl⟩⟩

end Flights
end ModelKeep
