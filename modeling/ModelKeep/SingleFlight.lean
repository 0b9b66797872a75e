import Mathlib.Data.List.Basic
import Mathlib.Logic.Function.Basic
import Mathlib.Logic.Relation

/-!
# Single-flight coordination

Callers of `join` with one key share one fetch.  The registry lock covers the
lookup, the registration and the start of a fetch, and later its retirement;
the lock of a flight covers its outcome and its progress.  The steps of the
system are the statements between which other threads can be scheduled, with
the registry lock as part of the state.  Instants are natural numbers, and a
caller reads any instant: nothing here depends on how time passes.
-/

namespace ModelKeep

/-- How a fetch ended: with its result, or by a panic. -/
abbrev Ending (V E : Type) : Type := Option (Except E V)

/-- What a waiter learned by joining a flight. -/
inductive Joined (V E : Type)
  | completed (result : Except E V)
  | pending
  | abandoned
  deriving DecidableEq

inductive Completion (V E : Type)
  | running
  | done (result : Except E V)
  | abandoned
  deriving DecidableEq

/-- What the lock of a flight protects. -/
structure FlightState (V E P : Type) where
  completion : Completion V E
  progress : List (Nat × P)
  nextSequence : Nat
  deriving DecidableEq

/-- How many progress events a flight retains. -/
def progressHistory : Nat := 64

/-- What a fetch that ended so is published as. -/
def Completion.ofEnding {V E : Type} : Ending V E → Completion V E
  | some result => .done result
  | none => .abandoned

/-- What the waiters of a published flight are told. -/
def Completion.joined {V E : Type} : Completion V E → Option (Joined V E)
  | .running => none
  | .done result => some (.completed result)
  | .abandoned => some .abandoned

/-- What a waiter of a fetch that ended so is told. -/
def Joined.ofEnding {V E : Type} : Ending V E → Joined V E
  | some result => .completed result
  | none => .abandoned

@[simp] theorem Completion.joined_ofEnding
    {V E : Type}
    (ending : Ending V E) :
    (Completion.ofEnding ending).joined = some (.ofEnding ending) := by
  cases ending <;> rfl

/-- What one pass of the loop in `wait` decides under the flight lock. -/
inductive Pass (V E P : Type)
  | leave
  | sleep
  | relay (events : List P) (cursor : Nat) (answer : Option (Joined V E))
  deriving DecidableEq

namespace FlightState

variable {V E P : Type}

def new : FlightState V E P := ⟨.running, [], 0⟩

def publish (state : FlightState V E P) (event : P) : FlightState V E P :=
  let progress := state.progress ++ [(state.nextSequence, event)]
  { state with
    progress := progress.drop (progress.length - progressHistory)
    nextSequence := state.nextSequence + 1 }

def finish
    (state : FlightState V E P)
    (outcome : Ending V E) :
    FlightState V E P :=
  { state with completion := .ofEnding outcome }

/-- Where a waiter starts to read: one event behind. -/
def cursor (state : FlightState V E P) : Nat := state.nextSequence - 1

/-- The events from the cursor on, and the cursor behind them. -/
def pending (state : FlightState V E P) (cursor : Nat) : List P × Nat :=
  state.progress.foldl
    (fun read event =>
      if read.2 ≤ event.1 then (read.1 ++ [event.2], event.1 + 1) else read)
    ([], cursor)

/-- One pass of the loop in `wait`, up to its return or its wait. -/
def pass
    (state : FlightState V E P)
    (cursor : Nat)
    (expired : Bool)
    (deadline : Option Nat)
    (now : Nat) :
    Pass V E P :=
  match state.completion.joined, state.pending cursor with
  | none, ([], _) =>
      if expired then .leave
      else match deadline with
        | none => .sleep
        | some deadline => if deadline < now then .leave else .sleep
  | answer, (events, cursor) => .relay events cursor answer

/-- A waiter leaves without an answer only when it gave a deadline, or after a
wait that timed out. -/
theorem deadline_of_leave
    {state : FlightState V E P}
    {cursor now : Nat}
    {expired : Bool}
    {deadline : Option Nat}
    (leaves : state.pass cursor expired deadline now = .leave) :
    expired = true ∨ deadline.isSome = true := by
  unfold pass at leaves
  split at leaves
  · cases expired <;> cases deadline <;> simp_all
  · cases leaves

/-- What a pass relays as the answer is what has been published. -/
theorem joined_of_relay
    {state : FlightState V E P}
    {cursor now position : Nat}
    {expired : Bool}
    {deadline : Option Nat}
    {events : List P}
    {answer : Option (Joined V E)}
    (relays : state.pass cursor expired deadline now =
      .relay events position answer) :
    answer = state.completion.joined := by
  unfold pass at relays
  split at relays
  · split at relays
    · cases relays
    · split at relays
      · cases relays
      · split at relays <;> cases relays
  · simp only [Pass.relay.injEq] at relays
    exact relays.2.2.symm

@[simp] theorem completion_publish
    (state : FlightState V E P)
    (event : P) :
    (state.publish event).completion = state.completion := by
  rw [publish]

@[simp] theorem completion_finish
    (state : FlightState V E P)
    (outcome : Ending V E) :
    (state.finish outcome).completion = .ofEnding outcome := rfl

end FlightState

/-- How far the thread of a flight has come. -/
inductive Worker (V E : Type)
  /-- The flight is registered and its thread is about to be started. -/
  | starting
  /-- The thread could not be started. -/
  | never
  | fetching
  /-- The fetch has ended and the thread wants the registry lock. -/
  | ended (ending : Ending V E)
  /-- The key is retired; the registry lock is held. -/
  | retired (ending : Ending V E)
  /-- The outcome is published; the registry lock is still held. -/
  | published (ending : Ending V E)
  | ceased (ending : Ending V E)

namespace Worker

variable {V E : Type}

/-- The flight is what the registry holds for its key. -/
def Registered : Worker V E → Prop
  | starting => True
  | fetching => True
  | ended _ => True
  | _ => False

/-- The thread was started. -/
def Spawned : Worker V E → Prop
  | starting => False
  | never => False
  | _ => True

/-- The thread is between its two uses of the registry lock. -/
def Holds : Worker V E → Prop
  | retired _ => True
  | published _ => True
  | _ => False

/-- The outcome that callers can see. -/
def visible : Worker V E → Option (Ending V E)
  | published ending => some ending
  | ceased ending => some ending
  | _ => none

/-- What the flight shows for a thread that has come so far. -/
def completion (worker : Worker V E) : Completion V E :=
  match worker.visible with
  | some ending => .ofEnding ending
  | none => .running

/-- The threads go through their stages in order. -/
inductive Next : Worker V E → Worker V E → Prop
  | spawn : Next starting fetching
  | fail : Next starting never
  | progress : Next fetching fetching
  | fetched (ending : Ending V E) : Next fetching (ended ending)
  | retire (ending : Ending V E) : Next (ended ending) (retired ending)
  | finish (ending : Ending V E) : Next (retired ending) (published ending)
  | release (ending : Ending V E) : Next (published ending) (ceased ending)

/-- A thread that is out of the registry stays out. -/
theorem Next.settled
    {old later : Worker V E}
    (ahead : Next old later)
    (out : ¬old.Registered) :
    ¬later.Registered ∧ ∀ ending, old.visible = some ending →
      later.visible = some ending := by
  cases ahead with
  | finish ending => exact ⟨id, fun _ visible => by cases visible⟩
  | release ending => exact ⟨id, fun _ visible => visible⟩
  | _ => exact absurd trivial out

/-- There is one step at which an outcome becomes visible. -/
theorem Next.publishes
    {old later : Worker V E}
    {ending : Ending V E}
    (ahead : Next old later)
    (hidden : old.visible ≠ some ending)
    (shown : later.visible = some ending) :
    old = .retired ending ∧ later = .published ending := by
  cases ahead with
  | finish other =>
      cases shown
      exact ⟨rfl, rfl⟩
  | release other => exact absurd shown hidden
  | _ => cases shown

end Worker

/-- A flight, which callers with its key share. -/
structure Flight (K V E P : Type) where
  key : K
  state : FlightState V E P
  worker : Worker V E

/-- How far a call of `join` has come. -/
inductive Phase (V E P : Type)
  | entering
  /-- It has registered a flight and holds the registry lock. -/
  | starting (flight : Nat)
  /-- The thread could not be started; the registry lock is held. -/
  | failing
  /-- It has its flight and holds the registry lock. -/
  | attached (flight : Nat)
  | waiting (flight : Nat)
  | looking (flight cursor : Nat) (expired : Bool)
  | sleeping (flight cursor : Nat)
  | relaying
      (flight cursor : Nat)
      (expired : Bool)
      (events : List P)
      (answer : Option (Joined V E))
  | returned (flight : Nat) (joined : Joined V E)
  | panicked (flight : Option Nat)

namespace Phase

variable {V E P : Type}

/-- The flight a call is attached to. -/
def flight? : Phase V E P → Option Nat
  | entering => none
  | starting flight => some flight
  | failing => none
  | attached flight => some flight
  | waiting flight => some flight
  | looking flight _ _ => some flight
  | sleeping flight _ => some flight
  | relaying flight _ _ _ _ => some flight
  | returned flight _ => some flight
  | panicked flight => flight

/-- The call is inside `wait`. -/
def Waits : Phase V E P → Prop
  | waiting _ => True
  | looking _ _ _ => True
  | sleeping _ _ => True
  | relaying _ _ _ _ _ => True
  | _ => False

/-- The call holds the registry lock. -/
def Holds : Phase V E P → Prop
  | starting _ => True
  | failing => True
  | attached _ => True
  | _ => False

end Phase

/-- A call of `join`. -/
structure JoinCall (K V E P : Type) where
  key : K
  deadline : Option Nat
  phase : Phase V E P

/-- Who holds the registry lock. -/
inductive Holder (ι : Type)
  | call (call : ι)
  | worker (flight : Nat)

/-- The registry with its lock, all flights there have been, and all calls. -/
structure Flights (ι K V E P : Type) where
  registry : K → Option Nat
  lock : Option (Holder ι)
  flight : Nat → Option (Flight K V E P)
  next : Nat
  call : ι → Option (JoinCall K V E P)

namespace Flights

variable {ι K V E P : Type}

/-- `SingleFlight::new`, before any call. -/
def new : Flights ι K V E P :=
  ⟨fun _ => none, none, fun _ => none, 0, fun _ => none⟩

/-- The call goes on to the given phase. -/
def move
    [DecidableEq ι]
    (flights : Flights ι K V E P)
    (caller : ι)
    (call : JoinCall K V E P)
    (phase : Phase V E P) :
    Flights ι K V E P :=
  { flights with
    call := Function.update flights.call caller
      (some { call with phase := phase }) }

/-- The flight goes on to the given state of its thread. -/
def advance
    (flights : Flights ι K V E P)
    (number : Nat)
    (flight : Flight K V E P) :
    Flights ι K V E P :=
  { flights with
    flight := Function.update flights.flight number (some flight) }

/-- Takes or gives back the registry lock. -/
def setLock
    (flights : Flights ι K V E P)
    (lock : Option (Holder ι)) :
    Flights ι K V E P :=
  { flights with lock := lock }

/-- `flights.insert` and `flights.remove`. -/
def setKey
    [DecidableEq K]
    (flights : Flights ι K V E P)
    (key : K)
    (number : Option Nat) :
    Flights ι K V E P :=
  { flights with registry := Function.update flights.registry key number }

/-- The part of `join` that registers a new flight. -/
def register
    [DecidableEq ι]
    [DecidableEq K]
    (flights : Flights ι K V E P)
    (caller : ι)
    (call : JoinCall K V E P) :
    Flights ι K V E P :=
  { (((flights.setLock (some (.call caller))).setKey call.key
        (some flights.next)).advance flights.next
          ⟨call.key, .new, .starting⟩).move caller call
            (.starting flights.next) with
    next := flights.next + 1 }

/-- What a waiter does after a pass. -/
def decide
    [DecidableEq ι]
    (flights : Flights ι K V E P)
    (caller : ι)
    (call : JoinCall K V E P)
    (number cursor : Nat)
    (expired : Bool) :
    Pass V E P → Flights ι K V E P
  | .leave => flights.move caller call (.returned number .pending)
  | .sleep => flights.move caller call (.sleeping number cursor)
  | .relay events cursor answer =>
      flights.move caller call
        (.relaying number cursor expired events answer)

/-- The steps of callers and of the threads they start. -/
inductive Step [DecidableEq ι] [DecidableEq K] :
    Flights ι K V E P → Flights ι K V E P → Prop
  | enter
      (flights : Flights ι K V E P)
      (caller : ι)
      (key : K)
      (deadline : Option Nat) :
      flights.call caller = none →
      Step flights
        (flights.move caller ⟨key, deadline, .entering⟩ .entering)
  /-- The lookup finds a flight. -/
  | attach
      (flights : Flights ι K V E P)
      (caller : ι)
      (call : JoinCall K V E P)
      (number : Nat) :
      flights.call caller = some call →
      call.phase = .entering →
      flights.lock = none →
      flights.registry call.key = some number →
      Step flights
        ((flights.setLock (some (.call caller))).move caller call
          (.attached number))
  /-- The lookup finds nothing and a new flight is registered. -/
  | register
      (flights : Flights ι K V E P)
      (caller : ι)
      (call : JoinCall K V E P) :
      flights.call caller = some call →
      call.phase = .entering →
      flights.lock = none →
      flights.registry call.key = none →
      Step flights (flights.register caller call)
  | spawn
      (flights : Flights ι K V E P)
      (caller : ι)
      (call : JoinCall K V E P)
      (number : Nat)
      (flight : Flight K V E P) :
      flights.call caller = some call →
      call.phase = .starting number →
      flights.flight number = some flight →
      Step flights
        ((flights.advance number { flight with worker := .fetching }).move
          caller call (.attached number))
  /-- No thread: the key is removed again, and the caller panics. -/
  | spawnFailed
      (flights : Flights ι K V E P)
      (caller : ι)
      (call : JoinCall K V E P)
      (number : Nat)
      (flight : Flight K V E P) :
      flights.call caller = some call →
      call.phase = .starting number →
      flights.flight number = some flight →
      Step flights
        (((flights.setKey call.key none).advance number
          { flight with worker := .never }).move caller call .failing)
  | unwind
      (flights : Flights ι K V E P)
      (caller : ι)
      (call : JoinCall K V E P) :
      flights.call caller = some call →
      call.phase = .failing →
      Step flights
        ((flights.setLock none).move caller call (.panicked none))
  /-- The registry lock is given back before `wait`. -/
  | unlock
      (flights : Flights ι K V E P)
      (caller : ι)
      (call : JoinCall K V E P)
      (number : Nat) :
      flights.call caller = some call →
      call.phase = .attached number →
      Step flights
        ((flights.setLock none).move caller call (.waiting number))
  /-- The first section of `wait`. -/
  | begin
      (flights : Flights ι K V E P)
      (caller : ι)
      (call : JoinCall K V E P)
      (number : Nat)
      (flight : Flight K V E P) :
      flights.call caller = some call →
      call.phase = .waiting number →
      flights.flight number = some flight →
      Step flights
        (flights.move caller call
          (.looking number flight.state.cursor false))
  /-- One pass of the loop in `wait`. -/
  | pass
      (flights : Flights ι K V E P)
      (caller : ι)
      (call : JoinCall K V E P)
      (number cursor : Nat)
      (expired : Bool)
      (flight : Flight K V E P)
      (now : Nat) :
      flights.call caller = some call →
      call.phase = .looking number cursor expired →
      flights.flight number = some flight →
      Step flights
        (flights.decide caller call number cursor expired
          (flight.state.pass cursor expired call.deadline now))
  /-- A notification, a timeout or nothing at all wakes a waiter. -/
  | wake
      (flights : Flights ι K V E P)
      (caller : ι)
      (call : JoinCall K V E P)
      (number cursor : Nat)
      (timedOut : Bool) :
      flights.call caller = some call →
      call.phase = .sleeping number cursor →
      (call.deadline = none → timedOut = false) →
      Step flights
        (flights.move caller call (.looking number cursor timedOut))
  /-- The observer is caller code and runs under no lock. -/
  | observe
      (flights : Flights ι K V E P)
      (caller : ι)
      (call : JoinCall K V E P)
      (number cursor : Nat)
      (expired : Bool)
      (event : P)
      (events : List P)
      (answer : Option (Joined V E)) :
      flights.call caller = some call →
      call.phase = .relaying number cursor expired (event :: events) answer →
      Step flights
        (flights.move caller call
          (.relaying number cursor expired events answer))
  | observerPanics
      (flights : Flights ι K V E P)
      (caller : ι)
      (call : JoinCall K V E P)
      (number cursor : Nat)
      (expired : Bool)
      (event : P)
      (events : List P)
      (answer : Option (Joined V E)) :
      flights.call caller = some call →
      call.phase = .relaying number cursor expired (event :: events) answer →
      Step flights (flights.move caller call (.panicked (some number)))
  | again
      (flights : Flights ι K V E P)
      (caller : ι)
      (call : JoinCall K V E P)
      (number cursor : Nat)
      (expired : Bool) :
      flights.call caller = some call →
      call.phase = .relaying number cursor expired [] none →
      Step flights
        (flights.move caller call (.looking number cursor expired))
  | answer
      (flights : Flights ι K V E P)
      (caller : ι)
      (call : JoinCall K V E P)
      (number cursor : Nat)
      (expired : Bool)
      (joined : Joined V E) :
      flights.call caller = some call →
      call.phase = .relaying number cursor expired [] (some joined) →
      Step flights (flights.move caller call (.returned number joined))
  /-- The fetch reports progress through its sink. -/
  | progress
      (flights : Flights ι K V E P)
      (number : Nat)
      (flight : Flight K V E P)
      (event : P) :
      flights.flight number = some flight →
      flight.worker = .fetching →
      Step flights
        (flights.advance number
          { flight with state := flight.state.publish event })
  | fetched
      (flights : Flights ι K V E P)
      (number : Nat)
      (flight : Flight K V E P)
      (ending : Ending V E) :
      flights.flight number = some flight →
      flight.worker = .fetching →
      Step flights
        (flights.advance number { flight with worker := .ended ending })
  /-- The thread takes the registry lock and retires its key. -/
  | retire
      (flights : Flights ι K V E P)
      (number : Nat)
      (flight : Flight K V E P)
      (ending : Ending V E) :
      flights.flight number = some flight →
      flight.worker = .ended ending →
      flights.lock = none →
      Step flights
        (((flights.setLock (some (.worker number))).setKey flight.key
          none).advance number { flight with worker := .retired ending })
  | finish
      (flights : Flights ι K V E P)
      (number : Nat)
      (flight : Flight K V E P)
      (ending : Ending V E) :
      flights.flight number = some flight →
      flight.worker = .retired ending →
      Step flights
        (flights.advance number
          { flight with
            state := flight.state.finish ending
            worker := .published ending })
  | release
      (flights : Flights ι K V E P)
      (number : Nat)
      (flight : Flight K V E P)
      (ending : Ending V E) :
      flights.flight number = some flight →
      flight.worker = .published ending →
      Step flights
        ((flights.setLock none).advance number
          { flight with worker := .ceased ending })

/-- The states some interleaving of calls and threads reaches. -/
def Reachable
    [DecidableEq ι]
    [DecidableEq K]
    (flights : Flights ι K V E P) :
    Prop :=
  Relation.ReflTransGen Step new flights

/-! ## What every step keeps -/

/-- The call shares a flight of its key whose thread was started. -/
def Shares (flights : Flights ι K V E P) (key : K) (number : Nat) : Prop :=
  ∃ flight, flights.flight number = some flight ∧ flight.key = key ∧
    flight.worker.Spawned

/-- The answer is the outcome that the flight shows to everybody. -/
def Told
    (flights : Flights ι K V E P)
    (number : Nat)
    (joined : Joined V E) :
    Prop :=
  ∃ flight ending, flights.flight number = some flight ∧
    flight.worker.visible = some ending ∧ joined = .ofEnding ending

/-- What is true of a flight for as long as its thread stays where it is. -/
structure FlightSound
    (flights : Flights ι K V E P)
    (number : Nat)
    (flight : Flight K V E P) :
    Prop where
  completion : flight.state.completion = flight.worker.completion
  registered : flight.worker.Registered →
    flights.registry flight.key = some number
  holds : flight.worker.Holds → flights.lock = some (.worker number)
  retired : flight.worker.Holds → flights.registry flight.key = none

/-- What is true of a call for as long as it stays where it is. -/
def CallSound
    (flights : Flights ι K V E P)
    (call : JoinCall K V E P) :
    Prop :=
  match call.phase with
  | .entering => True
  | .starting number => ∃ flight, flights.flight number = some flight ∧
      flight.key = call.key ∧ flight.worker = .starting
  | .failing => True
  | .attached number => flights.Shares call.key number
  | .waiting number => flights.Shares call.key number
  | .looking number _ expired => flights.Shares call.key number ∧
      (expired = true → call.deadline.isSome)
  | .sleeping number _ => flights.Shares call.key number
  | .relaying number _ expired _ answer =>
      flights.Shares call.key number ∧
        (expired = true → call.deadline.isSome) ∧
          ∀ joined, answer = some joined → flights.Told number joined
  | .returned number joined => flights.Shares call.key number ∧
      (joined = .pending ∧ call.deadline.isSome ∨
        flights.Told number joined)
  | .panicked number =>
      ∀ shared, number = some shared → flights.Shares call.key shared

/-- The registry, its lock and the flights agree. -/
structure Grounded (flights : Flights ι K V E P) : Prop where
  fresh : ∀ number, flights.next ≤ number → flights.flight number = none
  registered : ∀ key number, flights.registry key = some number →
    ∃ flight, flights.flight number = some flight ∧ flight.key = key ∧
      flight.worker.Registered
  flight : ∀ number flight, flights.flight number = some flight →
    flights.FlightSound number flight

/-- The calls agree with them as well. -/
structure Consistent (flights : Flights ι K V E P) : Prop
    extends flights.Grounded where
  holds : ∀ caller call, flights.call caller = some call →
    call.phase.Holds → flights.lock = some (.call caller)
  call : ∀ caller call, flights.call caller = some call →
    flights.CallSound call
  launching : ∀ number flight, flights.flight number = some flight →
    flight.worker = .starting →
      ∃ caller call, flights.call caller = some call ∧
        call.phase = .starting number

theorem new_consistent : (new : Flights ι K V E P).Consistent := by
  constructor
  · constructor <;> simp [new]
  · simp [new]
  · simp [new]
  · simp [new]

/-- The thread of one flight goes on, and with it the registry entry of its
key and the lock. -/
theorem Grounded.work
    {flights : Flights ι K V E P}
    (grounded : flights.Grounded)
    {number : Nat}
    {flight later : Flight K V E P}
    {registry : K → Option Nat}
    {lock : Option (Holder ι)}
    {call : ι → Option (JoinCall K V E P)}
    (present : flights.flight number = some flight)
    (sameKey : later.key = flight.key)
    (active : flight.worker.Registered ∨ flight.worker.Holds)
    (completion : later.state.completion = later.worker.completion)
    (elsewhere : ∀ key, key ≠ flight.key →
      registry key = flights.registry key)
    (kept : later.worker.Registered → registry flight.key = some number)
    (removed : ¬later.worker.Registered → registry flight.key = none)
    (own : later.worker.Holds →
      lock = some (.worker number) ∧ ¬later.worker.Registered)
    (workers : ∀ other found, other ≠ number →
      flights.flight other = some found → found.worker.Holds →
        lock = flights.lock) :
    ({ flights with
        registry := registry
        lock := lock
        flight := Function.update flights.flight number (some later)
        call := call } : Flights ι K V E P).Grounded := by
  have before := grounded.flight number flight present
  -- no other flight of this key is on the books
  have apart : ∀ other found, other ≠ number →
      flights.flight other = some found →
      found.worker.Registered ∨ found.worker.Holds →
        found.key ≠ flight.key := by
    intro other found different presentToo activeToo sameKeys
    have old := grounded.flight other found presentToo
    rcases active with inRegistry | held <;>
      rcases activeToo with inRegistryToo | heldToo
    · have first := before.registered inRegistry
      have second := old.registered inRegistryToo
      rw [sameKeys, first] at second
      cases second
      exact different rfl
    · have first := before.registered inRegistry
      have second := old.retired heldToo
      rw [sameKeys, first] at second
      cases second
    · have first := before.retired held
      have second := old.registered inRegistryToo
      rw [sameKeys, first] at second
      cases second
    · have first := before.holds held
      have second := old.holds heldToo
      rw [first] at second
      cases second
      exact different rfl
  refine ⟨?_, ?_, ?_⟩
  · intro other late
    have different : other ≠ number := by
      rintro rfl
      rw [grounded.fresh other late] at present
      cases present
    exact (Function.update_of_ne different ..).trans
      (grounded.fresh other late)
  · intro key other found
    dsimp only at found ⊢
    by_cases sameKeys : key = flight.key
    · subst sameKeys
      by_cases inRegistry : later.worker.Registered
      · rw [kept inRegistry] at found
        cases found
        exact ⟨later, Function.update_self .., sameKey, inRegistry⟩
      · rw [removed inRegistry] at found
        cases found
    · rw [elsewhere key sameKeys] at found
      obtain ⟨held, presentToo, keyToo, inRegistry⟩ :=
        grounded.registered key other found
      have different : other ≠ number := by
        rintro rfl
        rw [present] at presentToo
        cases presentToo
        exact sameKeys keyToo.symm
      exact ⟨held, (Function.update_of_ne different ..).trans presentToo,
        keyToo, inRegistry⟩
  · intro other found presentToo
    dsimp only at presentToo
    by_cases same : other = number
    · subst same
      rw [Function.update_self, Option.some.injEq] at presentToo
      subst presentToo
      refine ⟨completion, ?_, fun held => (own held).1, ?_⟩
      · intro inRegistry
        rw [sameKey]
        exact kept inRegistry
      · intro held
        rw [sameKey]
        exact removed (own held).2
    · rw [Function.update_of_ne same] at presentToo
      have old := grounded.flight other found presentToo
      refine ⟨old.completion, ?_, ?_, ?_⟩
      · intro inRegistry
        exact (elsewhere _ (apart other found same presentToo
          (Or.inl inRegistry))).trans (old.registered inRegistry)
      · intro held
        exact (workers other found same presentToo held).trans
          (old.holds held)
      · intro held
        exact (elsewhere _ (apart other found same presentToo
          (Or.inr held))).trans (old.retired held)

/-- What has been said of a call stays true while flights go on, unless it is
the one that starts a thread. -/
theorem CallSound.keep
    {before after : Flights ι K V E P}
    {call : JoinCall K V E P}
    (sound : before.CallSound call)
    (starting : ∀ number flight, call.phase = .starting number →
      before.flight number = some flight → after.flight number = some flight)
    (keeps : ∀ number flight, before.flight number = some flight →
      ∃ later, after.flight number = some later ∧
        later.key = flight.key ∧
        (flight.worker.Spawned → later.worker.Spawned) ∧
        ∀ ending, flight.worker.visible = some ending →
          later.worker.visible = some ending) :
    after.CallSound call := by
  have shares : ∀ number, before.Shares call.key number →
      after.Shares call.key number := by
    rintro number ⟨flight, present, sameKey, spawned⟩
    obtain ⟨later, presentLater, keyLater, spawnedLater, _⟩ :=
      keeps number flight present
    exact ⟨later, presentLater, keyLater.trans sameKey,
      spawnedLater spawned⟩
  have told : ∀ number joined, before.Told number joined →
      after.Told number joined := by
    rintro number joined ⟨flight, ending, present, visible, same⟩
    obtain ⟨later, presentLater, _, _, visibleLater⟩ :=
      keeps number flight present
    exact ⟨later, ending, presentLater, visibleLater ending visible, same⟩
  unfold CallSound at sound ⊢
  split at sound
  · trivial
  · next number phase =>
      obtain ⟨flight, present, sameKey, starts⟩ := sound
      exact ⟨flight, starting number flight phase present, sameKey, starts⟩
  · trivial
  · exact shares _ sound
  · exact shares _ sound
  · exact ⟨shares _ sound.1, sound.2⟩
  · exact shares _ sound
  · exact ⟨shares _ sound.1, sound.2.1,
      fun joined same => told _ joined (sound.2.2 joined same)⟩
  · exact ⟨shares _ sound.1, sound.2.imp_right (told _ _)⟩
  · exact fun shared same => shares shared (sound shared same)

/-- What calls were told of one flight that goes on stays true. -/
theorem CallSound.work
    {flights : Flights ι K V E P}
    {call : JoinCall K V E P}
    (sound : flights.CallSound call)
    {number : Nat}
    {flight later : Flight K V E P}
    {registry : K → Option Nat}
    {lock : Option (Holder ι)}
    {calls : ι → Option (JoinCall K V E P)}
    (present : flights.flight number = some flight)
    (sameKey : later.key = flight.key)
    (spawned : flight.worker.Spawned → later.worker.Spawned)
    (visible : ∀ ending, flight.worker.visible = some ending →
      later.worker.visible = some ending)
    (other : call.phase ≠ .starting number) :
    ({ flights with
        registry := registry
        lock := lock
        flight := Function.update flights.flight number (some later)
        call := calls } : Flights ι K V E P).CallSound call := by
  apply sound.keep
  · intro elsewhere found phase presentToo
    have different : elsewhere ≠ number := by
      rintro rfl
      exact other phase
    exact (Function.update_of_ne different ..).trans presentToo
  · intro elsewhere found presentToo
    by_cases same : elsewhere = number
    · subst same
      rw [present] at presentToo
      cases presentToo
      exact ⟨later, Function.update_self .., sameKey, spawned, visible⟩
    · exact ⟨found, (Function.update_of_ne same ..).trans presentToo, rfl,
        id, fun _ shows => shows⟩

/-- While the lock is free nobody is between its uses. -/
theorem Consistent.free
    {flights : Flights ι K V E P}
    (consistent : flights.Consistent)
    (free : flights.lock = none) :
    (∀ number flight, flights.flight number = some flight →
      ¬flight.worker.Holds) ∧
    ∀ caller call, flights.call caller = some call →
      ¬call.phase.Holds := by
  constructor
  · intro number flight present held
    have locked := (consistent.flight number flight present).holds held
    rw [free] at locked
    cases locked
  · intro caller call present held
    have locked := consistent.holds caller call present held
    rw [free] at locked
    cases locked

/-- A call that holds the lock is the only one who does. -/
theorem Consistent.held
    {flights : Flights ι K V E P}
    (consistent : flights.Consistent)
    {caller : ι}
    (locked : flights.lock = some (.call caller)) :
    (∀ number flight, flights.flight number = some flight →
      ¬flight.worker.Holds) ∧
    ∀ other call, flights.call other = some call → call.phase.Holds →
      other = caller := by
  constructor
  · intro number flight present held
    have lockedToo := (consistent.flight number flight present).holds held
    rw [locked] at lockedToo
    cases lockedToo
  · intro other call present held
    have lockedToo := consistent.holds other call present held
    rw [locked] at lockedToo
    cases lockedToo
    rfl

/-- A thread that holds the lock is the only one who does. -/
theorem Consistent.heldByWorker
    {flights : Flights ι K V E P}
    (consistent : flights.Consistent)
    {number : Nat}
    (locked : flights.lock = some (.worker number)) :
    (∀ other flight, other ≠ number → flights.flight other = some flight →
      ¬flight.worker.Holds) ∧
    ∀ caller call, flights.call caller = some call →
      ¬call.phase.Holds := by
  constructor
  · intro other flight different present held
    have lockedToo := (consistent.flight other flight present).holds held
    rw [locked] at lockedToo
    cases lockedToo
    exact different rfl
  · intro caller call present held
    have lockedToo := consistent.holds caller call present held
    rw [locked] at lockedToo
    cases lockedToo

/-- A call that starts a thread has a flight whose thread is not started. -/
theorem Consistent.starting
    {flights : Flights ι K V E P}
    (consistent : flights.Consistent)
    {caller : ι}
    {call : JoinCall K V E P}
    {number : Nat}
    {flight : Flight K V E P}
    (called : flights.call caller = some call)
    (phase : call.phase = .starting number)
    (present : flights.flight number = some flight) :
    flight.key = call.key ∧ flight.worker = .starting := by
  have sound := consistent.call caller call called
  unfold CallSound at sound
  rw [phase] at sound
  obtain ⟨found, presentToo, sameKey, starts⟩ := sound
  rw [present] at presentToo
  cases presentToo
  exact ⟨sameKey, starts⟩

/-- A registered flight that the lookup finds has a thread. -/
theorem Consistent.found
    {flights : Flights ι K V E P}
    (consistent : flights.Consistent)
    {key : K}
    {number : Nat}
    (free : flights.lock = none)
    (found : flights.registry key = some number) :
    flights.Shares key number := by
  obtain ⟨flight, present, sameKey, registered⟩ :=
    consistent.registered key number found
  refine ⟨flight, present, sameKey, ?_⟩
  cases worker : flight.worker with
  | starting =>
      obtain ⟨caller, call, called, phase⟩ :=
        consistent.launching number flight present worker
      have held := (consistent.free free).2 caller call called
      rw [phase] at held
      exact absurd trivial held
  | never =>
      rw [worker] at registered
      exact registered.elim
  | _ => trivial

/-- A running fetch is what the registry holds for its key. -/
theorem Consistent.fetching_entry
    {flights : Flights ι K V E P}
    (consistent : flights.Consistent)
    {number : Nat}
    {flight : Flight K V E P}
    (present : flights.flight number = some flight)
    (fetching : flight.worker = .fetching) :
    flights.registry flight.key = some number := by
  apply (consistent.flight number flight present).registered
  rw [fetching]
  trivial

/-- What is known of a call in a given phase. -/
theorem Consistent.phase
    {flights : Flights ι K V E P}
    (consistent : flights.Consistent)
    {caller : ι}
    {call : JoinCall K V E P}
    {phase : Phase V E P}
    (called : flights.call caller = some call)
    (current : call.phase = phase) :
    flights.CallSound { call with phase := phase } := by
  rw [← current]
  exact consistent.call caller call called

/-- A call in another phase starts no thread. -/
theorem resting_of
    {flights : Flights ι K V E P}
    {caller : ι}
    {call : JoinCall K V E P}
    {phase : Phase V E P}
    (called : flights.call caller = some call)
    (current : call.phase = phase)
    (different : ∀ number, phase ≠ .starting number) :
    ∀ found number, flights.call caller = some found →
      found.phase ≠ .starting number := by
  intro found number calledToo
  rw [called, Option.some.injEq] at calledToo
  rw [← calledToo, current]
  exact different number

/-- A call in one of three phases holds the lock. -/
theorem Consistent.locked
    {flights : Flights ι K V E P}
    (consistent : flights.Consistent)
    {caller : ι}
    {call : JoinCall K V E P}
    {phase : Phase V E P}
    (called : flights.call caller = some call)
    (current : call.phase = phase)
    (holds : phase.Holds) :
    flights.lock = some (.call caller) := by
  apply consistent.holds caller call called
  rw [current]
  exact holds

/-- A thread goes on by itself. -/
theorem Consistent.work
    {flights : Flights ι K V E P}
    (consistent : flights.Consistent)
    {number : Nat}
    {flight later : Flight K V E P}
    {registry : K → Option Nat}
    {lock : Option (Holder ι)}
    (present : flights.flight number = some flight)
    (grounded : ({ flights with
      registry := registry
      lock := lock
      flight := Function.update flights.flight number (some later) } :
        Flights ι K V E P).Grounded)
    (sameKey : later.key = flight.key)
    (started : flight.worker.Spawned ∧ later.worker.Spawned)
    (visible : ∀ ending, flight.worker.visible = some ending →
      later.worker.visible = some ending)
    (calls : ∀ caller call, flights.call caller = some call →
      call.phase.Holds → lock = flights.lock) :
    ({ flights with
      registry := registry
      lock := lock
      flight := Function.update flights.flight number (some later) } :
        Flights ι K V E P).Consistent := by
  refine ⟨grounded, ?_, ?_, ?_⟩
  · intro caller call called held
    exact (calls caller call called held).trans
      (consistent.holds caller call called held)
  · intro caller call called
    apply (consistent.call caller call called).work present sameKey
      (fun _ => started.2) visible
    intro phase
    have starts := (consistent.starting called phase present).2
    rw [starts] at started
    exact started.1
  · intro other found presentToo starts
    dsimp only at presentToo
    by_cases same : other = number
    · rw [same, Function.update_self, Option.some.injEq] at presentToo
      rw [presentToo, starts] at started
      exact started.2.elim
    · rw [Function.update_of_ne same] at presentToo
      exact consistent.launching other found presentToo starts

section moves

variable [DecidableEq ι]

/-- A call goes on, and with it perhaps the lock. -/
theorem Consistent.move
    {flights : Flights ι K V E P}
    (consistent : flights.Consistent)
    {caller : ι}
    {call : JoinCall K V E P}
    {phase : Phase V E P}
    {lock : Option (Holder ι)}
    (resting : ∀ found number, flights.call caller = some found →
      found.phase ≠ .starting number)
    (idle : lock ≠ flights.lock → ∀ number flight,
      flights.flight number = some flight → ¬flight.worker.Holds)
    (alone : lock ≠ flights.lock → ∀ other found,
      flights.call other = some found → found.phase.Holds → other = caller)
    (holds : phase.Holds → lock = some (.call caller))
    (sound : flights.CallSound { call with phase := phase }) :
    ((flights.setLock lock).move caller call phase).Consistent := by
  refine ⟨⟨consistent.fresh, consistent.registered,
    fun number flight present => ?_⟩, ?_, ?_, ?_⟩
  · have before := consistent.flight number flight present
    refine ⟨before.completion, before.registered, fun held => ?_,
      before.retired⟩
    change lock = _
    by_cases same : lock = flights.lock
    · exact same.trans (before.holds held)
    · exact absurd held (idle same number flight present)
  · intro other found present held
    change lock = _
    by_cases sameCaller : other = caller
    · subst sameCaller
      simp only [Flights.move, Function.update_self, Option.some.injEq]
        at present
      subst present
      exact holds held
    · simp only [Flights.move, Function.update_of_ne sameCaller] at present
      by_cases same : lock = flights.lock
      · exact same.trans (consistent.holds other found present held)
      · exact absurd (alone same other found present held) sameCaller
  · intro other found present
    by_cases sameCaller : other = caller
    · subst sameCaller
      simp only [Flights.move, Function.update_self, Option.some.injEq]
        at present
      subst present
      exact sound
    · simp only [Flights.move, Function.update_of_ne sameCaller] at present
      exact consistent.call other found present
  · intro number flight present starts
    obtain ⟨other, found, called, same⟩ :=
      consistent.launching number flight present starts
    refine ⟨other, found, ?_, same⟩
    have different : other ≠ caller := by
      rintro rfl
      exact resting found number called same
    exact (Function.update_of_ne different ..).trans called

/-- A call goes on and nothing else changes. -/
theorem Consistent.moveAlone
    {flights : Flights ι K V E P}
    (consistent : flights.Consistent)
    {caller : ι}
    {call : JoinCall K V E P}
    {phase : Phase V E P}
    (resting : ∀ found number, flights.call caller = some found →
      found.phase ≠ .starting number)
    (holds : ¬phase.Holds)
    (sound : flights.CallSound { call with phase := phase }) :
    (flights.move caller call phase).Consistent :=
  consistent.move resting (fun changed => absurd rfl changed)
    (fun changed => absurd rfl changed) (fun held => absurd held holds) sound

/-- A call and the flight it starts go on together. -/
theorem Consistent.launch
    {flights : Flights ι K V E P}
    (consistent : flights.Consistent)
    {caller : ι}
    {call : JoinCall K V E P}
    {phase : Phase V E P}
    {number : Nat}
    {flight later : Flight K V E P}
    {registry : K → Option Nat}
    (called : flights.call caller = some call)
    (starts : call.phase = .starting number)
    (present : flights.flight number = some flight)
    (grounded : ({ flights with
      registry := registry
      flight := Function.update flights.flight number (some later)
      call := Function.update flights.call caller
        (some { call with phase := phase }) } :
        Flights ι K V E P).Grounded)
    (sameKey : later.key = flight.key)
    (worked : later.worker ≠ .starting)
    (sound : ({ flights with
      registry := registry
      flight := Function.update flights.flight number (some later)
      call := Function.update flights.call caller
        (some { call with phase := phase }) } :
        Flights ι K V E P).CallSound { call with phase := phase }) :
    ({ flights with
      registry := registry
      flight := Function.update flights.flight number (some later)
      call := Function.update flights.call caller
        (some { call with phase := phase }) } :
        Flights ι K V E P).Consistent := by
  have locked : flights.lock = some (.call caller) := by
    apply consistent.holds caller call called
    rw [starts]
    trivial
  have worker := (consistent.starting called starts present).2
  refine ⟨grounded, ?_, ?_, ?_⟩
  · intro other found presentToo held
    dsimp only at presentToo ⊢
    by_cases same : other = caller
    · rw [same, locked]
    · rw [Function.update_of_ne same] at presentToo
      exact consistent.holds other found presentToo held
  · intro other found presentToo
    dsimp only at presentToo
    by_cases same : other = caller
    · subst same
      rw [Function.update_self, Option.some.injEq] at presentToo
      subst presentToo
      exact sound
    · rw [Function.update_of_ne same] at presentToo
      apply (consistent.call other found presentToo).work present sameKey
      · intro spawned
        rw [worker] at spawned
        exact spawned.elim
      · intro ending visible
        rw [worker] at visible
        cases visible
      · intro phaseToo
        apply same
        apply (consistent.held locked).2 other found presentToo
        rw [phaseToo]
        trivial
  · intro other found presentToo starting
    dsimp only at presentToo ⊢
    by_cases same : other = number
    · rw [same, Function.update_self, Option.some.injEq] at presentToo
      rw [presentToo] at worked
      exact absurd starting worked
    · rw [Function.update_of_ne same] at presentToo
      obtain ⟨owner, held, calledToo, phaseToo⟩ :=
        consistent.launching other found presentToo starting
      refine ⟨owner, held, ?_, phaseToo⟩
      have different : owner ≠ caller := by
        rintro rfl
        rw [called] at calledToo
        cases calledToo
        rw [starts] at phaseToo
        cases phaseToo
        exact same rfl
      rw [Function.update_of_ne different]
      exact calledToo

end moves

variable [DecidableEq ι] [DecidableEq K]

/-- A new flight is registered under a free key. -/
theorem Consistent.register
    {flights : Flights ι K V E P}
    (consistent : flights.Consistent)
    {caller : ι}
    {call : JoinCall K V E P}
    (free : flights.lock = none)
    (absent : flights.registry call.key = none) :
    (flights.register caller call).Consistent := by
  have missing := consistent.fresh flights.next (Nat.le_refl _)
  have idle := consistent.free free
  have older : ∀ other found, flights.flight other = some found →
      other ≠ flights.next := by
    rintro other found present rfl
    rw [missing] at present
    cases present
  have self : (flights.register caller call).flight flights.next =
      some ⟨call.key, .new, .starting⟩ := Function.update_self ..
  have others : ∀ other, other ≠ flights.next →
      (flights.register caller call).flight other = flights.flight other :=
    fun other different => Function.update_of_ne different ..
  have keySelf : (flights.register caller call).registry call.key =
      some flights.next := Function.update_self ..
  have keyOthers : ∀ key, key ≠ call.key →
      (flights.register caller call).registry key = flights.registry key :=
    fun key different => Function.update_of_ne different ..
  refine ⟨⟨?_, ?_, ?_⟩, ?_, ?_, ?_⟩
  · intro other late
    change flights.next + 1 ≤ other at late
    rw [others other (by omega)]
    exact consistent.fresh other (by omega)
  · intro key number found
    by_cases same : key = call.key
    · rw [same, keySelf] at found
      cases found
      exact ⟨_, self, same.symm, trivial⟩
    · rw [keyOthers key same] at found
      obtain ⟨flight, present, sameKey, registered⟩ :=
        consistent.registered key number found
      exact ⟨flight, (others number (older number flight present)).trans
        present, sameKey, registered⟩
  · intro number flight present
    by_cases same : number = flights.next
    · rw [same, self] at present
      cases present
      rw [same]
      exact ⟨rfl, fun _ => keySelf, False.elim, False.elim⟩
    · rw [others number same] at present
      have old := consistent.flight number flight present
      have rests := idle.1 number flight present
      refine ⟨old.completion, ?_, fun held => absurd held rests,
        fun held => absurd held rests⟩
      intro registered
      have entry := old.registered registered
      have different : flight.key ≠ call.key := by
        intro sameKey
        rw [sameKey, absent] at entry
        cases entry
      rw [keyOthers flight.key different]
      exact entry
  · intro other found present held
    by_cases same : other = caller
    · rw [same]
      rfl
    · have old : flights.call other = some found :=
        (Function.update_of_ne same ..).symm.trans present
      exact absurd held (idle.2 other found old)
  · intro other found present
    by_cases same : other = caller
    · rw [same] at present
      have here : some found = some { call with
          phase := .starting flights.next } :=
        present.symm.trans (Function.update_self ..)
      cases here
      exact ⟨_, self, rfl, rfl⟩
    · have old : flights.call other = some found :=
        (Function.update_of_ne same ..).symm.trans present
      apply (consistent.call other found old).keep
      · intro number flight _ presentToo
        exact (others number (older number flight presentToo)).trans
          presentToo
      · intro number flight presentToo
        exact ⟨flight, (others number (older number flight presentToo)).trans
          presentToo, rfl, id, fun _ shows => shows⟩
  · intro number flight present starts
    by_cases same : number = flights.next
    · rw [same]
      exact ⟨caller, _, Function.update_self .., rfl⟩
    · rw [others number same] at present
      obtain ⟨owner, found, called, phase⟩ :=
        consistent.launching number flight present starts
      have held := idle.2 owner found called
      rw [phase] at held
      exact absurd trivial held

/-- One step, whoever makes it, keeps everything in agreement. -/
theorem Step.consistent
    {before after : Flights ι K V E P}
    (step : Step before after)
    (consistent : before.Consistent) :
    after.Consistent := by
  cases step with
  | enter caller key deadline absent =>
      refine consistent.moveAlone ?_ id trivial
      intro found number called
      rw [absent] at called
      cases called
  | attach caller call number called phase free found =>
      have idle := consistent.free free
      exact consistent.move (resting_of called phase (by simp))
        (fun _ => idle.1)
        (fun _ other found present held =>
          absurd held (idle.2 other found present))
        (fun _ => rfl) (consistent.found free found)
  | register caller call called phase free absent =>
      exact consistent.register free absent
  | spawn caller call number flight called phase present =>
      obtain ⟨sameKey, starts⟩ := consistent.starting called phase present
      have sound := consistent.flight number flight present
      have active : flight.worker.Registered := by
        rw [starts]
        trivial
      refine consistent.launch called phase present
        (consistent.toGrounded.work present ?_ (Or.inl active) ?_
          (fun _ _ => rfl) (fun _ => sound.registered active) ?_ ?_
          (fun _ _ _ _ _ => rfl)) ?_ ?_ ?_
      · rfl
      · rw [sound.completion, starts]
        rfl
      · intro out
        exact absurd trivial out
      · exact False.elim
      · rfl
      · intro starting
        cases starting
      · exact ⟨_, Function.update_self .., sameKey, trivial⟩
  | spawnFailed caller call number flight called phase present =>
      obtain ⟨sameKey, starts⟩ := consistent.starting called phase present
      have sound := consistent.flight number flight present
      have active : flight.worker.Registered := by
        rw [starts]
        trivial
      rw [← sameKey]
      refine consistent.launch called phase present
        (consistent.toGrounded.work present ?_ (Or.inl active) ?_
          (fun key different => Function.update_of_ne different ..)
          False.elim (fun _ => Function.update_self ..) False.elim
          (fun _ _ _ _ _ => rfl)) ?_ ?_ ?_
      · rfl
      · rw [sound.completion, starts]
        rfl
      · rfl
      · intro starting
        cases starting
      · trivial
  | unwind caller call called phase =>
      have alone := consistent.held
        (consistent.locked called phase trivial)
      exact consistent.move (resting_of called phase (by simp))
        (fun _ => alone.1) (fun _ => alone.2) False.elim
        (fun _ same => by cases same)
  | unlock caller call number called phase =>
      have alone := consistent.held
        (consistent.locked called phase trivial)
      have sound := consistent.phase called phase
      exact consistent.move (resting_of called phase (by simp))
        (fun _ => alone.1) (fun _ => alone.2) False.elim sound
  | begin caller call number flight called phase present =>
      refine consistent.moveAlone (resting_of called phase (by simp)) id ?_
      exact ⟨consistent.phase called phase, fun expired => by cases expired⟩
  | pass caller call number cursor expired flight now called phase present =>
      have sound := consistent.phase called phase
      have resting := resting_of called phase (by simp)
      cases decision : flight.state.pass cursor expired call.deadline now with
      | leave =>
          refine consistent.moveAlone resting id ⟨sound.1, Or.inl ⟨rfl, ?_⟩⟩
          rcases FlightState.deadline_of_leave decision with late | given
          · exact sound.2 late
          · exact given
      | sleep => exact consistent.moveAlone resting id sound.1
      | relay events position answer =>
          refine consistent.moveAlone resting id ⟨sound.1, sound.2, ?_⟩
          intro joined same
          have shown := FlightState.joined_of_relay decision
          rw [(consistent.flight number flight present).completion,
            same] at shown
          unfold Worker.completion at shown
          cases visible : flight.worker.visible with
          | none =>
              rw [visible] at shown
              cases shown
          | some ending =>
              rw [visible] at shown
              simp only [Completion.joined_ofEnding, Option.some.injEq]
                at shown
              exact ⟨flight, ending, present, visible, shown⟩
  | wake caller call number cursor timedOut called phase patient =>
      refine consistent.moveAlone (resting_of called phase (by simp)) id ?_
      refine ⟨consistent.phase called phase, ?_⟩
      intro late
      cases given : call.deadline with
      | none =>
          rw [patient given] at late
          cases late
      | some deadline => rfl
  | observe caller call number cursor expired event events answer called
      phase =>
      have sound := consistent.phase called phase
      exact consistent.moveAlone (resting_of called phase (by simp)) id
        sound
  | observerPanics caller call number cursor expired event events answer
      called phase =>
      refine consistent.moveAlone (resting_of called phase (by simp)) id ?_
      intro shared same
      cases same
      exact (consistent.phase called phase).1
  | again caller call number cursor expired called phase =>
      have sound := consistent.phase called phase
      exact consistent.moveAlone (resting_of called phase (by simp)) id
        ⟨sound.1, sound.2.1⟩
  | answer caller call number cursor expired joined called phase =>
      have sound := consistent.phase called phase
      exact consistent.moveAlone (resting_of called phase (by simp)) id
        ⟨sound.1, Or.inr (sound.2.2 joined rfl)⟩
  | progress number flight event present fetching =>
      have sound := consistent.flight number flight present
      have active : flight.worker.Registered := by
        rw [fetching]
        trivial
      refine consistent.work present
        (consistent.toGrounded.work present rfl (Or.inl active) ?_
          (fun _ _ => rfl) (fun _ => sound.registered active)
          (fun out => absurd active out) ?_ (fun _ _ _ _ _ => rfl)) rfl ?_
          (fun _ visible => visible) (fun _ _ _ _ => rfl)
      · exact (FlightState.completion_publish ..).trans sound.completion
      · rw [fetching]
        exact False.elim
      · rw [fetching]
        exact ⟨trivial, trivial⟩
  | fetched number flight ending present fetching =>
      have sound := consistent.flight number flight present
      have active : flight.worker.Registered := by
        rw [fetching]
        trivial
      refine consistent.work present
        (consistent.toGrounded.work present rfl (Or.inl active) ?_
          (fun _ _ => rfl) (fun _ => sound.registered active)
          (fun out => absurd trivial out) False.elim
          (fun _ _ _ _ _ => rfl)) rfl ?_ ?_ (fun _ _ _ _ => rfl)
      · rw [sound.completion, fetching]
        rfl
      · rw [fetching]
        exact ⟨trivial, trivial⟩
      · rw [fetching]
        intro _ visible
        cases visible
  | retire number flight ending present ended free =>
      have sound := consistent.flight number flight present
      have idle := consistent.free free
      have active : flight.worker.Registered := by
        rw [ended]
        trivial
      refine consistent.work present
        (consistent.toGrounded.work present rfl (Or.inl active) ?_
          (fun key different => Function.update_of_ne different ..)
          False.elim (fun _ => Function.update_self ..)
          (fun _ => ⟨rfl, id⟩)
          (fun other found _ presentToo held =>
            absurd held (idle.1 other found presentToo))) rfl ?_ ?_
          (fun caller call called held =>
            absurd held (idle.2 caller call called))
      · rw [sound.completion, ended]
        rfl
      · rw [ended]
        exact ⟨trivial, trivial⟩
      · rw [ended]
        intro _ visible
        cases visible
  | finish number flight ending present retired =>
      have sound := consistent.flight number flight present
      have active : flight.worker.Holds := by
        rw [retired]
        trivial
      refine consistent.work present
        (consistent.toGrounded.work present rfl (Or.inr active) rfl
          (fun _ _ => rfl) False.elim (fun _ => sound.retired active)
          (fun _ => ⟨sound.holds active, id⟩) (fun _ _ _ _ _ => rfl))
          rfl ?_ ?_ (fun _ _ _ _ => rfl)
      · rw [retired]
        exact ⟨trivial, trivial⟩
      · rw [retired]
        intro _ visible
        cases visible
  | release number flight ending present published =>
      have sound := consistent.flight number flight present
      have active : flight.worker.Holds := by
        rw [published]
        trivial
      have alone := consistent.heldByWorker (sound.holds active)
      refine consistent.work present
        (consistent.toGrounded.work present rfl (Or.inr active) ?_
          (fun _ _ => rfl) False.elim (fun _ => sound.retired active)
          False.elim
          (fun other found different presentToo held =>
            absurd held (alone.1 other found different presentToo)))
          rfl ?_ ?_
          (fun caller call called held =>
            absurd held (alone.2 caller call called))
      · rw [sound.completion, published]
        rfl
      · rw [published]
        exact ⟨trivial, trivial⟩
      · rw [published]
        exact fun _ visible => visible

theorem Reachable.consistent
    {flights : Flights ι K V E P}
    (reachable : flights.Reachable) :
    flights.Consistent := by
  induction reachable with
  | refl => exact new_consistent
  | tail _ step inductionHypothesis => exact step.consistent inductionHypothesis

end Flights
end ModelKeep
