import ModelKeep.InFlight.Acquisitions
import ModelKeep.TransferGate

/-!
# The view of what is in flight

An entry of the registry shows what its acquisition does.  The thread of a
flight sets the state of its entry while it waits for its slot, holds it and
gives it back; a view locks the registry and reads the entries one after the
other.
-/

namespace ModelKeep
namespace InFlight

open Concurrency PullThrough

inductive AcquisitionState
  | resolving
  | waiting
  | transferring
  deriving DecidableEq

/-- How far a thread has come with its transfer slot. -/
inductive Place
  | outside
  /-- Its entry says that it waits; it will call `acquire`. -/
  | announced
  /-- Within `acquire`, under this ticket. -/
  | queued (ticket : Nat)
  /-- It has the permit of this ticket. -/
  | holding (ticket : Nat)
  /-- The permit is dropped. -/
  | released

/-- The ticket of a call of `acquire` that is not over. -/
def Place.ticket? : Place → Option Nat
  | queued ticket => some ticket
  | holding ticket => some ticket
  | _ => none

/-- The slot was granted once. -/
def Place.Passed : Place → Prop
  | holding _ => True
  | released => True
  | _ => False

/-- What `snapshot` says of an entry; the progress of its transfer is left
out. -/
structure Item where
  entry : Nat
  target : Target
  state : AcquisitionState

/-- A call of `view` that holds the lock of the registry. -/
structure View where
  items : List Item
  remaining : List (Nat × Target)

/-- The items that the view counts as transferring. -/
def View.transferring (view : View) : List Item :=
  view.items.filter fun item => item.state = .transferring

/-- The acquisitions with the gate, the states of the entries, the places of
the threads and the view under way. -/
structure Board where
  acquisitions : Acquisitions
  gate : GateSystem Nat
  live : Nat → AcquisitionState
  place : Nat → Place
  view : Option View

/-- Whose slot an acquisition takes. -/
def Target.slot (target : Target) : RepositoryKey :=
  (target.repository.repoType, target.repository.repoId)

def Request.slot (request : Request) : RepositoryKey := request.target.slot

/-- `set_state` right before a call; a refresh has said already that it
transfers when it asks for staging. -/
def announces : PullThrough.Op → Option AcquisitionState
  | .inventory _ => some .resolving
  | .acquireStaging _ => some .transferring
  | _ => none

namespace Board

/-- `PullThrough::new`. -/
def new : Board :=
  ⟨.new, .initial, fun _ => .resolving, fun _ => .outside, none⟩

/-- The acquisitions have taken a step; the gate knows their tokens. -/
def follow (s : Board) (acquisitions : Acquisitions) : Board :=
  { s with
    acquisitions := acquisitions
    gate := { s.gate with tokens := acquisitions.token } }

/-- `AcquisitionHandle::set_state`. -/
def setState (s : Board) (entry : Nat) (state : AcquisitionState) : Board :=
  { s with live := Function.update s.live entry state }

def announce (s : Board) (entry : Nat) (op : PullThrough.Op) : Board :=
  match announces op with
  | some state => s.setState entry state
  | none => s

def setPlace (s : Board) (number : Nat) (place : Place) : Board :=
  { s with place := Function.update s.place number place }

def setGate (s : Board) (gate : GateSystem Nat) : Board :=
  { s with gate := gate }

end Board

/-- The steps that a condition speaks of. -/
inductive Moment
  | read (entry : Nat)
  | release (number : Nat)
  | other

namespace Board

/-- The steps of the threads up to their next lock, and those of the view. -/
inductive Step (limit : Nat) : Moment → Board → Board → Prop
  | join
      (s : Board)
      (request : Request) :
      Step limit .other s (s.follow (s.acquisitions.join request).2)
  | register
      (s : Board)
      (number : Nat)
      (flight : Flight) :
      s.acquisitions.flight number = some flight →
      flight.worker = .starting →
      s.view = none →
      Step limit .other s
        ((s.follow (s.acquisitions.register number flight)).setState
          s.acquisitions.nextEntry .resolving)
  | call
      (s : Board)
      (number entry : Nat)
      (flight : Flight)
      (op : PullThrough.Op)
      (next : op.Reply →
        Program PullThrough.interface (Except PullThroughError Landing))
      (reply : op.Reply)
      (token : Cancellation) :
      s.acquisitions.flight number = some flight →
      flight.worker = .working entry (.call op next) →
      op ≠ .enterTransferGate →
      Answers op (s.acquisitions.token entry) reply token →
      Step limit .other s
        ((s.follow (((s.acquisitions.setToken entry token).advance number
          flight (.working entry (next reply))).record number op)).announce
            entry op)
  /-- `enter_transfer_gate` up to its call of `acquire`. -/
  | announce
      (s : Board)
      (number entry : Nat)
      (flight : Flight)
      (next : Op.enterTransferGate.Reply →
        Program PullThrough.interface (Except PullThroughError Landing)) :
      s.acquisitions.flight number = some flight →
      flight.worker = .working entry (.call .enterTransferGate next) →
      s.place number = .outside →
      Step limit .other s ((s.setState entry .waiting).setPlace number
        .announced)
  | enter
      (s : Board)
      (number entry : Nat)
      (flight : Flight)
      (next : Op.enterTransferGate.Reply →
        Program PullThrough.interface (Except PullThroughError Landing)) :
      s.acquisitions.flight number = some flight →
      flight.worker = .working entry (.call .enterTransferGate next) →
      s.place number = .announced →
      Step limit .other s
        ((s.setGate (s.gate.enter limit flight.request.slot entry)).setPlace
          number (.queued s.gate.gate.nextTicket))
  /-- A wakeup of any cause. -/
  | wake
      (s : Board)
      (ticket : Nat)
      (repository : RepositoryKey)
      (entry : Nat) :
      s.gate.calls ticket = .parked repository entry →
      Step limit .other s
        (s.setGate (s.gate.pass limit ticket repository entry true))
  | allow
      (s : Board)
      (number entry ticket : Nat)
      (flight : Flight)
      (next : Op.enterTransferGate.Reply →
        Program PullThrough.interface (Except PullThroughError Landing))
      (repository : RepositoryKey)
      (waited : Bool) :
      s.acquisitions.flight number = some flight →
      flight.worker = .working entry (.call .enterTransferGate next) →
      s.place number = .queued ticket →
      s.gate.calls ticket = .holding repository waited →
      Step limit .other s
        (((s.follow (s.acquisitions.advance number flight
          (.working entry (next (.ok waited))))).setState entry
            .transferring).setPlace number (.holding ticket))
  | refuse
      (s : Board)
      (number entry ticket : Nat)
      (flight : Flight)
      (next : Op.enterTransferGate.Reply →
        Program PullThrough.interface (Except PullThroughError Landing)) :
      s.acquisitions.flight number = some flight →
      flight.worker = .working entry (.call .enterTransferGate next) →
      s.place number = .queued ticket →
      s.gate.calls ticket = .refused →
      Step limit .other s
        ((s.follow (s.acquisitions.advance number flight
          (.working entry (next (.error .cancelled))))).setPlace number
            .outside)
  | finish
      (s : Board)
      (number entry : Nat)
      (flight : Flight)
      (result : Except PullThroughError Landing) :
      s.acquisitions.flight number = some flight →
      flight.worker = .working entry (.done result) →
      Step limit .other s
        (s.follow (s.acquisitions.advance number flight
          (.ended entry (some result))))
  /-- Any code but that of the gate may panic. -/
  | panic
      (s : Board)
      (number entry : Nat)
      (flight : Flight)
      (rest : Program PullThrough.interface
        (Except PullThroughError Landing)) :
      s.acquisitions.flight number = some flight →
      flight.worker = .working entry rest →
      (∀ ticket, s.place number ≠ .queued ticket) →
      Step limit .other s
        (s.follow (s.acquisitions.advance number flight (.ended entry none)))
  /-- The body has returned or unwinds, and its permit is dropped. -/
  | release
      (s : Board)
      (number entry ticket : Nat)
      (flight : Flight)
      (ending : Ending Landing PullThroughError)
      (repository : RepositoryKey)
      (waited : Bool) :
      s.acquisitions.flight number = some flight →
      flight.worker = .ended entry ending →
      s.place number = .holding ticket →
      s.gate.calls ticket = .holding repository waited →
      Step limit (.release number) s
        ((s.setGate ((s.gate.release ticket repository).promote
          limit)).setPlace number .released)
  /-- The handle is dropped after the permit. -/
  | drop
      (s : Board)
      (number entry : Nat)
      (flight : Flight)
      (ending : Ending Landing PullThroughError) :
      s.acquisitions.flight number = some flight →
      flight.worker = .ended entry ending →
      (∀ ticket, s.place number ≠ .holding ticket) →
      s.view = none →
      Step limit .other s
        (s.follow ((s.acquisitions.deregister entry).advance number flight
          (.dropped entry ending)))
  | land
      (s : Board)
      (number entry : Nat)
      (flight : Flight)
      (ending : Ending Landing PullThroughError) :
      s.acquisitions.flight number = some flight →
      flight.worker = .dropped entry ending →
      Step limit .other s
        (s.follow ((s.acquisitions.retire flight.request.key).advance number
          flight (.ceased entry ending)))
  | cancel
      (s : Board)
      (entry : Nat) :
      entry < s.acquisitions.nextEntry →
      Step limit .other s
        (s.follow (s.acquisitions.setToken entry
          (s.acquisitions.token entry).cancel.2))
  /-- A call of `view` takes the lock of the registry. -/
  | look
      (s : Board) :
      s.view = none →
      Step limit .other s
        { s with view := some ⟨[], s.acquisitions.registry⟩ }
  | read
      (s : Board)
      (items : List Item)
      (entry : Nat)
      (target : Target)
      (remaining : List (Nat × Target)) :
      s.view = some ⟨items, (entry, target) :: remaining⟩ →
      Step limit (.read entry) s
        { s with
          view := some
            ⟨items ++ [⟨entry, target, s.live entry⟩], remaining⟩ }
  | answer
      (s : Board)
      (items : List Item) :
      s.view = some ⟨items, []⟩ →
      Step limit .other s { s with view := none }

/-- The acquisition of the entry has its slot. -/
def Holds (s : Board) (entry : Nat) : Prop :=
  ∃ number flight ticket, s.acquisitions.flight number = some flight ∧
    flight.worker.entry? = some entry ∧ s.place number = .holding ticket

/-- Every item that the view under way reports as transferring has its slot. -/
def Truthful (s : Board) : Prop :=
  ∀ view, s.view = some view → ∀ item ∈ view.transferring, s.Holds item.entry

/-- No acquisition has given its slot back that is read as transferring, and
none gives it back once a view under way has read it so. -/
def Careful (s : Board) : Moment → Prop
  | .read entry => s.live entry = .transferring → ∀ number flight,
      s.acquisitions.flight number = some flight →
      flight.worker.entry? = some entry → s.place number ≠ .released
  | .release number => ∀ view flight, s.view = some view →
      s.acquisitions.flight number = some flight →
      ∀ item ∈ view.transferring, flight.worker.entry? ≠ some item.entry
  | .other => True

/-- What is left of a body, and its call of `acquire`, fit the place of the
thread. -/
def Stands (gate : GateSystem Nat) (flight : Flight) : Place → Prop
  | .outside => ∀ entry rest, flight.worker = .working entry rest →
      Gated rest false
  | .announced => ∀ entry rest, flight.worker = .working entry rest →
      Gated rest false
  | .queued ticket =>
      (∃ entry rest, flight.worker = .working entry rest ∧
        Gated rest false ∧ ∃ next, rest = .call .enterTransferGate next) ∧
      ((∃ entry, gate.calls ticket = .parked flight.request.slot entry) ∨
        (∃ waited, gate.calls ticket = .holding flight.request.slot waited) ∨
        gate.calls ticket = .refused)
  | .holding ticket =>
      ((∃ entry rest, flight.worker = .working entry rest ∧
        Gated rest true) ∨
        ∃ entry ending, flight.worker = .ended entry ending) ∧
      ∃ waited, gate.calls ticket = .holding flight.request.slot waited
  | .released => flight.worker.Ended

/-- The registration is not taken back. -/
def Listed : Worker → Prop
  | .working _ _ => True
  | .ended _ _ => True
  | _ => False

/-- What every step keeps. -/
structure Sound (limit : Nat) (s : Board) : Prop where
  acquisitions : s.acquisitions.Sound
  gate : GateSystem.Invariant limit s.gate
  idle : ∀ number, s.acquisitions.next ≤ number → s.place number = .outside
  stands : ∀ number flight, s.acquisitions.flight number = some flight →
    Stands s.gate flight (s.place number)
  issued : ∀ number ticket, (s.place number).ticket? = some ticket →
    ticket < s.gate.gate.nextTicket
  apart : ∀ number other ticket, (s.place number).ticket? = some ticket →
    (s.place other).ticket? = some ticket → number = other
  live : ∀ number flight entry, s.acquisitions.flight number = some flight →
    flight.worker.entry? = some entry → s.live entry = .transferring →
    (s.place number).Passed
  listed : ∀ pair ∈ s.acquisitions.registry, ∃ number flight,
    s.acquisitions.flight number = some flight ∧
      flight.worker.entry? = some pair.1 ∧ flight.request.target = pair.2 ∧
        Listed flight.worker
  distinct : (s.acquisitions.registry.map Prod.fst).Nodup
  view : ∀ view, s.view = some view → s.acquisitions.registry =
    view.items.map (fun item => (item.entry, item.target)) ++ view.remaining

section sound

variable {limit : Nat} {s t : Board} {number : Nat}

/-- The calls that the place of a thread speaks of did not move. -/
theorem Stands.frame
    {gate moved : GateSystem Nat}
    {flight : Flight}
    {place : Place}
    (stands : Stands gate flight place)
    (same : ∀ ticket, place.ticket? = some ticket →
      moved.calls ticket = gate.calls ticket) :
    Stands moved flight place := by
  cases place with
  | queued ticket =>
      refine ⟨stands.1, ?_⟩
      rw [same ticket rfl]
      exact stands.2
  | holding ticket =>
      refine ⟨stands.1, ?_⟩
      rw [same ticket rfl]
      exact stands.2
  | _ => exact stands

/-- A step of one thread, part by part. -/
structure Moves
    (limit : Nat)
    (s t : Board)
    (number entry : Nat)
    (flight : Flight)
    (worker : Worker) :
    Prop where
  acquisitions : t.acquisitions.Sound
  found : s.acquisitions.flight number = some flight
  own : flight.worker.entry? = some entry
  same : worker.entry? = some entry
  flights : t.acquisitions.flight = Function.update s.acquisitions.flight number
    (some { flight with worker := worker })
  next : t.acquisitions.next = s.acquisitions.next
  gate : GateSystem.Invariant limit t.gate
  issued : s.gate.gate.nextTicket ≤ t.gate.gate.nextTicket
  calls : ∀ ticket, ticket < s.gate.gate.nextTicket →
    (s.place number).ticket? ≠ some ticket →
    t.gate.calls ticket = s.gate.calls ticket
  places : ∀ other, other ≠ number → t.place other = s.place other
  ticket : ∀ ticket, (t.place number).ticket? = some ticket →
    (s.place number).ticket? = some ticket ∨
      s.gate.gate.nextTicket ≤ ticket ∧ ticket < t.gate.gate.nextTicket
  stands : Stands t.gate { flight with worker := worker } (t.place number)
  live : ∀ other, other ≠ entry → t.live other = s.live other
  passed : t.live entry = .transferring → (t.place number).Passed
  view : t.view = s.view
  listed : (t.acquisitions.registry = s.acquisitions.registry ∧
      (Listed flight.worker → Listed worker)) ∨
    s.view = none ∧ t.acquisitions.registry =
      s.acquisitions.registry.filter fun pair => pair.1 ≠ entry

theorem Moves.sound
    {entry : Nat}
    {flight : Flight}
    {worker : Worker}
    (sound : Sound limit s)
    (moves : Moves limit s t number entry flight worker) :
    Sound limit t := by
  have known : number < s.acquisitions.next := by
    by_contra beyond
    have absent := sound.acquisitions.fresh number (Nat.le_of_not_lt beyond)
    rw [moves.found] at absent
    cases absent
  have here : t.acquisitions.flight number =
      some { flight with worker := worker } := by
    rw [moves.flights, Function.update_self]
  have elsewhere : ∀ other, other ≠ number →
      t.acquisitions.flight other = s.acquisitions.flight other := by
    intro other different
    rw [moves.flights, Function.update_of_ne different]
  refine ⟨moves.acquisitions, moves.gate, ?_, ?_, ?_, ?_, ?_, ?_, ?_, ?_⟩
  · intro other beyond
    rw [moves.next] at beyond
    rw [moves.places other (by omega)]
    exact sound.idle other beyond
  · intro other later found
    by_cases same : other = number
    · subst same
      cases here.symm.trans found
      exact moves.stands
    · rw [elsewhere other same] at found
      rw [moves.places other same]
      refine (sound.stands other later found).frame fun ticket holds => ?_
      refine moves.calls ticket (sound.issued other ticket holds) ?_
      intro mine
      exact same (sound.apart other number ticket holds mine)
  · intro other ticket holds
    by_cases same : other = number
    · subst same
      rcases moves.ticket ticket holds with before | ⟨_, fresh⟩
      · exact (sound.issued other ticket before).trans_le moves.issued
      · exact fresh
    · rw [moves.places other same] at holds
      exact (sound.issued other ticket holds).trans_le moves.issued
  · have alone : ∀ other ticket, other ≠ number →
        (t.place number).ticket? = some ticket →
        (t.place other).ticket? ≠ some ticket := by
      intro other ticket different mine theirs
      rw [moves.places other different] at theirs
      rcases moves.ticket ticket mine with before | ⟨fresh, _⟩
      · exact different (sound.apart other number ticket theirs before)
      · exact absurd (sound.issued other ticket theirs) (Nat.not_lt.mpr fresh)
    intro first second ticket one two
    by_cases isFirst : first = number
    · by_cases isSecond : second = number
      · rw [isFirst, isSecond]
      · exact absurd two (alone second ticket isSecond (isFirst ▸ one))
    · by_cases isSecond : second = number
      · exact absurd one (alone first ticket isFirst (isSecond ▸ two))
      · rw [moves.places first isFirst] at one
        rw [moves.places second isSecond] at two
        exact sound.apart first second ticket one two
  · intro other later own found made shows
    by_cases same : other = number
    · subst same
      cases here.symm.trans found
      cases moves.same.symm.trans made
      exact moves.passed shows
    · rw [elsewhere other same] at found
      have different : own ≠ entry := by
        rintro rfl
        exact same (sound.acquisitions.distinct other number later flight own
          found moves.found made moves.own)
      rw [moves.live own different] at shows
      rw [moves.places other same]
      exact sound.live other later own found made shows
  · intro pair member
    have standing : ∀ pair ∈ s.acquisitions.registry,
        (pair.1 = entry → Listed flight.worker → Listed worker) →
        ∃ number flight, t.acquisitions.flight number = some flight ∧
          flight.worker.entry? = some pair.1 ∧
            flight.request.target = pair.2 ∧ Listed flight.worker := by
      intro pair member keeps
      obtain ⟨other, later, found, made, target, stays⟩ :=
        sound.listed pair member
      by_cases same : other = number
      · subst same
        cases moves.found.symm.trans found
        cases moves.own.symm.trans made
        exact ⟨other, _, here, moves.same, target, keeps rfl stays⟩
      · exact ⟨other, later, (elsewhere other same).trans found, made, target,
          stays⟩
    rcases moves.listed with ⟨registry, keeps⟩ | ⟨_, registry⟩
    · rw [registry] at member
      exact standing pair member fun _ => keeps
    · rw [registry] at member
      obtain ⟨before, different⟩ := List.mem_filter.mp member
      exact standing pair before fun same =>
        absurd same (by simpa using different)
  · rcases moves.listed with ⟨registry, _⟩ | ⟨_, registry⟩
    · rw [registry]
      exact sound.distinct
    · rw [registry]
      exact sound.distinct.sublist (List.filter_sublist.map Prod.fst)
  · intro view looking
    rw [moves.view] at looking
    rcases moves.listed with ⟨registry, _⟩ | ⟨absent, _⟩
    · rw [registry]
      exact sound.view view looking
    · rw [absent] at looking
      cases looking

/-- A step that leaves the threads where they are. -/
theorem Sound.aside
    (sound : Sound limit s)
    (acquisitions : t.acquisitions.Sound)
    (flights : t.acquisitions.flight = s.acquisitions.flight)
    (next : t.acquisitions.next = s.acquisitions.next)
    (registry : t.acquisitions.registry = s.acquisitions.registry)
    (gate : GateSystem.Invariant limit t.gate)
    (issued : t.gate.gate.nextTicket = s.gate.gate.nextTicket)
    (stands : ∀ number flight, s.acquisitions.flight number = some flight →
      Stands t.gate flight (s.place number))
    (places : t.place = s.place)
    (live : t.live = s.live)
    (view : ∀ view, t.view = some view → s.acquisitions.registry =
      view.items.map (fun item => (item.entry, item.target)) ++
        view.remaining) :
    Sound limit t := by
  refine ⟨acquisitions, gate, ?_, ?_, ?_, ?_, ?_, ?_, ?_, ?_⟩
  · rw [next, places]
    exact sound.idle
  · rw [flights, places]
    exact stands
  · rw [places, issued]
    exact sound.issued
  · rw [places]
    exact sound.apart
  · rw [flights, live, places]
    exact sound.live
  · rw [registry, flights]
    exact sound.listed
  · rw [registry]
    exact sound.distinct
  · rw [registry]
    exact view

theorem Sound.join
    (sound : Sound limit s)
    (request : Request) :
    Sound limit (s.follow (s.acquisitions.join request).2) := by
  have acquisitions := (Acquisitions.Step.join s.acquisitions request).does
    sound.acquisitions |>.sound sound.acquisitions
  cases current : s.acquisitions.current request.key with
  | some number =>
      have same : (s.acquisitions.join request).2 = s.acquisitions := by
        unfold Acquisitions.join
        rw [current]
      rw [same]
      exact sound.aside sound.acquisitions rfl rfl rfl (sound.gate.tokens _)
        rfl (fun number flight found => (sound.stands number flight
          found).frame fun _ _ => rfl) rfl rfl sound.view
  | none =>
      have joined : (s.acquisitions.join request).2 =
          { s.acquisitions with
            current := Function.update s.acquisitions.current request.key
              (some s.acquisitions.next)
            flight := Function.update s.acquisitions.flight s.acquisitions.next
              (some ⟨request, .starting⟩)
            next := s.acquisitions.next + 1 } := by
        unfold Acquisitions.join
        rw [current]
      rw [joined] at acquisitions ⊢
      have was : ∀ other later, Function.update s.acquisitions.flight
          s.acquisitions.next (some ⟨request, .starting⟩) other = some later →
          (other = s.acquisitions.next ∧ later.worker = .starting) ∨
            s.acquisitions.flight other = some later := by
        intro other later found
        by_cases same : other = s.acquisitions.next
        · rw [same, Function.update_self] at found
          exact Or.inl ⟨same, by rw [← Option.some.inj found]⟩
        · rw [Function.update_of_ne same] at found
          exact Or.inr found
      refine ⟨acquisitions, sound.gate.tokens _, ?_, ?_, sound.issued,
        sound.apart, ?_, ?_, sound.distinct, sound.view⟩
      · intro other beyond
        exact sound.idle other ((Nat.le_succ _).trans beyond)
      · intro other later found
        rcases was other later found with ⟨rfl, starting⟩ | before
        · rw [show (s.follow _).place s.acquisitions.next = .outside from
            sound.idle _ le_rfl]
          intro entry rest working
          rw [starting] at working
          cases working
        · exact (sound.stands other later before).frame fun _ _ => rfl
      · intro other later entry found made shows
        rcases was other later found with ⟨_, starting⟩ | before
        · rw [starting] at made
          cases made
        · exact sound.live other later entry before made shows
      · intro pair member
        obtain ⟨other, later, found, made, target, stays⟩ :=
          sound.listed pair member
        refine ⟨other, later, ?_, made, target, stays⟩
        refine (Function.update_of_ne ?_ ..).trans found
        rintro rfl
        rw [sound.acquisitions.fresh _ le_rfl] at found
        cases found

theorem gated_body (request : Request) : Gated request.body false := by
  cases request with
  | pullThrough repository requestedRevision selection reconcile =>
      exact gated_acquisition.done _
  | refresh repository reference dryRun => exact gated_refreshOnce.done _

theorem Sound.register
    {flight : Flight}
    (sound : Sound limit s)
    (found : s.acquisitions.flight number = some flight)
    (starting : flight.worker = .starting)
    (free : s.view = none) :
    Sound limit ((s.follow (s.acquisitions.register number flight)).setState
      s.acquisitions.nextEntry .resolving) := by
  have acquisitions := (Acquisitions.Step.register s.acquisitions number flight
    found starting).does sound.acquisitions |>.sound sound.acquisitions
  have was : ∀ other later,
      (s.acquisitions.register number flight).flight other = some later →
      (other = number ∧ later = ⟨flight.request,
        .working s.acquisitions.nextEntry flight.request.body⟩) ∨
        other ≠ number ∧ s.acquisitions.flight other = some later := by
    intro other later present
    by_cases same : other = number
    · rw [same, show (s.acquisitions.register number flight).flight number = _
        from Function.update_self ..] at present
      exact Or.inl ⟨same, (Option.some.inj present).symm⟩
    · exact Or.inr ⟨same, (Function.update_of_ne same ..).symm.trans present⟩
  refine ⟨acquisitions, sound.gate.tokens _, sound.idle, ?_, sound.issued,
    sound.apart, ?_, ?_, ?_, ?_⟩
  · intro other later present
    rcases was other later present with ⟨rfl, rfl⟩ | ⟨_, before⟩
    · have stands := sound.stands other flight found
      have body := gated_body flight.request
      change Stands _ _ (s.place other)
      cases place : s.place other with
      | outside =>
          rintro entry rest ⟨⟩
          exact body
      | announced =>
          rintro entry rest ⟨⟩
          exact body
      | queued ticket =>
          rw [place] at stands
          obtain ⟨⟨entry, rest, working, _⟩, _⟩ := stands
          rw [starting] at working
          cases working
      | holding ticket =>
          rw [place] at stands
          rcases stands.1 with ⟨entry, rest, working, _⟩ | ⟨entry, ending, ceased⟩
          · rw [starting] at working
            cases working
          · rw [starting] at ceased
            cases ceased
      | released =>
          rw [place] at stands
          rw [Stands, starting] at stands
          exact stands.elim
    · exact (sound.stands other later before).frame fun _ _ => rfl
  · intro other later entry present made shows
    rcases was other later present with ⟨_, rfl⟩ | ⟨_, before⟩
    · cases made
      rw [show (setState _ s.acquisitions.nextEntry .resolving).live
        s.acquisitions.nextEntry = .resolving from Function.update_self ..]
        at shows
      cases shows
    · have different : entry ≠ s.acquisitions.nextEntry :=
        Nat.ne_of_lt (sound.acquisitions.issued other later entry before made)
      exact sound.live other later entry before made
        ((Function.update_of_ne different ..).symm.trans shows)
  · intro pair member
    rcases List.mem_append.mp member with before | new
    · obtain ⟨other, later, present, made, target, stays⟩ :=
        sound.listed pair before
      refine ⟨other, later, ?_, made, target, stays⟩
      refine (Function.update_of_ne ?_ ..).trans present
      rintro rfl
      cases found.symm.trans present
      rw [starting] at made
      cases made
    · rw [List.mem_singleton.mp new]
      exact ⟨number, _, Function.update_self .., rfl, rfl, trivial⟩
  · change ((s.acquisitions.registry ++
      [(s.acquisitions.nextEntry, flight.request.target)]).map Prod.fst).Nodup
    rw [List.map_append, List.nodup_append]
    refine ⟨sound.distinct, List.nodup_singleton _, ?_⟩
    intro entry member new
    obtain ⟨pair, listed, rfl⟩ := List.mem_map.mp member
    have issued := sound.acquisitions.listed pair listed
    simp only [List.map_cons, List.map_nil, List.mem_singleton]
    rintro rfl
    exact Nat.ne_of_lt issued
  · intro view looking
    cases free.symm.trans looking

section announce

variable {entry : Nat} {op : PullThrough.Op}

@[simp] theorem acquisitions_announce :
    (s.announce entry op).acquisitions = s.acquisitions := by
  unfold announce
  split <;> rfl

@[simp] theorem gate_announce :
    (s.announce entry op).gate = s.gate := by
  unfold announce
  split <;> rfl

@[simp] theorem place_announce :
    (s.announce entry op).place = s.place := by
  unfold announce
  split <;> rfl

@[simp] theorem view_announce :
    (s.announce entry op).view = s.view := by
  unfold announce
  split <;> rfl

theorem live_announce_of_ne
    {other : Nat}
    (different : other ≠ entry) :
    (s.announce entry op).live other = s.live other := by
  unfold announce
  split
  · exact Function.update_of_ne different ..
  · rfl

/-- A call that announces a transfer asks for staging. -/
theorem live_announce
    (shows : (s.announce entry op).live entry = .transferring) :
    s.live entry = .transferring ∨ ∃ request, op = .acquireStaging request := by
  cases op with
  | acquireStaging request => exact Or.inr ⟨request, rfl⟩
  | inventory request =>
      rw [show (s.announce entry (.inventory request)).live entry = .resolving
        from Function.update_self ..] at shows
      cases shows
  | _ => exact Or.inl shows

end announce

/-- The thread of a flight moves with its acquisition. -/
theorem Moves.of_advances
    {entry : Nat}
    {flight : Flight}
    {worker : Worker}
    (sound : Sound limit s)
    (advances : s.acquisitions.Advances t.acquisitions number entry flight
      worker)
    (gate : t.gate = { s.gate with tokens := t.gate.tokens })
    (places : ∀ other, other ≠ number → t.place other = s.place other)
    (ticket : ∀ ticket, (t.place number).ticket? = some ticket →
      (s.place number).ticket? = some ticket)
    (stands : Stands s.gate { flight with worker := worker } (t.place number))
    (live : ∀ other, other ≠ entry → t.live other = s.live other)
    (passed : t.live entry = .transferring → (t.place number).Passed)
    (view : t.view = s.view)
    (listed : (t.acquisitions.registry = s.acquisitions.registry ∧
        (Listed flight.worker → Listed worker)) ∨
      s.view = none ∧ t.acquisitions.registry =
        s.acquisitions.registry.filter fun pair => pair.1 ≠ entry) :
    Moves limit s t number entry flight worker := by
  refine ⟨advances.sound sound.acquisitions, advances.found, advances.own,
    advances.same, advances.flights, advances.next, ?_, ?_, ?_, places,
    fun number holds => Or.inl (ticket number holds), ?_, live, passed, view,
    listed⟩
  · rw [gate]
    exact sound.gate.tokens _
  · rw [gate]
  · intro ticket _ _
    rw [gate]
  · refine stands.frame fun ticket _ => ?_
    rw [gate]

/-- A thread that works is not past its slot, or has it. -/
theorem Stands.working
    {gate : GateSystem Nat}
    {flight : Flight}
    {place : Place}
    {entry : Nat}
    {rest : Program PullThrough.interface (Except PullThroughError Landing)}
    (stands : Stands gate flight place)
    (working : flight.worker = .working entry rest) :
    ((place = .outside ∨ place = .announced) ∧ Gated rest false) ∨
      (∃ ticket, place = .queued ticket ∧ Gated rest false ∧
        ∃ next, rest = .call .enterTransferGate next) ∨
      ∃ ticket, place = .holding ticket ∧ Gated rest true := by
  cases place with
  | outside => exact Or.inl ⟨Or.inl rfl, stands entry rest working⟩
  | announced => exact Or.inl ⟨Or.inr rfl, stands entry rest working⟩
  | queued ticket =>
      obtain ⟨⟨own, left, doing, gated, next, call⟩, _⟩ := stands
      cases working.symm.trans doing
      exact Or.inr (Or.inl ⟨ticket, rfl, gated, next, call⟩)
  | holding ticket =>
      obtain ⟨⟨own, left, doing, gated⟩ | ⟨own, ending, ceased⟩, _⟩ := stands
      · cases working.symm.trans doing
        exact Or.inr (Or.inr ⟨ticket, rfl, gated⟩)
      · cases working.symm.trans ceased
  | released =>
      rw [Stands, working] at stands
      exact stands.elim

theorem admits_of_ne
    {op : PullThrough.Op}
    {reply : op.Reply}
    (other : op ≠ .enterTransferGate) :
    Admits op reply = false := by
  cases op with
  | enterTransferGate => exact absurd rfl other
  | _ => rfl

/-- A call that is answered leaves the place as it is. -/
theorem Stands.call
    {gate : GateSystem Nat}
    {flight : Flight}
    {place : Place}
    {entry : Nat}
    {op : PullThrough.Op}
    {next : op.Reply →
      Program PullThrough.interface (Except PullThroughError Landing)}
    (stands : Stands gate flight place)
    (working : flight.worker = .working entry (.call op next))
    (other : op ≠ .enterTransferGate)
    (reply : op.Reply) :
    Stands gate { flight with worker := .working entry (next reply) }
      place := by
  rcases stands.working working with ⟨outside, gated⟩ | ⟨_, _, _, _, call⟩ |
    ⟨ticket, rfl, gated⟩
  · have after := gated.2 reply
    rw [admits_of_ne other] at after
    rcases outside with rfl | rfl
    · rintro own rest ⟨⟩
      exact after
    · rintro own rest ⟨⟩
      exact after
  · cases call
    exact absurd rfl other
  · exact ⟨Or.inl ⟨entry, next reply, rfl, gated.2 reply⟩, stands.2⟩

theorem Sound.call
    {entry : Nat}
    {flight : Flight}
    {op : PullThrough.Op}
    {next : op.Reply →
      Program PullThrough.interface (Except PullThroughError Landing)}
    {reply : op.Reply}
    {token : Cancellation}
    (sound : Sound limit s)
    (found : s.acquisitions.flight number = some flight)
    (working : flight.worker = .working entry (.call op next))
    (other : op ≠ .enterTransferGate)
    (answers : Answers op (s.acquisitions.token entry) reply token) :
    Sound limit ((s.follow (((s.acquisitions.setToken entry token).advance
      number flight (.working entry (next reply))).record number op)).announce
        entry op) := by
  have stands := sound.stands number flight found
  suffices moves : Moves limit s _ number entry flight
      (.working entry (next reply)) from moves.sound sound
  refine .of_advances sound ?_ ?_ ?_ ?_ ?_ ?_ ?_ ?_ ?_
  · rw [acquisitions_announce]
    exact .call sound.acquisitions found working answers
  · rw [gate_announce]
    rfl
  · intro other _
    rw [place_announce]
    rfl
  · rw [place_announce]
    exact fun _ => id
  · rw [place_announce]
    exact stands.call working other reply
  · intro other different
    exact live_announce_of_ne different
  · intro shows
    rw [place_announce]
    rcases live_announce shows with before | ⟨request, rfl⟩
    · exact sound.live number flight entry found (by rw [working]; rfl) before
    · rcases stands.working working with ⟨_, gated⟩ | ⟨_, _, gated, _⟩ |
        ⟨ticket, place, _⟩
      · cases gated.1
      · cases gated.1
      · rw [show (s.follow _).place number = _ from place]
        trivial
  · rw [view_announce]
    rfl
  · left
    rw [acquisitions_announce, working]
    exact ⟨Acquisitions.registry_record, id⟩

/-- A thread that goes on without its acquisition. -/
theorem Moves.alone
    {entry : Nat}
    {flight : Flight}
    (sound : Sound limit s)
    (acquisitions : t.acquisitions = s.acquisitions)
    (found : s.acquisitions.flight number = some flight)
    (own : flight.worker.entry? = some entry)
    (gate : GateSystem.Invariant limit t.gate)
    (issued : s.gate.gate.nextTicket ≤ t.gate.gate.nextTicket)
    (calls : ∀ ticket, ticket < s.gate.gate.nextTicket →
      (s.place number).ticket? ≠ some ticket →
      t.gate.calls ticket = s.gate.calls ticket)
    (places : ∀ other, other ≠ number → t.place other = s.place other)
    (ticket : ∀ ticket, (t.place number).ticket? = some ticket →
      (s.place number).ticket? = some ticket ∨
        s.gate.gate.nextTicket ≤ ticket ∧ ticket < t.gate.gate.nextTicket)
    (stands : Stands t.gate flight (t.place number))
    (live : ∀ other, other ≠ entry → t.live other = s.live other)
    (passed : t.live entry = .transferring → (t.place number).Passed)
    (view : t.view = s.view) :
    Moves limit s t number entry flight flight.worker := by
  refine ⟨?_, found, own, own, ?_, ?_, gate, issued, calls, places, ticket,
    stands, live, passed, view, Or.inl ⟨?_, id⟩⟩
  · rw [acquisitions]
    exact sound.acquisitions
  · rw [acquisitions]
    exact (Function.update_eq_self_iff.mpr found.symm).symm
  · rw [acquisitions]
  · rw [acquisitions]

theorem Sound.announce
    {entry : Nat}
    {flight : Flight}
    {rest : Program PullThrough.interface (Except PullThroughError Landing)}
    (sound : Sound limit s)
    (found : s.acquisitions.flight number = some flight)
    (working : flight.worker = .working entry rest)
    (place : s.place number = .outside) :
    Sound limit ((s.setState entry .waiting).setPlace number .announced) := by
  have stands := sound.stands number flight found
  have here : ((s.setState entry .waiting).setPlace number .announced).place
      number = .announced := Function.update_self ..
  suffices moves : Moves limit s _ number entry flight flight.worker from
    moves.sound sound
  refine .alone sound rfl found (by rw [working]; rfl) sound.gate le_rfl
    (fun _ _ _ => rfl) (fun other different => Function.update_of_ne different
    ..) ?_ ?_ (fun other different => Function.update_of_ne different ..) ?_
    rfl
  · rw [here]
    rintro ticket ⟨⟩
  · rw [here]
    rw [place] at stands
    exact stands
  · intro shows
    rw [show ((s.setState entry .waiting).setPlace number .announced).live
      entry = .waiting from Function.update_self ..] at shows
    cases shows

theorem Sound.enter
    {entry : Nat}
    {flight : Flight}
    {next : Op.enterTransferGate.Reply →
      Program PullThrough.interface (Except PullThroughError Landing)}
    (sound : Sound limit s)
    (found : s.acquisitions.flight number = some flight)
    (working : flight.worker =
      .working entry (.call .enterTransferGate next))
    (place : s.place number = .announced) :
    Sound limit ((s.setGate (s.gate.enter limit flight.request.slot
      entry)).setPlace number (.queued s.gate.gate.nextTicket)) := by
  have stands := sound.stands number flight found
  rw [place] at stands
  have here : ((s.setGate (s.gate.enter limit flight.request.slot
      entry)).setPlace number (.queued s.gate.gate.nextTicket)).place
        number = .queued s.gate.gate.nextTicket := Function.update_self ..
  obtain ⟨call, calls, returned⟩ := GateSystem.calls_enter limit s.gate
    flight.request.slot entry
  have entered : (s.gate.enter limit flight.request.slot entry).gate.nextTicket
      = s.gate.gate.nextTicket + 1 := GateSystem.nextTicket_enter
  suffices moves : Moves limit s _ number entry flight flight.worker from
    moves.sound sound
  refine .alone sound rfl found (by rw [working]; rfl)
    ((GateSystem.Step.enter s.gate _ entry).invariant sound.gate)
    (entered ▸ Nat.le_succ _) ?_
    (fun other different => Function.update_of_ne different ..) ?_ ?_
    (fun _ _ => rfl) ?_ rfl
  · intro ticket issued _
    exact (congrFun calls ticket).trans
      (Function.update_of_ne (Nat.ne_of_lt issued) ..)
  · rw [here]
    rintro ticket ⟨⟩
    exact Or.inr ⟨le_rfl, (Nat.lt_succ_self _).trans_eq entered.symm⟩
  · rw [here]
    refine ⟨⟨entry, _, working, stands entry _ working, next, rfl⟩, ?_⟩
    have called : (s.gate.enter limit flight.request.slot entry).calls
        s.gate.gate.nextTicket = call := by
      rw [calls, Function.update_self]
    rcases returned with rfl | rfl | rfl
    · exact Or.inl ⟨entry, called⟩
    · exact Or.inr (Or.inl ⟨false, called⟩)
    · exact Or.inr (Or.inr called)
  · intro shows
    have before := sound.live number flight entry found (by rw [working]; rfl)
      shows
    rw [place] at before
    exact before.elim

theorem Sound.wake
    {ticket entry : Nat}
    {repository : RepositoryKey}
    (sound : Sound limit s)
    (parked : s.gate.calls ticket = .parked repository entry) :
    Sound limit (s.setGate (s.gate.pass limit ticket repository entry
      true)) := by
  obtain ⟨call, calls, returned⟩ := GateSystem.calls_pass limit s.gate ticket
    repository entry true
  refine sound.aside sound.acquisitions rfl rfl rfl
    ((GateSystem.Step.wake s.gate ticket repository entry parked).invariant
      sound.gate) (GateSystem.nextTicket_pass true) ?_ rfl rfl sound.view
  intro number flight found
  have stands := sound.stands number flight found
  by_cases mine : (s.place number).ticket? = some ticket
  · cases place : s.place number with
    | queued own =>
        rw [place] at mine stands
        cases mine
        refine ⟨stands.1, ?_⟩
        have called : (s.gate.pass limit ticket repository entry true).calls
            ticket = call := by
          rw [calls, Function.update_self]
        have same : repository = flight.request.slot := by
          rcases stands.2 with ⟨other, was⟩ | ⟨waited, was⟩ | was
          all_goals
            cases parked.symm.trans was
          rfl
        subst same
        rcases returned with rfl | rfl | rfl
        · exact Or.inl ⟨entry, called.trans parked⟩
        · exact Or.inr (Or.inl ⟨true, called⟩)
        · exact Or.inr (Or.inr called)
    | holding own =>
        rw [place] at mine stands
        cases mine
        obtain ⟨_, waited, was⟩ := stands
        cases parked.symm.trans was
    | outside =>
        rw [place] at mine
        cases mine
    | announced =>
        rw [place] at mine
        cases mine
    | released =>
        rw [place] at mine
        cases mine
  · refine stands.frame fun other holds => (congrFun calls other).trans ?_
    refine Function.update_of_ne ?_ ..
    rintro rfl
    exact mine holds

/-- What the gate answers is a call like any other. -/
theorem answered_eq_advance
    {acquisitions : Acquisitions}
    {entry : Nat}
    {flight : Flight}
    {worker : Worker} :
    ((acquisitions.setToken entry (acquisitions.token entry)).advance number
        flight worker).record number .enterTransferGate =
      acquisitions.advance number flight worker := by
  have harmless : ¬Op.enterTransferGate.Writes := id
  unfold Acquisitions.setToken
  rw [Function.update_eq_self, Acquisitions.record, if_neg harmless]

theorem advances_of_answered
    {entry : Nat}
    {flight : Flight}
    {next : Op.enterTransferGate.Reply →
      Program PullThrough.interface (Except PullThroughError Landing)}
    (sound : Sound limit s)
    (found : s.acquisitions.flight number = some flight)
    (working : flight.worker =
      .working entry (.call .enterTransferGate next))
    (answer : Op.enterTransferGate.Reply) :
    s.acquisitions.Advances
      (s.acquisitions.advance number flight (.working entry (next answer)))
      number entry flight (.working entry (next answer)) := by
  rw [← answered_eq_advance]
  exact .call sound.acquisitions found working rfl

theorem Sound.allow
    {entry ticket : Nat}
    {flight : Flight}
    {next : Op.enterTransferGate.Reply →
      Program PullThrough.interface (Except PullThroughError Landing)}
    {repository : RepositoryKey}
    {waited : Bool}
    (sound : Sound limit s)
    (found : s.acquisitions.flight number = some flight)
    (working : flight.worker =
      .working entry (.call .enterTransferGate next))
    (place : s.place number = .queued ticket)
    (granted : s.gate.calls ticket = .holding repository waited) :
    Sound limit (((s.follow (s.acquisitions.advance number flight
      (.working entry (next (.ok waited))))).setState entry
        .transferring).setPlace number (.holding ticket)) := by
  have stands := sound.stands number flight found
  rw [place] at stands
  have here : (((s.follow (s.acquisitions.advance number flight
      (.working entry (next (.ok waited))))).setState entry
        .transferring).setPlace number (.holding ticket)).place number =
          .holding ticket := Function.update_self ..
  obtain ⟨⟨own, rest, doing, gated, _⟩, call⟩ := stands
  cases working.symm.trans doing
  have permit : ∃ waited, s.gate.calls ticket =
      .holding flight.request.slot waited := by
    rcases call with ⟨other, was⟩ | held | was
    · cases granted.symm.trans was
    · exact held
    · cases granted.symm.trans was
  suffices moves : Moves limit s _ number entry flight
      (.working entry (next (.ok waited))) from moves.sound sound
  refine .of_advances sound (advances_of_answered sound found working _) rfl
    (fun other different => Function.update_of_ne different ..) ?_ ?_
    (fun other different => Function.update_of_ne different ..) ?_ rfl
    (Or.inl ⟨rfl, fun _ => trivial⟩)
  · rw [here, place]
    exact fun _ => id
  · rw [here]
    exact ⟨Or.inl ⟨entry, _, rfl, gated.2 (.ok waited)⟩, permit⟩
  · rw [here]
    exact fun _ => trivial

theorem Sound.refuse
    {entry ticket : Nat}
    {flight : Flight}
    {next : Op.enterTransferGate.Reply →
      Program PullThrough.interface (Except PullThroughError Landing)}
    (sound : Sound limit s)
    (found : s.acquisitions.flight number = some flight)
    (working : flight.worker =
      .working entry (.call .enterTransferGate next))
    (place : s.place number = .queued ticket) :
    Sound limit ((s.follow (s.acquisitions.advance number flight
      (.working entry (next (.error .cancelled))))).setPlace number
        .outside) := by
  have stands := sound.stands number flight found
  rw [place] at stands
  have here : ((s.follow (s.acquisitions.advance number flight
      (.working entry (next (.error .cancelled))))).setPlace number
        .outside).place number = .outside := Function.update_self ..
  obtain ⟨⟨own, rest, doing, gated, _⟩, _⟩ := stands
  cases working.symm.trans doing
  suffices moves : Moves limit s _ number entry flight
      (.working entry (next (.error .cancelled))) from moves.sound sound
  refine .of_advances sound (advances_of_answered sound found working _) rfl
    (fun other different => Function.update_of_ne different ..) ?_ ?_
    (fun _ _ => rfl) ?_ rfl (Or.inl ⟨rfl, fun _ => trivial⟩)
  · rw [here]
    rintro ticket ⟨⟩
  · rw [here]
    rintro entry rest ⟨⟩
    exact gated.2 (.error .cancelled)
  · intro shows
    have before := sound.live number flight entry found (by rw [working]; rfl)
      shows
    rw [place] at before
    exact before.elim

/-- The body of a thread that is not within `acquire` has come to its end. -/
theorem Sound.ends
    {entry : Nat}
    {flight : Flight}
    {rest : Program PullThrough.interface (Except PullThroughError Landing)}
    {ending : Ending Landing PullThroughError}
    (sound : Sound limit s)
    (found : s.acquisitions.flight number = some flight)
    (working : flight.worker = .working entry rest)
    (free : ∀ ticket, s.place number ≠ .queued ticket) :
    Sound limit (s.follow (s.acquisitions.advance number flight
      (.ended entry ending))) := by
  have stands := sound.stands number flight found
  suffices moves : Moves limit s _ number entry flight (.ended entry ending)
    from moves.sound sound
  refine .of_advances sound (.quiet found (by rw [working]; rfl) rfl trivial
    rfl rfl (fun _ => id) rfl rfl rfl) rfl (fun _ _ => rfl) (fun _ => id) ?_
    (fun _ _ => rfl) ?_ rfl (Or.inl ⟨rfl, fun _ => trivial⟩)
  · change Stands _ _ (s.place number)
    rcases stands.working working with ⟨same | same, _⟩ | ⟨ticket, same, _⟩ |
      ⟨ticket, same, _⟩
    · rw [same]
      rintro own rest ⟨⟩
    · rw [same]
      rintro own rest ⟨⟩
    · exact absurd same (free ticket)
    · rw [same] at stands ⊢
      exact ⟨Or.inr ⟨entry, ending, rfl⟩, stands.2⟩
  · exact sound.live number flight entry found (by rw [working]; rfl)

theorem Sound.release
    {entry ticket : Nat}
    {flight : Flight}
    {ending : Ending Landing PullThroughError}
    {repository : RepositoryKey}
    {waited : Bool}
    (sound : Sound limit s)
    (found : s.acquisitions.flight number = some flight)
    (ceased : flight.worker = .ended entry ending)
    (place : s.place number = .holding ticket)
    (held : s.gate.calls ticket = .holding repository waited) :
    Sound limit ((s.setGate ((s.gate.release ticket repository).promote
      limit)).setPlace number .released) := by
  have here : ((s.setGate ((s.gate.release ticket repository).promote
      limit)).setPlace number .released).place number = .released :=
    Function.update_self ..
  suffices moves : Moves limit s _ number entry flight flight.worker from
    moves.sound sound
  refine .alone sound rfl found (by rw [ceased]; rfl)
    ((GateSystem.Step.drop s.gate ticket repository waited held).invariant
      sound.gate)
    (GateSystem.nextTicket_promote limit
      (s.gate.release ticket repository)).ge ?_
    (fun other different => Function.update_of_ne different ..) ?_ ?_
    (fun _ _ => rfl) ?_ rfl
  · intro other _ mine
    refine Function.update_of_ne ?_ ..
    rintro rfl
    rw [place] at mine
    exact mine rfl
  · rw [here]
    rintro ticket ⟨⟩
  · rw [here, Stands, ceased]
    trivial
  · rw [here]
    exact fun _ => trivial

theorem Sound.drop
    {entry : Nat}
    {flight : Flight}
    {ending : Ending Landing PullThroughError}
    (sound : Sound limit s)
    (found : s.acquisitions.flight number = some flight)
    (ceased : flight.worker = .ended entry ending)
    (released : ∀ ticket, s.place number ≠ .holding ticket)
    (free : s.view = none) :
    Sound limit (s.follow ((s.acquisitions.deregister entry).advance number
      flight (.dropped entry ending))) := by
  have stands := sound.stands number flight found
  suffices moves : Moves limit s _ number entry flight (.dropped entry ending)
    from moves.sound sound
  refine .of_advances sound (.quiet found (by rw [ceased]; rfl) rfl trivial rfl
    rfl (fun _ => List.mem_of_mem_filter) rfl rfl rfl) rfl (fun _ _ => rfl)
    (fun _ => id) ?_ (fun _ _ => rfl) ?_ rfl (Or.inr ⟨free, rfl⟩)
  · change Stands _ _ (s.place number)
    cases place : s.place number with
    | outside => rintro own rest ⟨⟩
    | announced => rintro own rest ⟨⟩
    | queued ticket =>
        rw [place] at stands
        obtain ⟨⟨own, rest, working, _⟩, _⟩ := stands
        cases ceased.symm.trans working
    | holding ticket => exact absurd place (released ticket)
    | released => trivial
  · exact sound.live number flight entry found (by rw [ceased]; rfl)

theorem Sound.land
    {entry : Nat}
    {flight : Flight}
    {ending : Ending Landing PullThroughError}
    (sound : Sound limit s)
    (found : s.acquisitions.flight number = some flight)
    (dropped : flight.worker = .dropped entry ending) :
    Sound limit (s.follow ((s.acquisitions.retire flight.request.key).advance
      number flight (.ceased entry ending))) := by
  have stands := sound.stands number flight found
  suffices moves : Moves limit s _ number entry flight (.ceased entry ending)
    from moves.sound sound
  refine .of_advances sound (.quiet found (by rw [dropped]; rfl) rfl trivial
    rfl rfl (fun _ => id) rfl rfl rfl) rfl (fun _ _ => rfl) (fun _ => id) ?_
    (fun _ _ => rfl) ?_ rfl (Or.inl ⟨rfl, ?_⟩)
  · change Stands _ _ (s.place number)
    cases place : s.place number with
    | outside => rintro own rest ⟨⟩
    | announced => rintro own rest ⟨⟩
    | queued ticket =>
        rw [place] at stands
        obtain ⟨⟨own, rest, working, _⟩, _⟩ := stands
        cases dropped.symm.trans working
    | holding ticket =>
        rw [place] at stands
        rcases stands.1 with ⟨own, rest, working, _⟩ | ⟨own, ending, ceased⟩
        · cases dropped.symm.trans working
        · cases dropped.symm.trans ceased
    | released => trivial
  · exact sound.live number flight entry found (by rw [dropped]; rfl)
  · rw [dropped]
    exact False.elim

theorem Step.sound
    {moment : Moment}
    (sound : Sound limit s)
    (step : Step limit moment s t) :
    Sound limit t := by
  cases step with
  | join _ request => exact sound.join request
  | register _ number flight found starting free =>
      exact sound.register found starting free
  | call _ number entry flight op next reply token found working other
      answers =>
      exact sound.call found working other answers
  | announce _ number entry flight next found working place =>
      exact sound.announce found working place
  | enter _ number entry flight next found working place =>
      exact sound.enter found working place
  | wake _ ticket repository entry parked => exact sound.wake parked
  | allow _ number entry ticket flight next repository waited found working
      place granted =>
      exact sound.allow found working place granted
  | refuse _ number entry ticket flight next found working place refused =>
      exact sound.refuse found working place
  | finish _ number entry flight result found working =>
      refine sound.ends found working fun ticket place => ?_
      have stands := sound.stands number flight found
      rw [place] at stands
      obtain ⟨⟨own, rest, doing, _, next, rfl⟩, _⟩ := stands
      cases working.symm.trans doing
  | panic _ number entry flight rest found working free =>
      exact sound.ends found working free
  | release _ number entry ticket flight ending repository waited found ceased
      place held =>
      exact sound.release found ceased place held
  | drop _ number entry flight ending found ceased released free =>
      exact sound.drop found ceased released free
  | land _ number entry flight ending found dropped =>
      exact sound.land found dropped
  | cancel _ entry issued =>
      exact sound.aside ((Acquisitions.Step.cancel _ entry issued).does
        sound.acquisitions |>.sound sound.acquisitions) rfl rfl rfl
        (sound.gate.tokens _) rfl (fun number flight found => (sound.stands
          number flight found).frame fun _ _ => rfl) rfl rfl sound.view
  | look _ free =>
      refine sound.aside sound.acquisitions rfl rfl rfl sound.gate rfl
        sound.stands rfl rfl ?_
      rintro view ⟨⟩
      rfl
  | read _ items entry target remaining looking =>
      refine sound.aside sound.acquisitions rfl rfl rfl sound.gate rfl
        sound.stands rfl rfl ?_
      rintro view ⟨⟩
      rw [sound.view _ looking]
      simp
  | answer _ items looking =>
      refine sound.aside sound.acquisitions rfl rfl rfl sound.gate rfl
        sound.stands rfl rfl ?_
      rintro view ⟨⟩

/-! ## What a view shows -/

/-- Every step is one of the acquisitions, or leaves them. -/
theorem Step.acquisitions
    {moment : Moment}
    (sound : Sound limit s)
    (step : Step limit moment s t) :
    s.acquisitions.Does t.acquisitions := by
  cases step with
  | join _ request =>
      exact (Acquisitions.Step.join _ request).does sound.acquisitions
  | register _ number flight found starting free =>
      exact (Acquisitions.Step.register _ number flight found starting).does
        sound.acquisitions
  | call _ number entry flight op next reply token found working other
      answers =>
      rw [acquisitions_announce]
      exact (Acquisitions.Step.call _ number entry flight op next reply token
        found working answers).does sound.acquisitions
  | announce _ number entry flight next found working place =>
      exact .none rfl
  | enter _ number entry flight next found working place => exact .none rfl
  | wake _ ticket repository entry parked => exact .none rfl
  | allow _ number entry ticket flight next repository waited found working
      place granted =>
      exact .advanced number entry flight _
        (advances_of_answered sound found working _)
  | refuse _ number entry ticket flight next found working place refused =>
      exact .advanced number entry flight _
        (advances_of_answered sound found working _)
  | finish _ number entry flight result found working =>
      exact (Acquisitions.Step.finish _ number entry flight result found
        working).does sound.acquisitions
  | panic _ number entry flight rest found working free =>
      exact (Acquisitions.Step.panic _ number entry flight rest found
        working).does sound.acquisitions
  | release _ number entry ticket flight ending repository waited found ceased
      place held =>
      exact .none rfl
  | drop _ number entry flight ending found ceased released free =>
      exact (Acquisitions.Step.drop _ number entry flight ending found
        ceased).does sound.acquisitions
  | land _ number entry flight ending found dropped =>
      exact (Acquisitions.Step.land _ number entry flight ending found
        dropped).does sound.acquisitions
  | cancel _ entry issued =>
      exact (Acquisitions.Step.cancel _ entry issued).does sound.acquisitions
  | _ => exact .none rfl

/-- A slot that is not given back is held on. -/
theorem Holds.frame
    {entry : Nat}
    (sound : Sound limit s)
    (does : s.acquisitions.Does t.acquisitions)
    (places : ∀ number flight ticket,
      s.acquisitions.flight number = some flight →
      flight.worker.entry? = some entry →
      s.place number = .holding ticket → t.place number = .holding ticket)
    (holds : s.Holds entry) :
    t.Holds entry := by
  obtain ⟨number, flight, ticket, found, own, place⟩ := holds
  obtain ⟨later, present, _, _, kept⟩ := does.flight sound.acquisitions found
  exact ⟨number, later, ticket, present, kept entry own,
    places number flight ticket found own place⟩

theorem holding_setPlace
    {other ticket : Nat}
    {place : Place}
    (free : ∀ ticket, s.place number ≠ .holding ticket)
    (holding : s.place other = .holding ticket) :
    (s.setPlace number place).place other = .holding ticket := by
  refine (Function.update_of_ne ?_ ..).trans holding
  rintro rfl
  exact free ticket holding

/-- A slot is given back by the release of its thread only. -/
theorem Step.holds
    {moment : Moment}
    {entry : Nat}
    (sound : Sound limit s)
    (step : Step limit moment s t)
    (kept : ∀ number flight, moment = .release number →
      s.acquisitions.flight number = some flight →
      flight.worker.entry? ≠ some entry)
    (holds : s.Holds entry) :
    t.Holds entry := by
  refine holds.frame sound (step.acquisitions sound) ?_
  intro holder own ticket present made holding
  cases step with
  | call _ number entry flight op next reply token found working other
      answers =>
      rw [place_announce]
      exact holding
  | announce _ number entry flight next found working place =>
      exact holding_setPlace (s := s.setState entry .waiting)
        (fun ticket same => nomatch place.symm.trans same) holding
  | enter _ number entry flight next found working place =>
      exact holding_setPlace (s := s.setGate _)
        (fun ticket same => nomatch place.symm.trans same) holding
  | allow _ number entry queued flight next repository waited found working
      place granted =>
      exact holding_setPlace (s := (s.follow _).setState entry .transferring)
        (fun ticket same => nomatch place.symm.trans same) holding
  | refuse _ number entry queued flight next found working place refused =>
      exact holding_setPlace (s := s.follow _)
        (fun ticket same => nomatch place.symm.trans same) holding
  | release _ number own queued flight ending repository waited found ceased
      place held =>
      refine (Function.update_of_ne ?_ ..).trans holding
      rintro rfl
      exact kept holder _ rfl present made
  | _ => exact holding

/-- What a view has read is registered. -/
theorem Sound.item
    {view : View}
    {item : Item}
    (sound : Sound limit s)
    (looking : s.view = some view)
    (member : item ∈ view.items) :
    (item.entry, item.target) ∈ s.acquisitions.registry := by
  rw [sound.view view looking]
  exact List.mem_append_left _ (List.mem_map_of_mem member)

/-- Whoever is listed has not answered. -/
theorem Sound.unanswered
    {pair : Nat × Target}
    {flight : Flight}
    {entry : Nat}
    {ending : Ending Landing PullThroughError}
    (sound : Sound limit s)
    (listed : pair ∈ s.acquisitions.registry)
    (found : s.acquisitions.flight number = some flight)
    (ceased : flight.worker = .ceased entry ending) :
    pair.1 ≠ entry := by
  rintro rfl
  obtain ⟨other, later, present, made, _, stays⟩ := sound.listed pair listed
  have same := sound.acquisitions.distinct other number later flight pair.1
    present found made (by rw [ceased]; rfl)
  subst same
  cases found.symm.trans present
  rw [ceased] at stays
  exact stays

/-- An acquisition that has its slot is on the books of the gate. -/
theorem Sound.booked
    {entry : Nat}
    {target : Target}
    (sound : Sound limit s)
    (listed : (entry, target) ∈ s.acquisitions.registry)
    (holds : s.Holds entry) :
    ∃ number ticket, s.place number = .holding ticket ∧
      s.gate.Occupies ticket target.slot ∧
      ∃ flight, s.acquisitions.flight number = some flight ∧
        flight.worker.entry? = some entry := by
  obtain ⟨number, flight, ticket, found, own, place⟩ := holds
  obtain ⟨other, later, present, made, same, _⟩ :=
    sound.listed (entry, target) listed
  cases sound.acquisitions.distinct other number later flight entry present
    found made own
  cases found.symm.trans present
  refine ⟨number, ticket, place, Or.inr ?_, flight, found, own⟩
  have stands := sound.stands number flight found
  rw [place] at stands
  obtain ⟨_, waited, held⟩ := stands
  rw [held]
  exact congrArg (fun target => some (Target.slot target)) same

theorem mem_transferring
    {view : View}
    {item : Item} :
    item ∈ view.transferring ↔
      item ∈ view.items ∧ item.state = .transferring := by
  unfold View.transferring
  rw [List.mem_filter, decide_eq_true_iff]

/-- A view reads true what its entry says of a slot that is still held. -/
theorem truthful_read
    {items : List Item}
    {entry : Nat}
    {target : Target}
    {remaining : List (Nat × Target)}
    (sound : Sound limit s)
    (truthful : s.Truthful)
    (looking : s.view = some ⟨items, (entry, target) :: remaining⟩) :
    ({ s with
        view := some ⟨items ++ [⟨entry, target, s.live entry⟩], remaining⟩ } :
      Board).Truthful ↔ s.Careful (.read entry) := by
  have listed : (entry, target) ∈ s.acquisitions.registry := by
    rw [sound.view _ looking]
    exact List.mem_append_right _ List.mem_cons_self
  constructor
  · intro holds shows number flight found own released
    obtain ⟨holder, later, ticket, present, made, place⟩ := holds _ rfl
      ⟨entry, target, s.live entry⟩
      (mem_transferring.mpr ⟨List.mem_append_right _ List.mem_cons_self,
        shows⟩)
    have same := sound.acquisitions.distinct holder number later flight entry
      present found made own
    subst same
    cases released.symm.trans place
  · intro careful view looked item member
    cases looked
    obtain ⟨read, shows⟩ := mem_transferring.mp member
    rcases List.mem_append.mp read with before | new
    · exact truthful _ looking item (mem_transferring.mpr ⟨before, shows⟩)
    · cases List.mem_singleton.mp new
      obtain ⟨number, flight, found, own, _, _⟩ :=
        sound.listed (entry, target) listed
      have passed := sound.live number flight entry found own shows
      cases place : s.place number with
      | holding ticket => exact ⟨number, flight, ticket, found, own, place⟩
      | released => exact absurd place (careful shows number flight found own)
      | _ =>
          rw [place] at passed
          exact passed.elim

/-- A step keeps a view true if and only if it meets the condition. -/
theorem Step.truthful
    {moment : Moment}
    (sound : Sound limit s)
    (truthful : s.Truthful)
    (step : Step limit moment s t) :
    t.Truthful ↔ s.Careful moment := by
  -- what has been read stays true while nothing is given back
  have keeps : moment = .other → ∀ view, s.view = some view →
      ∀ item ∈ view.transferring, t.Holds item.entry := by
    rintro rfl view looking item member
    exact step.holds sound (fun _ _ release => nomatch release)
      (truthful view looking item member)
  cases step with
  | read _ items entry target remaining looking =>
      exact truthful_read sound truthful looking
  | release _ number entry ticket flight ending repository waited found ceased
      place held =>
      have step : Step limit (.release number) s _ :=
        .release s number entry ticket flight ending repository waited found
          ceased place held
      constructor
      · intro after view own looking present item member made
        obtain ⟨holder, later, slot, there, owns, holding⟩ :=
          after view looking item member
        have same := sound.acquisitions.distinct holder number later own
          item.entry there present owns made
        subst same
        rw [show (setPlace _ holder .released).place holder = .released from
          Function.update_self ..] at holding
        cases holding
      · intro careful view looking item member
        refine step.holds sound ?_ (truthful view looking item member)
        rintro other own ⟨⟩ present
        exact careful view own looking present item member
  | look _ free =>
      refine iff_of_true ?_ trivial
      rintro view ⟨⟩ item member
      cases (mem_transferring.mp member).1
  | answer _ items looking =>
      refine iff_of_true ?_ trivial
      rintro view ⟨⟩
  | call _ number entry flight op next reply token found working other
      answers =>
      refine iff_of_true ?_ trivial
      intro view looking
      rw [view_announce] at looking
      exact keeps rfl view looking
  | _ => exact iff_of_true (keeps rfl) trivial

/-- What a view shows in a state in which it is true. -/
structure Shows (limit : Nat) (s : Board) : Prop where
  truthful : s.Truthful
  /-- The slots are on the books of the gate. -/
  booked : ∀ view, s.view = some view → ∀ item ∈ view.transferring,
    item.target.slot ∈ s.gate.gate.transferring
  bounded : ∀ view, s.view = some view → view.transferring.length ≤ limit
  apart : ∀ view, s.view = some view →
    (view.transferring.map fun item => item.target.slot).Nodup
  /-- The next step keeps the view true if and only if it meets the
  condition. -/
  exactly : ∀ moment t, Step limit moment s t → (t.Truthful ↔ s.Careful moment)

theorem Sound.shows
    (sound : Sound limit s)
    (truthful : s.Truthful) :
    Shows limit s := by
  have booked : ∀ view, s.view = some view → ∀ item ∈ view.transferring,
      item.target.slot ∈ s.gate.gate.transferring := by
    intro view looking item member
    have listed := sound.item looking (mem_transferring.mp member).1
    obtain ⟨_, ticket, _, occupies, _⟩ :=
      sound.booked listed (truthful view looking item member)
    exact sound.gate.consistent.occupied ticket _ occupies
  have apart : ∀ view, s.view = some view →
      (view.transferring.map fun item => item.target.slot).Nodup := by
    intro view looking
    have entries : (view.items.map Item.entry).Nodup := by
      have distinct := sound.distinct
      rw [sound.view view looking, List.map_append] at distinct
      have before := (List.nodup_append.mp distinct).1
      rwa [List.map_map] at before
    have transferring : (view.transferring.map Item.entry).Nodup :=
      entries.sublist (List.filter_sublist.map _)
    refine List.Nodup.map_on ?_ transferring.of_map
    intro one member two memberTwo same
    obtain ⟨number, ticket, place, occupies, flight, found, own⟩ :=
      sound.booked (sound.item looking (mem_transferring.mp member).1)
        (truthful view looking one member)
    obtain ⟨other, ticketTwo, placeTwo, occupiesTwo, later, foundTwo, ownTwo⟩ :=
      sound.booked (sound.item looking (mem_transferring.mp memberTwo).1)
        (truthful view looking two memberTwo)
    -- one slot has one ticket, and a ticket one thread
    rw [← same] at occupiesTwo
    have tickets := sound.gate.consistent.exclusive ticket ticketTwo _ occupies
      occupiesTwo
    subst tickets
    have numbers := sound.apart number other ticket (by rw [place]; rfl)
      (by rw [placeTwo]; rfl)
    subst numbers
    cases found.symm.trans foundTwo
    exact List.inj_on_of_nodup_map transferring member memberTwo
      (Option.some.inj (own.symm.trans ownTwo))
  refine ⟨truthful, booked, ?_, apart, fun moment t step =>
    step.truthful sound truthful⟩
  intro view looking
  have within : (view.transferring.map fun item => item.target.slot).toFinset ⊆
      s.gate.gate.transferring := by
    intro slot member
    obtain ⟨item, transferring, rfl⟩ :=
      List.mem_map.mp (List.mem_toFinset.mp member)
    exact booked view looking item transferring
  calc view.transferring.length
      = (view.transferring.map fun item => item.target.slot).toFinset.card := by
        rw [List.toFinset_card_of_nodup (apart view looking), List.length_map]
    _ ≤ s.gate.gate.transferring.card := Finset.card_le_card within
    _ ≤ limit := sound.gate.consistent.bounded

end sound

/-! ## Runs -/

section runs

variable {limit : Nat} {s : Board}

/-- Any step. -/
def AnyStep (limit : Nat) (s t : Board) : Prop :=
  ∃ moment, Step limit moment s t

/-- A step that meets the condition. -/
def CarefulStep (limit : Nat) (s t : Board) : Prop :=
  ∃ moment, s.Careful moment ∧ Step limit moment s t

theorem CarefulStep.any
    {t : Board}
    (step : CarefulStep limit s t) :
    AnyStep limit s t := by
  obtain ⟨moment, _, step⟩ := step
  exact ⟨moment, step⟩

theorem new_sound (limit : Nat) : Sound limit new := by
  refine ⟨Acquisitions.new_sound, GateSystem.initial_invariant limit,
    fun _ _ => rfl, ?_, ?_, ?_, ?_, ?_, List.nodup_nil, ?_⟩
  · rintro number flight ⟨⟩
  · rintro number ticket ⟨⟩
  · rintro number other ticket ⟨⟩
  · rintro number flight entry ⟨⟩
  · rintro pair ⟨⟩
  · rintro view ⟨⟩

theorem sound_of_run
    (run : Relation.ReflTransGen (AnyStep limit) new s) :
    Sound limit s := by
  induction run with
  | refl => exact new_sound limit
  | tail _ step inductionHypothesis =>
      obtain ⟨moment, step⟩ := step
      exact step.sound inductionHypothesis

theorem truthful_of_careful
    (run : Relation.ReflTransGen (CarefulStep limit) new s) :
    Sound limit s ∧ s.Truthful := by
  induction run with
  | refl => exact ⟨new_sound limit, by rintro view ⟨⟩⟩
  | tail _ step inductionHypothesis =>
      obtain ⟨moment, careful, step⟩ := step
      obtain ⟨sound, truthful⟩ := inductionHypothesis
      exact ⟨step.sound sound, (step.truthful sound truthful).mpr careful⟩

/-- Nothing that has answered its callers is listed, in any run.  As long as no
view reads an acquisition as transferring that has given its slot back, or
gives it back under the eyes of the view, what the view reports as transferring
has its slot, and it does so as long as that. -/
theorem shows_of_careful (limit : Nat) :
    (∀ s, Relation.ReflTransGen (AnyStep (GateSystem.effectiveLimit limit))
        new s → ∀ view, s.view = some view → ∀ item ∈ view.items,
        ∀ number flight entry ending,
        s.acquisitions.flight number = some flight →
        flight.worker = .ceased entry ending → item.entry ≠ entry) ∧
      ∀ s, Relation.ReflTransGen
        (CarefulStep (GateSystem.effectiveLimit limit)) new s →
        Shows (GateSystem.effectiveLimit limit) s := by
  constructor
  · intro s run view looking item member number flight entry ending found ceased
    have sound := sound_of_run run
    exact sound.unanswered (sound.item looking member) found ceased
  · intro s run
    obtain ⟨sound, truthful⟩ := truthful_of_careful run
    exact sound.shows truthful

end runs

/-! ## A slot that changes hands under the eyes of a view -/

namespace Sample

/-- Two branches of one repository. -/
def request (requestedRevision : String) : Request :=
  .pullThrough ⟨.model, "org/model"⟩ requestedRevision .all false

/-- A flight for each branch. -/
def joined : Board :=
  let first := new.follow (new.acquisitions.join (request "main")).2
  first.follow (first.acquisitions.join (request "dev")).2

theorem steps_joined :
    Relation.ReflTransGen (CarefulStep 1) new joined :=
  .tail (.single ⟨.other, trivial, .join new (request "main")⟩)
    ⟨.other, trivial, .join _ (request "dev")⟩

/-- Both flights are registered. -/
def registered : Board :=
  let first := (joined.follow (joined.acquisitions.register 0
    ⟨request "main", .starting⟩)).setState 0 .resolving
  (first.follow (first.acquisitions.register 1
    ⟨request "dev", .starting⟩)).setState 1 .resolving

theorem steps_registered :
    Relation.ReflTransGen (CarefulStep 1) joined registered :=
  .tail (.single ⟨.other, trivial, .register joined 0 ⟨request "main", .starting⟩ rfl
    rfl rfl⟩) ⟨.other, trivial, .register _ 1 ⟨request "dev", .starting⟩ rfl rfl rfl⟩

/-- A branch once no ref was found for it. -/
def toGate (requestedRevision : String) :
    Program PullThrough.interface (Except PullThroughError Landing) :=
  match (request requestedRevision).body with
  | .call (.resolveRef _ _) next => next (.error (.io .notFound))
  | body => body

/-- Once it has its slot. -/
def toTransfer (requestedRevision : String) (waited : Bool) :
    Program PullThrough.interface (Except PullThroughError Landing) :=
  match toGate requestedRevision with
  | .call .enterTransferGate next => next (.ok waited)
  | body => body

/-- The thread after a call that leaves its token. -/
def called
    (s : Board)
    (number : Nat)
    (flight : Flight)
    (op : PullThrough.Op)
    (rest : Program PullThrough.interface
      (Except PullThroughError Landing)) :
    Board :=
  (s.follow (((s.acquisitions.setToken number
    (s.acquisitions.token number)).advance number flight
      (.working number rest)).record number op)).announce number op

theorem goes_called
    {s : Board}
    {number : Nat}
    {flight : Flight}
    {op : PullThrough.Op}
    {next : op.Reply →
      Program PullThrough.interface (Except PullThroughError Landing)}
    {rest : Program PullThrough.interface (Except PullThroughError Landing)}
    (reply : op.Reply)
    (found : s.acquisitions.flight number = some flight)
    (working : flight.worker = .working number (.call op next))
    (after : next reply = rest)
    (other : op ≠ .enterTransferGate)
    (answers : Answers op (s.acquisitions.token number) reply
      (s.acquisitions.token number)) :
    CarefulStep 1 s (called s number flight op rest) :=
  ⟨.other, trivial, after ▸ .call s number number flight op next reply _ found working
    other answers⟩

/-- No ref is found for a branch. -/
def looks (s : Board) (number : Nat) (requestedRevision : String) : Board :=
  called s number
    ⟨request requestedRevision,
      .working number (request requestedRevision).body⟩
    (.resolveRef ⟨.model, "org/model"⟩ requestedRevision)
    (toGate requestedRevision)

theorem goes_looks
    {s : Board}
    {number : Nat}
    {requestedRevision : String}
    (found : s.acquisitions.flight number = some ⟨request requestedRevision,
      .working number (request requestedRevision).body⟩) :
    CarefulStep 1 s (looks s number requestedRevision) :=
  goes_called (Except.error (.io .notFound)) found rfl rfl (by simp) rfl

/-- Then the branch waits for a slot, and transfers once it has one. -/
theorem toGate_eq (requestedRevision : String) :
    ∃ next, toGate requestedRevision = .call .enterTransferGate next ∧
      ∀ waited, next (.ok waited) = toTransfer requestedRevision waited :=
  ⟨_, rfl, fun _ => rfl⟩

def announced (s : Board) (number : Nat) : Board :=
  (s.setState number .waiting).setPlace number .announced

/-- The thread up to its first wait in `acquire`. -/
def queued (s : Board) (number : Nat) (requestedRevision : String) : Board :=
  ((announced s number).setGate ((announced s number).gate.enter 1
    (request requestedRevision).slot number)).setPlace number
      (.queued (announced s number).gate.gate.nextTicket)

theorem steps_queued
    {s : Board}
    {number : Nat}
    {requestedRevision : String}
    (found : s.acquisitions.flight number = some ⟨request requestedRevision,
      .working number (toGate requestedRevision)⟩)
    (place : s.place number = .outside) :
    Relation.ReflTransGen (CarefulStep 1) s
      (queued s number requestedRevision) := by
  obtain ⟨next, gate, _⟩ := toGate_eq requestedRevision
  rw [gate] at found
  refine .tail (.single ⟨.other, trivial, .announce s number number
    ⟨request requestedRevision, _⟩ next found rfl place⟩) ⟨.other, trivial, .enter
      (announced s number) number number ⟨request requestedRevision, _⟩ next
        found rfl (Function.update_self ..)⟩

/-- The thread with its permit. -/
def admitted
    (s : Board)
    (number : Nat)
    (requestedRevision : String)
    (waited : Bool) :
    Board :=
  ((s.follow (s.acquisitions.advance number
    ⟨request requestedRevision, .working number (toGate requestedRevision)⟩
      (.working number (toTransfer requestedRevision waited)))).setState number
        .transferring).setPlace number (.holding number)

theorem goes_admitted
    {s : Board}
    {number : Nat}
    {requestedRevision : String}
    {waited : Bool}
    (found : s.acquisitions.flight number = some ⟨request requestedRevision,
      .working number (toGate requestedRevision)⟩)
    (place : s.place number = .queued number)
    (granted : s.gate.calls number =
      .holding (.model, "org/model") waited) :
    CarefulStep 1 s (admitted s number requestedRevision waited) := by
  obtain ⟨next, gate, transfer⟩ := toGate_eq requestedRevision
  refine ⟨.other, trivial, ?_⟩
  unfold admitted
  rw [← transfer]
  exact .allow s number number number
    ⟨request requestedRevision, .working number (toGate requestedRevision)⟩
    next _ waited found (congrArg (Worker.working number) gate) place granted

/-- The first branch has the only slot, the second waits for it. -/
def contended : Board :=
  queued (admitted (queued (looks (looks registered 0 "main") 1 "dev") 0
    "main") 0 "main" false) 1 "dev"

theorem steps_contended :
    Relation.ReflTransGen (CarefulStep 1) registered contended := by
  have looked : Relation.ReflTransGen (CarefulStep 1) registered
      (looks (looks registered 0 "main") 1 "dev") :=
    .tail (.single (goes_looks rfl)) (goes_looks rfl)
  have first : Relation.ReflTransGen (CarefulStep 1)
      (looks (looks registered 0 "main") 1 "dev")
      (queued (looks (looks registered 0 "main") 1 "dev") 0 "main") :=
    steps_queued rfl rfl
  have granted : (queued (looks (looks registered 0 "main") 1 "dev") 0
      "main").gate.calls 0 = .holding (.model, "org/model") false := by
    rfl
  have second : CarefulStep 1
      (queued (looks (looks registered 0 "main") 1 "dev") 0 "main") _ :=
    goes_admitted rfl rfl granted
  exact ((looked.trans first).tail second).trans (steps_queued rfl rfl)

theorem steps_started :
    Relation.ReflTransGen (CarefulStep 1) new contended :=
  (steps_joined.trans steps_registered).trans steps_contended

/-- A view that is taken while one branch has the slot. -/
theorem shows_contended :
    ∃ s : Board, s.view = some ⟨[], s.acquisitions.registry⟩ ∧
      s.acquisitions.registry.length = 2 ∧
      Shows (GateSystem.effectiveLimit 1) s := by
  have looking : CarefulStep 1 contended _ :=
    ⟨.other, trivial, .look contended rfl⟩
  exact ⟨_, rfl, rfl, (shows_of_careful 1).2 _ (steps_started.tail looking)⟩

/-- The branch that has its slot, once it is known not to be cancelled. -/
def toStaging :
    Program PullThrough.interface (Except PullThroughError Landing) :=
  match toTransfer "main" false with
  | .call .isCancelled next => next false
  | body => body

def transferred : Board :=
  called (called contended 0
      ⟨request "main", .working 0 (toTransfer "main" false)⟩ .isCancelled
      toStaging) 0
    ⟨request "main", .working 0 toStaging⟩
    (.acquireStaging ⟨.model, "org/model", "main", []⟩)
    (.done (.error .storage))

/-- It could not make a staging directory, and drops its permit. -/
def released : Board :=
  let ended := transferred.follow (transferred.acquisitions.advance 0
    ⟨request "main", .working 0 (.done (.error .storage))⟩
    (.ended 0 (some (.error .storage))))
  (ended.setGate ((ended.gate.release 0 (.model, "org/model")).promote
    1)).setPlace 0 .released

theorem steps_released :
    Relation.ReflTransGen (AnyStep 1) contended released := by
  have asked : CarefulStep 1 contended (called contended 0
      ⟨request "main", .working 0 (toTransfer "main" false)⟩ .isCancelled
      toStaging) :=
    goes_called false rfl rfl rfl (by simp) ⟨rfl, rfl⟩
  have staged : CarefulStep 1 (called contended 0
      ⟨request "main", .working 0 (toTransfer "main" false)⟩ .isCancelled
      toStaging) transferred :=
    goes_called (Except.error (.archive (.io .other))) rfl rfl rfl (by simp)
      rfl
  have ended : AnyStep 1 transferred _ := ⟨.other, .finish transferred 0 0
    ⟨request "main", .working 0 (.done (.error .storage))⟩ (.error .storage)
      rfl rfl⟩
  have dropped : AnyStep 1 _ released := ⟨.release 0, .release _ 0 0 0
    ⟨request "main", .ended 0 (some (.error .storage))⟩ _
      (.model, "org/model") false rfl rfl rfl rfl⟩
  exact .tail (.tail (.tail (.single asked.any) staged.any) ended) dropped

/-- The second branch has the slot. -/
def taken : Board :=
  admitted (released.setGate (released.gate.pass 1 1 (.model, "org/model") 1
    true)) 1 "dev" true

theorem steps_taken : Relation.ReflTransGen (AnyStep 1) released taken := by
  have woken : AnyStep 1 released _ :=
    ⟨.other, .wake released 1 (.model, "org/model") 1 rfl⟩
  have admitted : CarefulStep 1 _ taken := goes_admitted rfl rfl rfl
  exact .tail (.single woken) admitted.any

/-- What a view finds now. -/
def seen : List Item :=
  [⟨0, (request "main").target, .transferring⟩,
    ⟨1, (request "dev").target, .transferring⟩]

theorem steps_seen :
    Relation.ReflTransGen (AnyStep 1) taken
      { taken with view := some ⟨seen, []⟩ } := by
  have looking : AnyStep 1 taken _ := ⟨.other, .look taken rfl⟩
  have first : AnyStep 1 _ _ := ⟨.read 0, .read
    { taken with view := some ⟨[], taken.acquisitions.registry⟩ } [] 0
      (request "main").target [(1, (request "dev").target)] rfl⟩
  have second : AnyStep 1 _ { taken with view := some ⟨seen, []⟩ } :=
    ⟨.read 1, .read
      { taken with
        view := some ⟨[⟨0, (request "main").target, .transferring⟩],
          [(1, (request "dev").target)]⟩ }
      [⟨0, (request "main").target, .transferring⟩] 1 (request "dev").target
      [] rfl⟩
  exact .tail (.tail (.single looking) first) second

/-- With one slot for all, a view reports two acquisitions of one repository as
transferring. -/
theorem two_transferring_on_one_slot :
    ∃ s : Board, Relation.ReflTransGen (AnyStep (GateSystem.effectiveLimit 1))
        new s ∧
      ∃ view, s.view = some view ∧ view.remaining = [] ∧
        view.transferring.length = 2 ∧
        (∃ item ∈ view.transferring, ¬s.Holds item.entry) ∧
        ¬(view.transferring.map fun item => item.target.slot).Nodup := by
  have started : Relation.ReflTransGen (AnyStep 1) new contended :=
    Relation.ReflTransGen.mono (fun _ _ step => CarefulStep.any step) _ _
      steps_started
  have run : Relation.ReflTransGen (AnyStep 1) new
      { taken with view := some ⟨seen, []⟩ } :=
    ((started.trans steps_released).trans steps_taken).trans steps_seen
  have gone : ¬Holds { taken with view := some ⟨seen, []⟩ } 0 := by
    rintro ⟨number, flight, ticket, found, own, place⟩
    have same := (sound_of_run run).acquisitions.distinct number 0 flight
      ⟨request "main", .ended 0 (some (.error .storage))⟩ 0 found rfl own rfl
    subst same
    cases place
  refine ⟨_, run, ⟨seen, []⟩, rfl, rfl, by decide,
    ⟨⟨0, (request "main").target, .transferring⟩,
      mem_transferring.mpr ⟨List.mem_cons_self, rfl⟩, gone⟩, by decide⟩

end Sample

end Board

end InFlight
end ModelKeep
