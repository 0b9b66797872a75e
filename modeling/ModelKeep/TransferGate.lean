import Mathlib.Data.Finmap
import Mathlib.Logic.Relation
import ModelKeep.Cancellation
import ModelKeep.Names

/-!
# The transfer gate

At most one transfer runs per repository and at most `limit` run at all.  A
call of `acquire` draws a ticket and waits until some call promotes it; the
owner of a granted ticket collects it later.  The gate is a state machine
whose steps are the sections that hold its lock: the first pass of a call, a
later pass after a wakeup of any cause, and the release of a permit.

Calls are named by their tickets.  Tickets are natural numbers here; the
source counts them in 64 bits, which no run exhausts.
-/

namespace ModelKeep

/-- Models and datasets that share an id are distinct repositories. -/
abbrev RepositoryKey : Type := RepositoryType × String

/-- What the lock of the gate protects. -/
structure GateState where
  transferring : Finset RepositoryKey
  waiting : List Nat
  granted : Finset Nat
  repositoryOf : Finmap fun _ : Nat => RepositoryKey
  nextTicket : Nat

/-- A grant as an observer records it: which ticket was admitted, for which
repository, and the gate as it stood. -/
structure Grant where
  ticket : Nat
  repository : RepositoryKey
  before : GateState

namespace GateState

/-- `GateState::default`. -/
def new : GateState := ⟨∅, [], ∅, ∅, 0⟩

/-- A slot is free and the repository of this waiting ticket is idle. -/
def Eligible (limit : Nat) (gate : GateState) (ticket : Nat) : Prop :=
  ticket ∈ gate.waiting ∧ gate.transferring.card < limit ∧
    ∃ repository, gate.repositoryOf.lookup ticket = some repository ∧
      repository ∉ gate.transferring

/-- The repository of the ticket holds a slot already. -/
def Busy (gate : GateState) (ticket : Nat) : Prop :=
  ∃ repository, gate.repositoryOf.lookup ticket = some repository ∧
    repository ∈ gate.transferring

/-- The state after admitting a ticket, which leaves this queue. -/
def grantSlot
    (gate : GateState)
    (ticket : Nat)
    (repository : RepositoryKey)
    (queue : List Nat) :
    GateState :=
  { gate with
    transferring := insert repository gate.transferring
    granted := insert ticket gate.granted
    waiting := queue }

/-- The loop of `promote` with the queue cut at its index: the tickets passed
over, and those still to look at. -/
def promoteFrom (limit : Nat) :
    GateState → List Grant → List Nat → List Nat →
      GateState × List Grant
  | gate, grants, passed, [] => ({ gate with waiting := passed }, grants)
  | gate, grants, passed, ticket :: rest =>
      if gate.transferring.card < limit then
        match gate.repositoryOf.lookup ticket with
        | none => promoteFrom limit gate grants passed rest
        | some repository =>
            if repository ∈ gate.transferring then
              promoteFrom limit gate grants (passed ++ [ticket]) rest
            else
              promoteFrom limit
                (gate.grantSlot ticket repository (passed ++ rest))
                (grants ++ [⟨ticket, repository,
                  { gate with waiting := passed ++ ticket :: rest }⟩])
                passed rest
      else
        ({ gate with waiting := passed ++ ticket :: rest }, grants)

/-- Admits as many waiting tickets as the per-repository and global rules
allow, oldest first. -/
def promote (limit : Nat) (gate : GateState) (grants : List Grant) :
    GateState × List Grant :=
  promoteFrom limit gate grants [] gate.waiting

/-- What an admission or a removal of a forgotten ticket preserves, a whole
promotion preserves. -/
theorem promoteFrom_induction
    {limit : Nat}
    (holds : GateState → List Grant → Prop)
    (admits : ∀ gate grants ticket repository passed rest,
      holds gate grants →
      gate.waiting = passed ++ ticket :: rest →
      gate.repositoryOf.lookup ticket = some repository →
      repository ∉ gate.transferring →
      gate.transferring.card < limit →
      (∀ earlier ∈ passed, gate.Busy earlier) →
      holds (gate.grantSlot ticket repository (passed ++ rest))
        (grants ++ [⟨ticket, repository, gate⟩]))
    (forgets : ∀ gate grants ticket passed rest,
      holds gate grants →
      gate.waiting = passed ++ ticket :: rest →
      gate.repositoryOf.lookup ticket = none →
      holds { gate with waiting := passed ++ rest } grants)
    (gate : GateState)
    (grants : List Grant)
    (passed rest : List Nat)
    (start : holds { gate with waiting := passed ++ rest } grants)
    (passedBusy : ∀ earlier ∈ passed, gate.Busy earlier) :
    holds (promoteFrom limit gate grants passed rest).1
        (promoteFrom limit gate grants passed rest).2 ∧
      ∀ ticket,
        ¬(promoteFrom limit gate grants passed rest).1.Eligible
          limit ticket := by
  induction rest generalizing gate grants passed with
  | nil =>
      rw [promoteFrom]
      rw [List.append_nil] at start
      refine ⟨start, ?_⟩
      rintro ticket ⟨member, _, repository, registered, idle⟩
      obtain ⟨other, registeredToo, busy⟩ := passedBusy ticket member
      rw [registeredToo] at registered
      cases registered
      exact idle busy
  | cons ticket rest inductionHypothesis =>
      rw [promoteFrom]
      split
      · next free =>
          split
          · next unregistered =>
              apply inductionHypothesis gate grants passed _ passedBusy
              exact forgets { gate with waiting := passed ++ ticket :: rest }
                grants ticket passed rest start rfl unregistered
          · next repository registered =>
              split
              · next busy =>
                  apply inductionHypothesis gate grants (passed ++ [ticket])
                  · rw [List.append_assoc]
                    exact start
                  · intro earlier member
                    rcases List.mem_append.mp member with before | same
                    · exact passedBusy earlier before
                    · rw [List.mem_singleton] at same
                      subst same
                      exact ⟨repository, registered, busy⟩
              · next idle =>
                  apply inductionHypothesis
                  · exact admits { gate with waiting := passed ++ ticket :: rest }
                      grants ticket repository passed rest start rfl
                      registered idle free passedBusy
                  · intro earlier member
                    obtain ⟨other, registeredToo, busy⟩ :=
                      passedBusy earlier member
                    exact ⟨other, registeredToo,
                      Finset.mem_insert_of_mem busy⟩
      · next full =>
          refine ⟨start, ?_⟩
          rintro _ ⟨_, free, _⟩
          exact full free

/-- `acquire` before its loop: draw a ticket and queue up. -/
def register (gate : GateState) (repository : RepositoryKey) : GateState :=
  { gate with
    nextTicket := gate.nextTicket + 1
    repositoryOf := gate.repositoryOf.insert gate.nextTicket repository
    waiting := gate.waiting ++ [gate.nextTicket] }

/-- The owner takes a granted ticket off the books. -/
def collect (gate : GateState) (ticket : Nat) : GateState :=
  { gate with
    granted := gate.granted.erase ticket
    repositoryOf := gate.repositoryOf.erase ticket }

/-- A cancelled caller leaves the queue. -/
def withdraw (gate : GateState) (ticket : Nat) : GateState :=
  { gate with
    waiting := gate.waiting.filter (· ≠ ticket)
    repositoryOf := gate.repositoryOf.erase ticket }

/-- A dropped permit gives its slot back. -/
def release (gate : GateState) (repository : RepositoryKey) : GateState :=
  { gate with transferring := gate.transferring.erase repository }

end GateState

/-- The ticket was waiting with its repository idle and a slot free, and
every ticket that had waited longer was for a busy repository. -/
def Grant.InTurn (limit : Nat) (grant : Grant) : Prop :=
  grant.ticket ∈ grant.before.waiting ∧
    grant.before.repositoryOf.lookup grant.ticket =
      some grant.repository ∧
    grant.repository ∉ grant.before.transferring ∧
    grant.before.transferring.card < limit ∧
    ∀ earlier ∈ grant.before.waiting, earlier < grant.ticket →
      grant.before.Busy earlier

/-! ## Calls of `acquire` -/

/-- How far a call of `acquire`, and the permit it returned, have come. -/
inductive GateCall (τ : Type)
  | unissued
  /-- Asleep on the condition variable. -/
  | parked (repository : RepositoryKey) (token : τ)
  /-- Returned with a live permit, after a wait or at once. -/
  | holding (repository : RepositoryKey) (waited : Bool)
  /-- Returned `Cancelled`. -/
  | refused
  /-- The permit has been dropped. -/
  | released

namespace GateCall

variable {τ : Type}

/-- The repository a call still waits for. -/
def awaits : GateCall τ → Option RepositoryKey
  | parked repository _ => some repository
  | _ => none

/-- The repository a live permit is for. -/
def holds : GateCall τ → Option RepositoryKey
  | holding repository _ => some repository
  | _ => none

theorem parked_of_awaits
    {call : GateCall τ}
    {repository : RepositoryKey}
    (waits : call.awaits = some repository) :
    ∃ token, call = .parked repository token := by
  cases call with
  | parked other token =>
      cases waits
      exact ⟨token, rfl⟩
  | _ => cases waits

/-- The call has returned and no permit of it is left. -/
def Over : GateCall τ → Prop
  | unissued => True
  | parked _ _ => False
  | holding _ _ => False
  | refused => True
  | released => True

theorem awaits_of_over
    {call : GateCall τ}
    (ceased : call.Over) :
    call.awaits = none := by
  cases call with
  | parked repository token => exact ceased.elim
  | _ => rfl

theorem holds_of_over
    {call : GateCall τ}
    (ceased : call.Over) :
    call.holds = none := by
  cases call with
  | holding repository waited => exact ceased.elim
  | _ => rfl

end GateCall

/-- The gate, its callers and their tokens, and the grants made so far. -/
structure GateSystem (τ : Type) where
  gate : GateState
  calls : Nat → GateCall τ
  tokens : τ → Cancellation
  grants : List Grant

namespace GateSystem

variable {τ : Type}

/-- A new gate without callers. -/
def initial : GateSystem τ :=
  ⟨.new, fun _ => .unissued, fun _ => .new, []⟩

/-- A new call has joined the queue. -/
def register
    (system : GateSystem τ)
    (repository : RepositoryKey)
    (token : τ) :
    GateSystem τ :=
  { system with
    gate := system.gate.register repository
    calls := Function.update system.calls system.gate.nextTicket
      (.parked repository token) }

/-- Whoever holds the lock promotes. -/
def promote (limit : Nat) (system : GateSystem τ) : GateSystem τ :=
  { system with
    gate := (system.gate.promote limit system.grants).1
    grants := (system.gate.promote limit system.grants).2 }

/-- The call has left the queue because of its token. -/
def withdraw (system : GateSystem τ) (ticket : Nat) : GateSystem τ :=
  { system with
    gate := system.gate.withdraw ticket
    calls := Function.update system.calls ticket .refused }

/-- The call has its permit. -/
def collect
    (system : GateSystem τ)
    (ticket : Nat)
    (repository : RepositoryKey)
    (waited : Bool) :
    GateSystem τ :=
  { system with
    gate := system.gate.collect ticket
    calls := Function.update system.calls ticket
      (.holding repository waited) }

/-- The permit is gone. -/
def release
    (system : GateSystem τ)
    (ticket : Nat)
    (repository : RepositoryKey) :
    GateSystem τ :=
  { system with
    gate := system.gate.release repository
    calls := Function.update system.calls ticket .released }

/-- One pass through the loop of `acquire`, up to its return or its wait. -/
def pass
    (limit : Nat)
    (system : GateSystem τ)
    (ticket : Nat)
    (repository : RepositoryKey)
    (token : τ)
    (waited : Bool) :
    GateSystem τ :=
  if ticket ∈ system.gate.granted then
    system.collect ticket repository waited
  else if (system.tokens token).isCancelled then
    (system.withdraw ticket).promote limit
  else
    system

/-- A call of `acquire` up to its return or its first wait. -/
def enter
    (limit : Nat)
    (system : GateSystem τ)
    (repository : RepositoryKey)
    (token : τ) :
    GateSystem τ :=
  ((system.register repository token).promote limit).pass limit
    system.gate.nextTicket repository token false

/-- Each step holds the lock of the gate, or that of one token. -/
inductive Step [DecidableEq τ] (limit : Nat) :
    GateSystem τ → GateSystem τ → Prop
  | enter
      (system : GateSystem τ)
      (repository : RepositoryKey)
      (token : τ) :
      Step limit system (system.enter limit repository token)
  /-- A notification, a timeout or nothing at all wakes a call. -/
  | wake
      (system : GateSystem τ)
      (ticket : Nat)
      (repository : RepositoryKey)
      (token : τ) :
      system.calls ticket = .parked repository token →
      Step limit system (system.pass limit ticket repository token true)
  | drop
      (system : GateSystem τ)
      (ticket : Nat)
      (repository : RepositoryKey)
      (waited : Bool) :
      system.calls ticket = .holding repository waited →
      Step limit system ((system.release ticket repository).promote limit)
  | cancel (system : GateSystem τ) (token : τ) :
      Step limit system
        { system with
          tokens := Function.update system.tokens token
            (system.tokens token).cancel.2 }
  | commit (system : GateSystem τ) (token : τ) :
      Step limit system
        { system with
          tokens := Function.update system.tokens token
            (system.tokens token).commit.2 }

/-- `TransferGate::new` never allows less than one transfer. -/
def effectiveLimit (limit : Nat) : Nat := max limit 1

/-- The states of a gate made with this limit. -/
def Reachable [DecidableEq τ] (limit : Nat) (system : GateSystem τ) : Prop :=
  Relation.ReflTransGen (Step (effectiveLimit limit)) initial system

/-! ## The books stay in step -/

/-- A slot is taken by a granted ticket that is not collected yet, or by a
live permit. -/
def Occupies
    (system : GateSystem τ)
    (ticket : Nat)
    (repository : RepositoryKey) :
    Prop :=
  (ticket ∈ system.gate.granted ∧
      (system.calls ticket).awaits = some repository) ∨
    (system.calls ticket).holds = some repository

/-- What every lock-protected section keeps at each of its statements. -/
structure Consistent (limit : Nat) (system : GateSystem τ) : Prop where
  bounded : system.gate.transferring.card ≤ limit
  ordered : system.gate.waiting.Pairwise (· < ·)
  fresh : ∀ ticket, system.gate.nextTicket ≤ ticket →
    system.calls ticket = .unissued
  registered : ∀ ticket, system.gate.repositoryOf.lookup ticket =
    (system.calls ticket).awaits
  queued : ∀ ticket, (system.calls ticket).awaits.isSome ↔
    ticket ∈ system.gate.waiting ∨ ticket ∈ system.gate.granted
  apart : ∀ ticket ∈ system.gate.waiting, ticket ∉ system.gate.granted
  occupied : ∀ ticket repository, system.Occupies ticket repository →
    repository ∈ system.gate.transferring
  occupant : ∀ repository ∈ system.gate.transferring,
    ∃ ticket, system.Occupies ticket repository
  exclusive : ∀ first second repository,
    system.Occupies first repository →
    system.Occupies second repository → first = second

namespace Consistent

variable {limit : Nat} {system : GateSystem τ}

theorem initial (limit : Nat) :
    Consistent limit (GateSystem.initial : GateSystem τ) := by
  constructor <;>
    simp [GateSystem.initial, GateState.new, GateCall.awaits, GateCall.holds,
      Occupies]

theorem waiting_issued
    (consistent : Consistent limit system)
    {ticket : Nat}
    (member : ticket ∈ system.gate.waiting) :
    ticket < system.gate.nextTicket := by
  by_contra late
  have unissued := consistent.fresh ticket (by omega)
  have parked := (consistent.queued ticket).mpr (Or.inl member)
  rw [unissued] at parked
  cases parked

theorem granted_issued
    (consistent : Consistent limit system)
    {ticket : Nat}
    (member : ticket ∈ system.gate.granted) :
    ticket < system.gate.nextTicket := by
  by_contra late
  have unissued := consistent.fresh ticket (by omega)
  have parked := (consistent.queued ticket).mpr (Or.inr member)
  rw [unissued] at parked
  cases parked

/-- A new ticket is at the end of the queue and occupies nothing. -/
theorem register
    (consistent : Consistent limit system)
    (repository : RepositoryKey)
    (token : τ) :
    Consistent limit (system.register repository token) := by
  have unissued := consistent.fresh system.gate.nextTicket le_rfl
  have notGranted : system.gate.nextTicket ∉ system.gate.granted := by
    intro member
    exact lt_irrefl _ (consistent.granted_issued member)
  have occupies : ∀ ticket other,
      (system.register repository token).Occupies ticket other ↔
        system.Occupies ticket other := by
    intro ticket other
    unfold Occupies GateSystem.register GateState.register
    by_cases same : ticket = system.gate.nextTicket
    · subst same
      simp [notGranted, unissued, GateCall.holds]
    · simp [same]
  constructor
  · exact consistent.bounded
  · refine List.pairwise_append.mpr
      ⟨consistent.ordered, List.pairwise_singleton .., ?_⟩
    intro earlier member later same
    rw [List.mem_singleton] at same
    subst same
    exact consistent.waiting_issued member
  · intro ticket late
    have different : ticket ≠ system.gate.nextTicket := by
      simp only [GateSystem.register, GateState.register] at late
      omega
    simp only [GateSystem.register, Function.update_of_ne different]
    apply consistent.fresh
    simp only [GateSystem.register, GateState.register] at late
    omega
  · intro ticket
    by_cases same : ticket = system.gate.nextTicket
    · subst same
      simp [GateSystem.register, GateState.register, GateCall.awaits]
    · simp [GateSystem.register, GateState.register, same,
        consistent.registered]
  · intro ticket
    by_cases same : ticket = system.gate.nextTicket
    · subst same
      simp [GateSystem.register, GateState.register, GateCall.awaits]
    · simp [GateSystem.register, GateState.register, same,
        consistent.queued]
  · intro ticket member
    rcases List.mem_append.mp member with before | same
    · exact consistent.apart ticket before
    · rw [List.mem_singleton] at same
      subst same
      exact notGranted
  · intro ticket other takes
    exact consistent.occupied ticket other ((occupies ticket other).mp takes)
  · intro other member
    obtain ⟨ticket, takes⟩ := consistent.occupant other member
    exact ⟨ticket, (occupies ticket other).mpr takes⟩
  · intro first second other takes takesToo
    exact consistent.exclusive first second other
      ((occupies first other).mp takes) ((occupies second other).mp takesToo)

/-- Admitting an eligible ticket fills its slot. -/
theorem grantSlot
    (consistent : Consistent limit system)
    {ticket : Nat}
    {repository : RepositoryKey}
    {passed rest : List Nat}
    (queue : system.gate.waiting = passed ++ ticket :: rest)
    (registered : system.gate.repositoryOf.lookup ticket = some repository)
    (idle : repository ∉ system.gate.transferring)
    (free : system.gate.transferring.card < limit)
    (grants : List Grant) :
    Consistent limit
      { system with
        gate := system.gate.grantSlot ticket repository (passed ++ rest)
        grants := grants } := by
  have awaits : (system.calls ticket).awaits = some repository := by
    rw [← consistent.registered, registered]
  have strict := consistent.ordered
  rw [queue] at strict
  have remaining : ∀ other, other ∈ passed ++ rest ↔
      other ∈ system.gate.waiting ∧ other ≠ ticket := by
    intro other
    rw [queue]
    have absent : ticket ∉ passed ++ rest := by
      have distinct := strict.imp (fun before => Nat.ne_of_lt before)
      rw [List.pairwise_middle (fun different => different.symm)] at distinct
      intro member
      exact (List.pairwise_cons.mp distinct).1 ticket member rfl
    constructor
    · intro member
      refine ⟨?_, fun same => absent (same ▸ member)⟩
      simp only [List.mem_append, List.mem_cons] at member ⊢
      tauto
    · rintro ⟨member, different⟩
      simp only [List.mem_append, List.mem_cons] at member ⊢
      tauto
  have occupies : ∀ other slot,
      GateSystem.Occupies
          { system with
            gate := system.gate.grantSlot ticket repository (passed ++ rest)
            grants := grants } other slot ↔
        system.Occupies other slot ∨ (other = ticket ∧ slot = repository) := by
    intro other slot
    simp only [Occupies, GateState.grantSlot, Finset.mem_insert]
    by_cases same : other = ticket
    · subst same
      rw [awaits]
      simp only [true_or, true_and, Option.some.injEq]
      tauto
    · simp [same]
  constructor
  · simp only [GateState.grantSlot, Finset.card_insert_of_notMem idle]
    omega
  · refine strict.sublist ?_
    exact List.Sublist.append_left (List.sublist_cons_self ..) _
  · exact consistent.fresh
  · exact consistent.registered
  · intro other
    rw [consistent.queued other]
    simp only [GateState.grantSlot, Finset.mem_insert, remaining]
    by_cases same : other = ticket
    · subst same
      simp [queue]
    · simp [same]
  · intro other member
    obtain ⟨waits, different⟩ := (remaining other).mp member
    simp only [GateState.grantSlot, Finset.mem_insert, not_or]
    exact ⟨different, consistent.apart other waits⟩
  · intro other slot takes
    simp only [GateState.grantSlot, Finset.mem_insert]
    rcases (occupies other slot).mp takes with before | ⟨_, same⟩
    · exact Or.inr (consistent.occupied other slot before)
    · exact Or.inl same
  · intro slot member
    simp only [GateState.grantSlot, Finset.mem_insert] at member
    rcases member with same | before
    · exact ⟨ticket, (occupies ticket slot).mpr (Or.inr ⟨rfl, same⟩)⟩
    · obtain ⟨other, takes⟩ := consistent.occupant slot before
      exact ⟨other, (occupies other slot).mpr (Or.inl takes)⟩
  · intro first second slot takes takesToo
    rcases (occupies first slot).mp takes with before | ⟨same, slotSame⟩
    · rcases (occupies second slot).mp takesToo with later | ⟨_, slotSame⟩
      · exact consistent.exclusive first second slot before later
      · subst slotSame
        exact absurd (consistent.occupied first slot before) idle
    · rcases (occupies second slot).mp takesToo with later | ⟨sameToo, _⟩
      · subst slotSame
        exact absurd (consistent.occupied second slot later) idle
      · rw [same, sameToo]

/-- Collecting turns a granted ticket into a live permit. -/
theorem collect
    (consistent : Consistent limit system)
    {ticket : Nat}
    {repository : RepositoryKey}
    {token : τ}
    (waited : Bool)
    (parked : system.calls ticket = .parked repository token)
    (granted : ticket ∈ system.gate.granted) :
    Consistent limit (system.collect ticket repository waited) := by
  have occupies : ∀ other slot,
      (system.collect ticket repository waited).Occupies other slot ↔
        system.Occupies other slot := by
    intro other slot
    unfold Occupies GateSystem.collect GateState.collect
    by_cases same : other = ticket
    · subst same
      simp [parked, granted, GateCall.holds, GateCall.awaits]
    · simp [same]
  constructor
  · exact consistent.bounded
  · exact consistent.ordered
  · intro other late
    have different : other ≠ ticket := by
      have issued := consistent.granted_issued granted
      simp only [GateSystem.collect, GateState.collect] at late
      omega
    simp only [GateSystem.collect, Function.update_of_ne different]
    exact consistent.fresh other late
  · intro other
    by_cases same : other = ticket
    · subst same
      simp [GateSystem.collect, GateState.collect, GateCall.awaits]
    · simp [GateSystem.collect, GateState.collect, same,
        consistent.registered]
  · intro other
    by_cases same : other = ticket
    · subst same
      have notWaiting : other ∉ system.gate.waiting :=
        fun waits => consistent.apart other waits granted
      simp [GateSystem.collect, GateState.collect, GateCall.awaits,
        notWaiting]
    · simp [GateSystem.collect, GateState.collect, same,
        consistent.queued]
  · intro other member inGranted
    exact consistent.apart other member (Finset.mem_of_mem_erase inGranted)
  · intro other slot takes
    exact consistent.occupied other slot ((occupies other slot).mp takes)
  · intro slot member
    obtain ⟨other, takes⟩ := consistent.occupant slot member
    exact ⟨other, (occupies other slot).mpr takes⟩
  · intro first second slot takes takesToo
    exact consistent.exclusive first second slot
      ((occupies first slot).mp takes) ((occupies second slot).mp takesToo)

/-- A call that was never granted leaves no slot behind. -/
theorem withdraw
    (consistent : Consistent limit system)
    {ticket : Nat}
    {repository : RepositoryKey}
    {token : τ}
    (parked : system.calls ticket = .parked repository token)
    (notGranted : ticket ∉ system.gate.granted) :
    Consistent limit (system.withdraw ticket) := by
  have waits : ticket ∈ system.gate.waiting := by
    have queued := (consistent.queued ticket).mp (by rw [parked]; rfl)
    exact queued.resolve_right notGranted
  have occupies : ∀ other slot,
      (system.withdraw ticket).Occupies other slot ↔
        system.Occupies other slot := by
    intro other slot
    unfold Occupies GateSystem.withdraw GateState.withdraw
    by_cases same : other = ticket
    · subst same
      simp [parked, notGranted, GateCall.holds]
    · simp [same]
  constructor
  · exact consistent.bounded
  · exact consistent.ordered.filter _
  · intro other late
    have different : other ≠ ticket := by
      have issued := consistent.waiting_issued waits
      simp only [GateSystem.withdraw, GateState.withdraw] at late
      omega
    simp only [GateSystem.withdraw, Function.update_of_ne different]
    exact consistent.fresh other late
  · intro other
    by_cases same : other = ticket
    · subst same
      simp [GateSystem.withdraw, GateState.withdraw, GateCall.awaits]
    · simp [GateSystem.withdraw, GateState.withdraw, same,
        consistent.registered]
  · intro other
    by_cases same : other = ticket
    · subst same
      simp [GateSystem.withdraw, GateState.withdraw, GateCall.awaits,
        notGranted]
    · simp [GateSystem.withdraw, GateState.withdraw, same,
        consistent.queued]
  · intro other member
    exact consistent.apart other (List.mem_filter.mp member).1
  · intro other slot takes
    exact consistent.occupied other slot ((occupies other slot).mp takes)
  · intro slot member
    obtain ⟨other, takes⟩ := consistent.occupant slot member
    exact ⟨other, (occupies other slot).mpr takes⟩
  · intro first second slot takes takesToo
    exact consistent.exclusive first second slot
      ((occupies first slot).mp takes) ((occupies second slot).mp takesToo)

/-- Dropping a permit frees exactly the slot it occupied. -/
theorem release
    (consistent : Consistent limit system)
    {ticket : Nat}
    {repository : RepositoryKey}
    {waited : Bool}
    (holding : system.calls ticket = .holding repository waited) :
    Consistent limit (system.release ticket repository) := by
  have took : system.Occupies ticket repository := by
    right
    rw [holding]
    rfl
  have awaitsNone : (system.calls ticket).awaits = none := by
    rw [holding]
    rfl
  have occupies : ∀ other slot,
      (system.release ticket repository).Occupies other slot ↔
        system.Occupies other slot ∧ slot ≠ repository := by
    intro other slot
    have released :
        (system.release ticket repository).Occupies other slot ↔
          other ≠ ticket ∧ system.Occupies other slot := by
      unfold Occupies GateSystem.release GateState.release
      by_cases same : other = ticket
      · subst same
        simp [GateCall.holds, GateCall.awaits]
      · simp [same]
    rw [released]
    constructor
    · rintro ⟨different, takes⟩
      refine ⟨takes, ?_⟩
      intro same
      subst same
      exact different (consistent.exclusive other ticket slot takes took)
    · rintro ⟨takes, different⟩
      refine ⟨?_, takes⟩
      intro same
      subst same
      unfold Occupies at takes
      rw [holding] at takes
      simp only [GateCall.awaits, GateCall.holds, reduceCtorEq, and_false,
        false_or, Option.some.injEq] at takes
      exact different takes.symm
  have calls : ∀ other, ((system.release ticket repository).calls
      other).awaits = (system.calls other).awaits := by
    intro other
    by_cases same : other = ticket
    · subst same
      rw [awaitsNone]
      simp [GateSystem.release, GateCall.awaits]
    · simp [GateSystem.release, same]
  constructor
  · exact (Finset.card_le_card (Finset.erase_subset ..)).trans
      consistent.bounded
  · exact consistent.ordered
  · intro other late
    have different : other ≠ ticket := by
      intro same
      subst same
      rw [consistent.fresh other late] at holding
      cases holding
    simp only [GateSystem.release, Function.update_of_ne different]
    exact consistent.fresh other late
  · intro other
    rw [calls]
    exact consistent.registered other
  · intro other
    rw [calls]
    exact consistent.queued other
  · exact consistent.apart
  · intro other slot takes
    obtain ⟨before, different⟩ := (occupies other slot).mp takes
    exact Finset.mem_erase.mpr
      ⟨different, consistent.occupied other slot before⟩
  · intro slot member
    obtain ⟨different, before⟩ := Finset.mem_erase.mp member
    obtain ⟨other, takes⟩ := consistent.occupant slot before
    exact ⟨other, (occupies other slot).mpr ⟨takes, different⟩⟩
  · intro first second slot takes takesToo
    exact consistent.exclusive first second slot
      ((occupies first slot).mp takes).1
      ((occupies second slot).mp takesToo).1

end Consistent

/-! ## Grants are made in order -/

/-- What the grants made so far have in common. -/
structure Orderly (limit : Nat) (system : GateSystem τ) : Prop where
  inTurn : ∀ grant ∈ system.grants, grant.InTurn limit
  issued : ∀ grant ∈ system.grants, grant.ticket < system.gate.nextTicket
  ordered : system.grants.Pairwise fun earlier later =>
    earlier.repository = later.repository → earlier.ticket < later.ticket
  recorded : ∀ ticket repository, system.Occupies ticket repository →
    ∃ grant ∈ system.grants,
      grant.ticket = ticket ∧ grant.repository = repository
  behind : ∀ grant ∈ system.grants, ∀ ticket ∈ system.gate.waiting,
    system.gate.repositoryOf.lookup ticket = some grant.repository →
      grant.ticket < ticket

namespace Orderly

variable {limit : Nat} {system after : GateSystem τ}

theorem initial (limit : Nat) :
    Orderly limit (GateSystem.initial : GateSystem τ) := by
  constructor <;>
    simp [GateSystem.initial, GateState.new, GateCall.awaits, GateCall.holds,
      Occupies]

/-- Steps that grant nothing and queue nobody keep the order. -/
theorem shrink
    (orderly : Orderly limit system)
    (grants : after.grants = system.grants)
    (next : after.gate.nextTicket = system.gate.nextTicket)
    (queue : ∀ ticket ∈ after.gate.waiting,
      ticket ∈ system.gate.waiting)
    (registered : ∀ ticket repository,
      after.gate.repositoryOf.lookup ticket = some repository →
        system.gate.repositoryOf.lookup ticket = some repository)
    (occupies : ∀ ticket repository, after.Occupies ticket repository →
      ∃ grant ∈ system.grants,
        grant.ticket = ticket ∧ grant.repository = repository) :
    Orderly limit after := by
  constructor
  · rw [grants]
    exact orderly.inTurn
  · rw [grants, next]
    exact orderly.issued
  · rw [grants]
    exact orderly.ordered
  · rw [grants]
    exact occupies
  · rw [grants]
    intro grant member ticket waits same
    exact orderly.behind grant member ticket (queue ticket waits)
      (registered ticket _ same)

theorem register
    (orderly : Orderly limit system)
    (consistent : Consistent limit system)
    (repository : RepositoryKey)
    (token : τ) :
    Orderly limit (system.register repository token) := by
  have unissued := consistent.fresh system.gate.nextTicket le_rfl
  constructor
  · exact orderly.inTurn
  · intro grant member
    exact (orderly.issued grant member).trans (Nat.lt_succ_self _)
  · exact orderly.ordered
  · intro ticket other takes
    apply orderly.recorded
    unfold Occupies GateSystem.register GateState.register at takes
    by_cases same : ticket = system.gate.nextTicket
    · subst same
      rcases takes with ⟨granted, _⟩ | held
      · exact absurd (consistent.granted_issued granted) (lt_irrefl _)
      · simp [GateCall.holds] at held
    · simpa [Occupies, same] using takes
  · intro grant member ticket waits same
    rcases List.mem_append.mp waits with before | new
    · apply orderly.behind grant member ticket before
      have different : ticket ≠ system.gate.nextTicket :=
        Nat.ne_of_lt (consistent.waiting_issued before)
      simpa [GateSystem.register, GateState.register, different] using same
    · rw [List.mem_singleton] at new
      subst new
      exact orderly.issued grant member

/-- The tickets passed over are for busy repositories, so an admitted ticket
is the oldest of its repository. -/
theorem grantSlot
    (orderly : Orderly limit system)
    (consistent : Consistent limit system)
    {ticket : Nat}
    {repository : RepositoryKey}
    {passed rest : List Nat}
    (queue : system.gate.waiting = passed ++ ticket :: rest)
    (registered : system.gate.repositoryOf.lookup ticket = some repository)
    (idle : repository ∉ system.gate.transferring)
    (free : system.gate.transferring.card < limit)
    (passedBusy : ∀ earlier ∈ passed, system.gate.Busy earlier) :
    Orderly limit
      { system with
        gate := system.gate.grantSlot ticket repository (passed ++ rest)
        grants := system.grants ++ [⟨ticket, repository, system.gate⟩] } := by
  have strict := consistent.ordered
  rw [queue, List.pairwise_append, List.pairwise_cons] at strict
  obtain ⟨_, ⟨restLater, _⟩, passedEarlier⟩ := strict
  have waits : ticket ∈ system.gate.waiting := by
    rw [queue]
    simp
  constructor
  · intro grant member
    rcases List.mem_append.mp member with before | new
    · exact orderly.inTurn grant before
    · rw [List.mem_singleton] at new
      subst new
      refine ⟨waits, registered, idle, free, ?_⟩
      intro earlier earlierWaits older
      dsimp only at earlierWaits older ⊢
      rw [queue] at earlierWaits
      rcases List.mem_append.mp earlierWaits with before | behind
      · exact passedBusy earlier before
      · rcases List.mem_cons.mp behind with same | later
        · omega
        · have younger := restLater earlier later
          omega
  · intro grant member
    rcases List.mem_append.mp member with before | new
    · exact orderly.issued grant before
    · rw [List.mem_singleton] at new
      subst new
      exact consistent.waiting_issued waits
  · refine List.pairwise_append.mpr
      ⟨orderly.ordered, List.pairwise_singleton .., ?_⟩
    intro earlier member later new same
    rw [List.mem_singleton] at new
    subst new
    apply orderly.behind earlier member ticket waits
    rw [same, registered]
  · intro other slot takes
    have split : system.Occupies other slot ∨
        (other = ticket ∧ slot = repository) := by
      have awaits := consistent.registered ticket
      rw [registered] at awaits
      rcases takes with ⟨granted, waiting⟩ | held
      · simp only [GateState.grantSlot, Finset.mem_insert] at granted
        rcases granted with same | before
        · subst same
          rw [← awaits] at waiting
          cases waiting
          exact Or.inr ⟨rfl, rfl⟩
        · exact Or.inl (Or.inl ⟨before, waiting⟩)
      · exact Or.inl (Or.inr held)
    rcases split with before | ⟨same, slotSame⟩
    · obtain ⟨grant, member, recorded⟩ := orderly.recorded other slot before
      exact ⟨grant, List.mem_append_left _ member, recorded⟩
    · exact ⟨_, List.mem_append_right _ (List.mem_singleton_self _),
        same.symm, slotSame.symm⟩
  · intro grant member other remains same
    have otherWaits : other ∈ system.gate.waiting := by
      rw [queue]
      simp only [GateState.grantSlot, List.mem_append, List.mem_cons] at remains ⊢
      tauto
    rcases List.mem_append.mp member with before | new
    · exact orderly.behind grant before other otherWaits same
    · rw [List.mem_singleton] at new
      subst new
      rcases List.mem_append.mp remains with inPassed | inRest
      · obtain ⟨found, otherRegistered, busy⟩ := passedBusy other inPassed
        simp only [GateState.grantSlot] at same
        rw [otherRegistered] at same
        cases same
        exact absurd busy idle
      · exact restLater other inRest

end Orderly

/-! ## Steps and runs -/

/-- What holds between any two lock-protected sections. -/
structure Invariant (limit : Nat) (system : GateSystem τ) : Prop where
  consistent : Consistent limit system
  orderly : Orderly limit system
  settled : ∀ ticket, ¬system.gate.Eligible limit ticket

section steps

variable {limit : Nat} {system : GateSystem τ}

theorem promote_invariant
    (consistent : Consistent limit system)
    (orderly : Orderly limit system) :
    Invariant limit (system.promote limit) := by
  have promoted := GateState.promoteFrom_induction
    (fun gate grants =>
      Consistent limit { system with gate := gate, grants := grants } ∧
        Orderly limit { system with gate := gate, grants := grants })
    (fun gate grants ticket repository passed rest holds queue registered
        idle free passedBusy =>
      ⟨holds.1.grantSlot queue registered idle free _,
        holds.2.grantSlot holds.1 queue registered idle free passedBusy⟩)
    (by
      intro gate grants ticket passed rest holds queue unregistered
      -- a queued ticket is always registered, so nothing is forgotten
      have waits : ticket ∈ gate.waiting := by
        rw [queue]
        simp
      have parked := (holds.1.queued ticket).mpr (Or.inl waits)
      have missing := holds.1.registered ticket
      rw [unregistered] at missing
      rw [← missing] at parked
      cases parked)
    system.gate system.grants [] system.gate.waiting
    ⟨consistent, orderly⟩ (by simp)
  exact ⟨promoted.1.1, promoted.1.2, promoted.2⟩

theorem collect_invariant
    (invariant : Invariant limit system)
    {ticket : Nat}
    {repository : RepositoryKey}
    {token : τ}
    (waited : Bool)
    (parked : system.calls ticket = .parked repository token)
    (granted : ticket ∈ system.gate.granted) :
    Invariant limit (system.collect ticket repository waited) := by
  have lookups : ∀ other slot,
      (system.collect ticket repository waited).gate.repositoryOf.lookup
          other = some slot →
        system.gate.repositoryOf.lookup other = some slot := by
    intro other slot found
    by_cases same : other = ticket
    · subst same
      simp [GateSystem.collect, GateState.collect] at found
    · simpa [GateSystem.collect, GateState.collect, same] using found
  refine ⟨invariant.consistent.collect waited parked granted, ?_, ?_⟩
  · refine invariant.orderly.shrink rfl rfl (fun _ waits => waits) lookups ?_
    intro other slot takes
    unfold Occupies GateSystem.collect GateState.collect at takes
    by_cases same : other = ticket
    · subst same
      apply invariant.orderly.recorded
      left
      refine ⟨granted, ?_⟩
      rw [parked]
      simpa [GateCall.awaits, GateCall.holds] using takes
    · apply invariant.orderly.recorded
      simpa [Occupies, same] using takes
  · rintro other ⟨waits, free, slot, found, idle⟩
    exact invariant.settled other
      ⟨waits, free, slot, lookups other slot found, idle⟩

theorem withdraw_invariant
    (invariant : Invariant limit system)
    {ticket : Nat}
    {repository : RepositoryKey}
    {token : τ}
    (parked : system.calls ticket = .parked repository token)
    (notGranted : ticket ∉ system.gate.granted) :
    Invariant limit ((system.withdraw ticket).promote limit) := by
  apply promote_invariant
  · exact invariant.consistent.withdraw parked notGranted
  · refine invariant.orderly.shrink rfl rfl
      (fun _ waits => (List.mem_filter.mp waits).1) ?_ ?_
    · intro other slot found
      by_cases same : other = ticket
      · subst same
        simp [GateSystem.withdraw, GateState.withdraw] at found
      · simpa [GateSystem.withdraw, GateState.withdraw, same] using found
    · intro other slot takes
      apply invariant.orderly.recorded
      unfold Occupies GateSystem.withdraw GateState.withdraw at takes
      by_cases same : other = ticket
      · subst same
        simp [GateCall.awaits, GateCall.holds] at takes
      · simpa [Occupies, same] using takes

theorem release_invariant
    (invariant : Invariant limit system)
    {ticket : Nat}
    {repository : RepositoryKey}
    {waited : Bool}
    (holding : system.calls ticket = .holding repository waited) :
    Invariant limit ((system.release ticket repository).promote limit) := by
  apply promote_invariant
  · exact invariant.consistent.release holding
  · refine invariant.orderly.shrink rfl rfl (fun _ waits => waits)
      (fun _ _ found => found) ?_
    intro other slot takes
    apply invariant.orderly.recorded
    unfold Occupies GateSystem.release GateState.release at takes
    by_cases same : other = ticket
    · subst same
      simp [GateCall.awaits, GateCall.holds] at takes
    · simpa [Occupies, same] using takes

theorem pass_invariant
    (invariant : Invariant limit system)
    {ticket : Nat}
    {repository : RepositoryKey}
    {token : τ}
    (waited : Bool)
    (parked : system.calls ticket = .parked repository token) :
    Invariant limit (system.pass limit ticket repository token waited) := by
  unfold pass
  split
  · next granted => exact collect_invariant invariant waited parked granted
  · next notGranted =>
      split
      · exact withdraw_invariant invariant parked notGranted
      · exact invariant

/-- The books do not mention the tokens. -/
theorem Invariant.tokens
    (invariant : Invariant limit system)
    (tokens : τ → Cancellation) :
    Invariant limit { system with tokens := tokens } :=
  ⟨⟨invariant.consistent.bounded, invariant.consistent.ordered,
      invariant.consistent.fresh, invariant.consistent.registered,
      invariant.consistent.queued, invariant.consistent.apart,
      invariant.consistent.occupied, invariant.consistent.occupant,
      invariant.consistent.exclusive⟩,
    invariant.orderly.shrink rfl rfl (fun _ waits => waits)
      (fun _ _ found => found) invariant.orderly.recorded,
    invariant.settled⟩

theorem Step.invariant
    [DecidableEq τ]
    {before after : GateSystem τ}
    (step : Step limit before after)
    (invariant : Invariant limit before) :
    Invariant limit after := by
  cases step with
  | enter repository token =>
      apply pass_invariant
      · exact promote_invariant
          (invariant.consistent.register repository token)
          (invariant.orderly.register invariant.consistent repository token)
      · exact Function.update_self ..
  | wake ticket repository token parked =>
      exact pass_invariant invariant true parked
  | drop ticket repository waited holding =>
      exact release_invariant invariant holding
  | cancel token => exact invariant.tokens _
  | commit token => exact invariant.tokens _

end steps

theorem initial_invariant (limit : Nat) :
    Invariant limit (GateSystem.initial : GateSystem τ) := by
  refine ⟨Consistent.initial limit, Orderly.initial limit, ?_⟩
  rintro ticket ⟨waits, _⟩
  cases waits

theorem Reachable.invariant
    [DecidableEq τ]
    {limit : Nat}
    {system : GateSystem τ}
    (reachable : Reachable limit system) :
    Invariant (effectiveLimit limit) system := by
  induction reachable with
  | refl => exact initial_invariant _
  | tail _ step inductionHypothesis => exact step.invariant inductionHypothesis

/-! ## What a call leaves of the others -/

section frames

variable {limit : Nat} {system : GateSystem τ} {ticket : Nat}
  {repository : RepositoryKey} {token : τ}

theorem nextTicket_promote
    (limit : Nat)
    (system : GateSystem τ) :
    (system.promote limit).gate.nextTicket = system.gate.nextTicket := by
  have promoted : (GateState.promoteFrom limit system.gate system.grants []
      system.gate.waiting).1.nextTicket = system.gate.nextTicket :=
    (GateState.promoteFrom_induction
      (fun gate _ => gate.nextTicket = system.gate.nextTicket)
      (fun _ _ _ _ _ _ same _ _ _ _ _ => same)
      (fun _ _ _ _ _ same _ _ => same)
      system.gate system.grants [] system.gate.waiting rfl (by simp)).1
  exact promoted

/-- A pass moves its own call only, to its return or nowhere. -/
theorem calls_pass
    (limit : Nat)
    (system : GateSystem τ)
    (ticket : Nat)
    (repository : RepositoryKey)
    (token : τ)
    (waited : Bool) :
    ∃ call, (system.pass limit ticket repository token waited).calls =
        Function.update system.calls ticket call ∧
      (call = system.calls ticket ∨ call = .holding repository waited ∨
        call = .refused) := by
  unfold pass
  split
  · exact ⟨_, rfl, Or.inr (Or.inl rfl)⟩
  · split
    · exact ⟨_, rfl, Or.inr (Or.inr rfl)⟩
    · exact ⟨_, (Function.update_eq_self ..).symm, Or.inl rfl⟩

theorem nextTicket_pass
    (waited : Bool) :
    (system.pass limit ticket repository token waited).gate.nextTicket =
      system.gate.nextTicket := by
  unfold pass
  split
  · rfl
  · split
    · exact nextTicket_promote ..
    · rfl

/-- A new call gets the next ticket. -/
theorem calls_enter
    (limit : Nat)
    (system : GateSystem τ)
    (repository : RepositoryKey)
    (token : τ) :
    ∃ call, (system.enter limit repository token).calls =
        Function.update system.calls system.gate.nextTicket call ∧
      (call = .parked repository token ∨ call = .holding repository false ∨
        call = .refused) := by
  obtain ⟨call, calls, returned⟩ := calls_pass limit
    ((system.register repository token).promote limit) system.gate.nextTicket
    repository token false
  refine ⟨call, ?_, returned.imp_left fun same => ?_⟩
  · rw [enter, calls]
    exact Function.update_idem ..
  · rw [same]
    exact Function.update_self ..

theorem nextTicket_enter :
    (system.enter limit repository token).gate.nextTicket =
      system.gate.nextTicket + 1 := by
  rw [enter, nextTicket_pass, nextTicket_promote]
  rfl

end frames

/-! ## What the gate promises -/

/-- The safety and the order of the gate. -/
structure Sound (limit : Nat) (system : GateSystem τ) : Prop where
  bounded : system.gate.transferring.card ≤ limit
  /-- A slot is taken for exactly one reason. -/
  oneOccupant : ∀ repository ∈ system.gate.transferring,
    ∃! ticket, system.Occupies ticket repository
  /-- Whatever takes a slot is on the books. -/
  onTheBooks : ∀ ticket repository, system.Occupies ticket repository →
    repository ∈ system.gate.transferring
  /-- Every granted ticket has an owner that will collect it. -/
  owned : ∀ ticket ∈ system.gate.granted,
    ∃ repository token, system.calls ticket = .parked repository token
  onePermit : ∀ first second repository firstWaited secondWaited,
    system.calls first = .holding repository firstWaited →
    system.calls second = .holding repository secondWaited →
    first = second
  settled : ∀ ticket, ¬system.gate.Eligible limit ticket
  /-- Every slot goes back to a grant, and every grant was in turn. -/
  recorded : ∀ ticket repository, system.Occupies ticket repository →
    ∃ grant ∈ system.grants,
      grant.ticket = ticket ∧ grant.repository = repository
  inTurn : ∀ grant ∈ system.grants, grant.InTurn limit
  ticketOrder : system.grants.Pairwise fun earlier later =>
    earlier.repository = later.repository → earlier.ticket < later.ticket
  /-- Every waiting ticket is known with its repository. -/
  known : ∀ ticket ∈ system.gate.waiting,
    ∃ repository token, system.calls ticket = .parked repository token ∧
      system.gate.repositoryOf.lookup ticket = some repository
  /-- Nothing is left over once every call is. -/
  drained : (∀ ticket, (system.calls ticket).Over) →
    system.gate.waiting = [] ∧ system.gate.granted = ∅ ∧
      system.gate.transferring = ∅ ∧ system.gate.repositoryOf = ∅

theorem Invariant.sound
    {limit : Nat}
    {system : GateSystem τ}
    (invariant : Invariant limit system) :
    Sound limit system := by
  obtain ⟨consistent, orderly, settled⟩ := invariant
  have parkedOf : ∀ ticket, (system.calls ticket).awaits.isSome →
      ∃ repository token, system.calls ticket = .parked repository token ∧
        system.gate.repositoryOf.lookup ticket = some repository := by
    intro ticket present
    obtain ⟨repository, awaits⟩ := Option.isSome_iff_exists.mp present
    obtain ⟨token, parked⟩ := GateCall.parked_of_awaits awaits
    exact ⟨repository, token, parked,
      (consistent.registered ticket).trans awaits⟩
  constructor
  · exact consistent.bounded
  · intro repository member
    obtain ⟨ticket, takes⟩ := consistent.occupant repository member
    refine ⟨ticket, takes, ?_⟩
    intro other takesToo
    exact consistent.exclusive other ticket repository takesToo takes
  · exact consistent.occupied
  · intro ticket granted
    obtain ⟨repository, token, parked, _⟩ :=
      parkedOf ticket ((consistent.queued ticket).mpr (Or.inr granted))
    exact ⟨repository, token, parked⟩
  · intro first second repository _ _ firstHolds secondHolds
    apply consistent.exclusive first second repository
    · right
      rw [firstHolds]
      rfl
    · right
      rw [secondHolds]
      rfl
  · exact settled
  · exact orderly.recorded
  · exact orderly.inTurn
  · exact orderly.ordered
  · intro ticket waits
    exact parkedOf ticket ((consistent.queued ticket).mpr (Or.inl waits))
  · intro ceased
    have awaitsNone : ∀ ticket, (system.calls ticket).awaits = none :=
      fun ticket => GateCall.awaits_of_over (ceased ticket)
    have noneQueued : ∀ ticket,
        ¬(ticket ∈ system.gate.waiting ∨ ticket ∈ system.gate.granted) := by
      intro ticket queued
      have present := (consistent.queued ticket).mpr queued
      rw [awaitsNone ticket] at present
      cases present
    refine ⟨?_, ?_, ?_, ?_⟩
    · exact List.eq_nil_iff_forall_not_mem.mpr
        fun ticket waits => noneQueued ticket (Or.inl waits)
    · exact Finset.eq_empty_iff_forall_notMem.mpr
        fun ticket granted => noneQueued ticket (Or.inr granted)
    · apply Finset.eq_empty_iff_forall_notMem.mpr
      intro repository member
      obtain ⟨ticket, ⟨granted, _⟩ | held⟩ :=
        consistent.occupant repository member
      · exact noneQueued ticket (Or.inr granted)
      · rw [GateCall.holds_of_over (ceased ticket)] at held
        cases held
    · apply Finmap.ext_lookup
      intro ticket
      rw [consistent.registered, awaitsNone, Finmap.lookup_empty]

/-- In every state that calls, wakeups, cancellations and drops can reach, in
any order, the gate keeps its limit and one transfer per repository, grants in
ticket order, and forgets everything it has finished with. -/
theorem Reachable.limit_and_order
    [DecidableEq τ]
    {limit : Nat}
    {system : GateSystem τ}
    (reachable : Reachable limit system) :
    Sound (effectiveLimit limit) system :=
  reachable.invariant.sound

/-- Two calls for one repository: the first holds the only slot and the second
waits, although a second slot is free. -/
theorem limit_and_order_of_contention :
    let contended : GateSystem Unit :=
      (initial.enter 2 (.model, "org/model") ()).enter 2
        (.model, "org/model") ()
    contended.gate.waiting = [1] ∧
      contended.gate.transferring = {(.model, "org/model")} ∧
      Sound (effectiveLimit 2) contended :=
  ⟨by decide, by decide,
    Reachable.limit_and_order ((Relation.ReflTransGen.single (.enter ..)).tail
      (.enter ..))⟩

end GateSystem
end ModelKeep
