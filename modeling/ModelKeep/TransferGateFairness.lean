import ModelKeep.Concurrency.Fairness
import ModelKeep.TransferGate

/-!
# Nobody waits for ever

The gate polls for cancellations, so every waiting call looks again and again,
and every transfer ends.  With that no call waits for ever: once everyone
before it is through, the oldest ticket gets the next slot that is freed.
-/

namespace ModelKeep

namespace GateState

variable {limit : Nat} {gate : GateState} {ticket : Nat}

/-- An admission takes nobody's grant. -/
theorem granted_promoteFrom
    (granted : ticket ∈ gate.granted)
    (grants : List Grant)
    (queue : List Nat) :
    ticket ∈ (promoteFrom limit gate grants [] queue).1.granted :=
  (promoteFrom_induction (fun gate _ => ticket ∈ gate.granted)
    (fun _ _ _ _ _ _ granted _ _ _ _ _ => Finset.mem_insert_of_mem granted)
    (fun _ _ _ _ _ granted _ _ => granted)
    gate grants [] queue granted (by simp)).1

/-- The oldest ticket is admitted before any other, or nobody is. -/
theorem promote_head
    {rest : List Nat}
    {repository : RepositoryKey}
    (queue : gate.waiting = ticket :: rest)
    (registered : gate.repositoryOf.lookup ticket = some repository)
    (idle : repository ∉ gate.transferring)
    (grants : List Grant) :
    ticket ∈ (gate.promote limit grants).1.granted ∨
      ¬gate.transferring.card < limit ∧ (gate.promote limit grants).1 = gate := by
  unfold promote
  rw [queue, promoteFrom]
  split
  · left
    rw [registered]
    dsimp only
    rw [if_neg idle]
    exact granted_promoteFrom (Finset.mem_insert_self ..) ..
  · next full =>
      right
      refine ⟨full, ?_⟩
      rw [List.nil_append, ← queue]

end GateState

namespace GateSystem

variable {τ : Type} {limit : Nat} {system before after : GateSystem τ}
  {ticket : Nat} {repository : RepositoryKey} {token : τ}

theorem granted_promote (granted : ticket ∈ system.gate.granted) :
    ticket ∈ (system.promote limit).gate.granted :=
  GateState.granted_promoteFrom granted ..

theorem granted_pass
    {other : Nat}
    {otherRepository : RepositoryKey}
    {otherToken : τ}
    {waited : Bool}
    (different : other ≠ ticket)
    (granted : ticket ∈ system.gate.granted) :
    ticket ∈ (system.pass limit other otherRepository otherToken
      waited).gate.granted := by
  unfold pass
  split
  · exact Finset.mem_erase.mpr ⟨Ne.symm different, granted⟩
  · split
    · exact granted_promote granted
    · exact granted

theorem Consistent.parked_lt
    (consistent : Consistent limit system)
    (parked : system.calls ticket = .parked repository token) :
    ticket < system.gate.nextTicket := by
  by_contra late
  have unissued := consistent.fresh ticket (by omega)
  rw [parked] at unissued
  cases unissued

/-! ## What a step does to one call -/

section calls

variable [DecidableEq τ]

/-- A waiting call goes on waiting, gets its permit or is cancelled. -/
theorem Step.of_parked
    (step : Step limit before after)
    (consistent : Consistent limit before)
    (parked : before.calls ticket = .parked repository token) :
    after.calls ticket = .parked repository token ∨
      after.calls ticket = .holding repository true ∨
        after.calls ticket = .refused ∧
          (after.tokens token).isCancelled ∧
          ticket ∉ before.gate.granted := by
  cases step with
  | enter other otherToken =>
      left
      obtain ⟨call, calls, _⟩ := calls_enter limit before other otherToken
      rw [calls, Function.update_of_ne (consistent.parked_lt parked).ne,
        parked]
  | wake other otherRepository otherToken parkedToo =>
      by_cases same : other = ticket
      · subst same
        cases parkedToo.symm.trans parked
        unfold pass
        split
        · exact Or.inr (Or.inl (Function.update_self ..))
        · next waits =>
            split
            · next cancelled =>
                exact Or.inr (Or.inr
                  ⟨Function.update_self .., cancelled, waits⟩)
            · exact Or.inl parked
      · left
        obtain ⟨call, calls, _⟩ := calls_pass limit before other
          otherRepository otherToken true
        rw [calls, Function.update_of_ne (Ne.symm same), parked]
  | drop other otherRepository waited holding =>
      left
      have different : ticket ≠ other := by
        rintro rfl
        cases holding.symm.trans parked
      exact (Function.update_of_ne different ..).trans parked
  | cancel other => exact Or.inl parked
  | commit other => exact Or.inl parked

/-- A permit is live until it is dropped. -/
theorem Step.of_holding
    {waited : Bool}
    (step : Step limit before after)
    (consistent : Consistent limit before)
    (holding : before.calls ticket = .holding repository waited) :
    after.calls ticket = .holding repository waited ∨
      after = (before.release ticket repository).promote limit := by
  cases step with
  | enter other otherToken =>
      left
      obtain ⟨call, calls, _⟩ := calls_enter limit before other otherToken
      have issued : ticket ≠ before.gate.nextTicket := by
        rintro rfl
        have unissued := consistent.fresh _ le_rfl
        cases unissued.symm.trans holding
      rw [calls, Function.update_of_ne issued, holding]
  | wake other otherRepository otherToken parked =>
      left
      have different : ticket ≠ other := by
        rintro rfl
        cases holding.symm.trans parked
      obtain ⟨call, calls, _⟩ := calls_pass limit before other
        otherRepository otherToken true
      rw [calls, Function.update_of_ne different, holding]
  | drop other otherRepository otherWaited holdingToo =>
      by_cases same : other = ticket
      · subst same
        cases holdingToo.symm.trans holding
        exact Or.inr rfl
      · left
        exact (Function.update_of_ne (Ne.symm same) ..).trans holding
  | cancel other => exact Or.inl holding
  | commit other => exact Or.inl holding

/-- A call that is over stays so. -/
theorem Step.of_over
    (step : Step limit before after)
    (issued : ticket < before.gate.nextTicket)
    (ceased : (before.calls ticket).Over) :
    (after.calls ticket).Over := by
  cases step with
  | enter other otherToken =>
      obtain ⟨call, calls, _⟩ := calls_enter limit before other otherToken
      rw [calls, Function.update_of_ne issued.ne]
      exact ceased
  | wake other otherRepository otherToken parked =>
      have different : ticket ≠ other := by
        rintro rfl
        rw [parked] at ceased
        exact ceased
      obtain ⟨call, calls, _⟩ := calls_pass limit before other
        otherRepository otherToken true
      rw [calls, Function.update_of_ne different]
      exact ceased
  | drop other otherRepository waited holding =>
      have different : ticket ≠ other := by
        rintro rfl
        rw [holding] at ceased
        exact ceased
      have same : ((before.release other otherRepository).promote
          limit).calls ticket = before.calls ticket :=
        Function.update_of_ne different ..
      rw [same]
      exact ceased
  | cancel other => exact ceased
  | commit other => exact ceased

/-- A grant is kept for its owner. -/
theorem Step.of_granted
    (step : Step limit before after)
    (consistent : Consistent limit before)
    (granted : ticket ∈ before.gate.granted)
    (parked : after.calls ticket = .parked repository token) :
    ticket ∈ after.gate.granted := by
  cases step with
  | enter other otherToken =>
      exact granted_pass (consistent.granted_issued granted).ne'
        (granted_promote granted)
  | wake other otherRepository otherToken parkedThen =>
      by_cases same : other = ticket
      · subst same
        unfold pass at parked
        rw [if_pos granted] at parked
        cases (Function.update_self ..).symm.trans parked
      · exact granted_pass same granted
  | drop other otherRepository waited holding => exact granted_promote granted
  | cancel other => exact granted
  | commit other => exact granted

end calls

/-! ## The oldest ticket -/

/-- Nobody has waited longer than this ticket. -/
def Heads (ticket : Nat) (repository : RepositoryKey)
    (system : GateSystem τ) : Prop :=
  ∃ rest, system.gate.waiting = ticket :: rest ∧
    system.gate.repositoryOf.lookup ticket = some repository

/-- Whoever promotes admits the oldest ticket or leaves everything as it
is. -/
theorem Heads.promote
    (heads : Heads ticket repository system)
    (idle : repository ∉ system.gate.transferring) :
    ticket ∈ (system.promote limit).gate.granted ∨
      ¬system.gate.transferring.card < limit ∧
        (system.promote limit).gate = system.gate := by
  obtain ⟨rest, queue, registered⟩ := heads
  exact GateState.promote_head queue registered idle _

theorem Heads.withdraw
    {other : Nat}
    (heads : Heads ticket repository system)
    (different : other ≠ ticket) :
    Heads ticket repository (system.withdraw other) := by
  obtain ⟨rest, queue, registered⟩ := heads
  refine ⟨rest.filter (· ≠ other), ?_, ?_⟩
  · show system.gate.waiting.filter _ = _
    rw [queue, List.filter_cons_of_pos (by simpa using Ne.symm different)]
  · show (system.gate.repositoryOf.erase other).lookup ticket = _
    rw [Finmap.lookup_erase_ne (Ne.symm different), registered]

theorem Heads.register
    {other : RepositoryKey}
    {otherToken : τ}
    (heads : Heads ticket repository system)
    (issued : ticket ≠ system.gate.nextTicket) :
    Heads ticket repository (system.register other otherToken) := by
  obtain ⟨rest, queue, registered⟩ := heads
  refine ⟨rest ++ [system.gate.nextTicket], ?_, ?_⟩
  · show system.gate.waiting ++ _ = _
    rw [queue, List.cons_append]
  · show (system.gate.repositoryOf.insert ..).lookup ticket = _
    rw [Finmap.lookup_insert_of_ne _ issued, registered]

/-- A pass of another call does not take the repository of the oldest
ticket. -/
theorem Heads.pass
    {other : Nat}
    {otherRepository : RepositoryKey}
    {otherToken : τ}
    {waited : Bool}
    (heads : Heads ticket repository system)
    (idle : repository ∉ system.gate.transferring)
    (different : other ≠ ticket) :
    ticket ∈ (system.pass limit other otherRepository otherToken
        waited).gate.granted ∨
      repository ∉ (system.pass limit other otherRepository otherToken
        waited).gate.transferring := by
  unfold GateSystem.pass
  split
  · exact Or.inr idle
  · split
    · rcases (heads.withdraw different).promote idle with
        granted | ⟨_, same⟩
      · exact Or.inl granted
      · right
        rw [same]
        exact idle
    · exact Or.inr idle

/-- An idle repository is given to the oldest ticket or stays idle. -/
theorem Step.of_heads
    [DecidableEq τ]
    (step : Step limit before after)
    (consistent : Consistent limit before)
    (heads : Heads ticket repository before)
    (idle : repository ∉ before.gate.transferring)
    (parkedThen : before.calls ticket = .parked repository token)
    (parked : after.calls ticket = .parked repository token) :
    ticket ∈ after.gate.granted ∨ repository ∉ after.gate.transferring := by
  cases step with
  | enter other otherToken =>
      have issued := (consistent.parked_lt parkedThen).ne
      have headsToo : Heads ticket repository
          (before.register other otherToken) := heads.register issued
      rcases headsToo.promote idle with granted | ⟨_, same⟩
      · exact Or.inl (granted_pass (Ne.symm issued) granted)
      · apply Heads.pass _ _ (Ne.symm issued)
        · obtain ⟨rest, queue, registered⟩ := headsToo
          exact ⟨rest, same ▸ queue, same ▸ registered⟩
        · rw [same]
          exact idle
  | wake other otherRepository otherToken otherParked =>
      by_cases same : other = ticket
      · subst same
        unfold pass at parked ⊢
        split
        · next granted =>
            rw [if_pos granted] at parked
            cases (Function.update_self ..).symm.trans parked
        · next waits =>
            rw [if_neg waits] at parked
            split
            · next cancelled =>
                rw [if_pos cancelled] at parked
                cases (Function.update_self ..).symm.trans parked
            · exact Or.inr idle
      · exact heads.pass idle same
  | drop other otherRepository waited holding =>
      have stillIdle : repository ∉
          (before.release other otherRepository).gate.transferring :=
        fun member => idle (Finset.mem_of_mem_erase member)
      have headsToo : Heads ticket repository
          (before.release other otherRepository) := heads
      rcases headsToo.promote stillIdle with granted | ⟨_, same⟩
      · exact Or.inl granted
      · right
        rw [same]
        exact stillIdle
  | cancel other => exact Or.inr idle
  | commit other => exact Or.inr idle

/-- The slot that is freed goes to the oldest ticket, if its repository is
idle then. -/
theorem Heads.release
    {other : Nat}
    {otherRepository : RepositoryKey}
    {waited : Bool}
    (consistent : Consistent limit system)
    (heads : Heads ticket repository system)
    (holding : system.calls other = .holding otherRepository waited)
    (idle : repository ∉ system.gate.transferring.erase otherRepository) :
    ticket ∈ ((system.release other otherRepository).promote
      limit).gate.granted := by
  have taken : otherRepository ∈ system.gate.transferring := by
    apply consistent.occupied other
    right
    rw [holding]
    rfl
  have headsToo : Heads ticket repository
      (system.release other otherRepository) := heads
  rcases headsToo.promote idle with granted | ⟨full, _⟩
  · exact granted
  · refine absurd ?_ full
    have fewer := Finset.card_erase_lt_of_mem taken
    exact fewer.trans_le consistent.bounded

/-! ## Fair runs -/

section runs

variable [DecidableEq τ]

/-- A run in which every waiting call looks again and again, and every permit
is dropped some time. -/
structure Fair (limit : Nat) (run : ℕ → GateSystem τ) : Prop where
  start : run 0 = initial
  moves : Concurrency.Endless (Step (effectiveLimit limit)) run
  polls : ∀ now ticket repository token,
    (run now).calls ticket = .parked repository token →
      ∃ later, now ≤ later ∧
        ((run later).calls ticket ≠ .parked repository token ∨
          run (later + 1) = (run later).pass (effectiveLimit limit) ticket
            repository token true)
  ends : ∀ now ticket repository waited,
    (run now).calls ticket = .holding repository waited →
      ∃ later, now ≤ later ∧
        (run later).calls ticket ≠ .holding repository waited

namespace Fair

variable {run : ℕ → GateSystem τ} {now : ℕ}

theorem invariant (fair : Fair limit run) (now : ℕ) :
    Invariant (effectiveLimit limit) (run now) := by
  have reached := fair.moves.reaches (Nat.zero_le now)
  rw [fair.start] at reached
  exact Reachable.invariant reached

/-- What is granted is collected. -/
theorem collects
    (fair : Fair limit run)
    (parked : (run now).calls ticket = .parked repository token)
    (granted : ticket ∈ (run now).gate.granted) :
    ∃ later, now ≤ later ∧
      (run later).calls ticket = .holding repository true := by
  by_contra never
  push Not at never
  have stays : ∀ later, now ≤ later →
      (run later).calls ticket = .parked repository token ∧
        ticket ∈ (run later).gate.granted := by
    intro later onward
    induction later, onward using Nat.le_induction with
    | base => exact ⟨parked, granted⟩
    | succ later onward inductionHypothesis =>
        obtain ⟨parkedThen, grantedThen⟩ := inductionHypothesis
        have step := fair.moves later
        have consistent := (fair.invariant later).consistent
        rcases step.of_parked consistent parkedThen with
          parkedNow | holding | ⟨_, _, waits⟩
        · exact ⟨parkedNow, step.of_granted consistent grantedThen parkedNow⟩
        · exact absurd holding (never _ (by omega))
        · exact absurd grantedThen waits
  obtain ⟨later, onward, gone | passed⟩ :=
    fair.polls now ticket repository token parked
  · exact gone (stays later onward).1
  · apply never (later + 1) (by omega)
    rw [passed]
    unfold pass
    rw [if_pos (stays later onward).2]
    exact Function.update_self ..

/-- A permit is dropped at some step. -/
theorem drops
    {waited : Bool}
    (fair : Fair limit run)
    (holding : (run now).calls ticket = .holding repository waited) :
    ∃ last, now ≤ last ∧
      (run last).calls ticket = .holding repository waited ∧
        run (last + 1) = ((run last).release ticket repository).promote
          (effectiveLimit limit) := by
  obtain ⟨last, onward, held, dropped⟩ := Concurrency.exists_last run
    (fun system => system.calls ticket = .holding repository waited)
    holding (fair.ends now ticket repository waited holding)
  exact ⟨last, onward, held, ((fair.moves last).of_holding
    (fair.invariant last).consistent held).resolve_left dropped⟩

/-- A slot that is taken is freed at some step. -/
theorem frees
    (fair : Fair limit run)
    (takes : (run now).Occupies ticket repository) :
    ∃ last waited, now ≤ last ∧
      (run last).calls ticket = .holding repository waited ∧
        run (last + 1) = ((run last).release ticket repository).promote
          (effectiveLimit limit) := by
  rcases takes with ⟨granted, awaits⟩ | holds
  · obtain ⟨token, parked⟩ := GateCall.parked_of_awaits awaits
    obtain ⟨later, onward, holding⟩ := fair.collects parked granted
    obtain ⟨last, afterwards, held, dropped⟩ := fair.drops holding
    exact ⟨last, true, onward.trans afterwards, held, dropped⟩
  · cases call : (run now).calls ticket with
    | holding other waited =>
        rw [call] at holds
        cases holds
        obtain ⟨last, onward, held, dropped⟩ := fair.drops call
        exact ⟨last, waited, onward, held, dropped⟩
    | _ =>
        rw [call] at holds
        cases holds

/-- A call whose permit is live is over some time. -/
theorem over_of_holding
    {waited : Bool}
    (fair : Fair limit run)
    (holding : (run now).calls ticket = .holding repository waited) :
    ∃ later, now ≤ later ∧ ((run later).calls ticket).Over := by
  obtain ⟨last, onward, _, dropped⟩ := fair.drops holding
  refine ⟨last + 1, by omega, ?_⟩
  have released : (run (last + 1)).calls ticket = .released := by
    rw [dropped]
    exact Function.update_self ..
  rw [released]
  trivial

/-- A call that ceases to wait is over some time. -/
theorem over_of_leaves
    (fair : Fair limit run)
    (parked : (run now).calls ticket = .parked repository token)
    (leaves : ∃ later, now ≤ later ∧
      (run later).calls ticket ≠ .parked repository token) :
    ∃ later, now ≤ later ∧ ((run later).calls ticket).Over := by
  obtain ⟨last, onward, waits, left⟩ := Concurrency.exists_last run
    (fun system => system.calls ticket = .parked repository token) parked
    leaves
  rcases ((fair.moves last).of_parked (fair.invariant last).consistent
    waits).resolve_left left with holding | ⟨refused, _⟩
  · obtain ⟨later, afterwards, ceased⟩ := fair.over_of_holding holding
    exact ⟨later, by omega, ceased⟩
  · refine ⟨last + 1, by omega, ?_⟩
    rw [refused]
    trivial

/-- Once everyone before it is over, a waiting ticket is the oldest. -/
theorem heads
    (fair : Fair limit run)
    (parked : (run now).calls ticket = .parked repository token)
    (notGranted : ticket ∉ (run now).gate.granted)
    (past : ∀ older < ticket, ((run now).calls older).Over) :
    Heads ticket repository (run now) := by
  obtain ⟨consistent, _, _⟩ := fair.invariant now
  have waits : ticket ∈ (run now).gate.waiting := by
    have queued := (consistent.queued ticket).mp (by rw [parked]; rfl)
    exact queued.resolve_right notGranted
  have registered : (run now).gate.repositoryOf.lookup ticket =
      some repository := by
    rw [consistent.registered, parked]
    rfl
  cases queue : (run now).gate.waiting with
  | nil =>
      rw [queue] at waits
      cases waits
  | cons first rest =>
      refine ⟨rest, ?_, registered⟩
      have strict := consistent.ordered
      rw [queue] at waits strict
      rcases List.mem_cons.mp waits with same | later
      · rw [queue, same]
      · -- Whoever is before it in the queue is not over.
        have older := (List.pairwise_cons.mp strict).1 ticket later
        have queued := (consistent.queued first).mpr
          (Or.inl (by rw [queue]; exact List.mem_cons_self))
        rw [GateCall.awaits_of_over (past first older)] at queued
        cases queued

/-- A ticket that is the oldest for good is granted some time. -/
theorem granted_of_heads
    (fair : Fair limit run)
    (parked : ∀ later, now ≤ later →
      (run later).calls ticket = .parked repository token)
    (heads : ∀ later, now ≤ later → Heads ticket repository (run later)) :
    ∃ later, now ≤ later ∧ ticket ∈ (run later).gate.granted := by
  by_contra never
  push Not at never
  have freed : ∀ {moment other slot}, now ≤ moment →
      (run moment).Occupies other slot →
      (∀ later, moment ≤ later →
        repository ∉ (run later).gate.transferring.erase slot) → False := by
    intro moment other slot onward takes idle
    obtain ⟨last, waited, afterwards, holding, dropped⟩ := fair.frees takes
    apply never (last + 1) (by omega)
    rw [dropped]
    exact (heads last (by omega)).release (fair.invariant last).consistent
      holding (idle last afterwards)
  by_cases idles : ∃ moment, now ≤ moment ∧
      repository ∉ (run moment).gate.transferring
  · -- The repository stays idle, so some other transfer is in the way.
    obtain ⟨moment, onward, idle⟩ := idles
    have stays : ∀ later, moment ≤ later →
        repository ∉ (run later).gate.transferring := by
      intro later afterwards
      induction later, afterwards using Nat.le_induction with
      | base => exact idle
      | succ later afterwards inductionHypothesis =>
          exact ((fair.moves later).of_heads
            (fair.invariant later).consistent (heads later (by omega))
            inductionHypothesis (parked later (by omega))
            (parked (later + 1) (by omega))).resolve_left
              (never _ (by omega))
    obtain ⟨consistent, _, settled⟩ := fair.invariant moment
    obtain ⟨rest, queue, registered⟩ := heads moment onward
    have full : ¬(run moment).gate.transferring.card <
        effectiveLimit limit := by
      intro free
      refine settled ticket ⟨?_, free, repository, registered, idle⟩
      rw [queue]
      exact List.mem_cons_self
    have some : (run moment).gate.transferring.Nonempty := by
      rw [← Finset.card_pos]
      have positive : 1 ≤ effectiveLimit limit := le_max_right ..
      omega
    obtain ⟨slot, member⟩ := some
    obtain ⟨other, takes⟩ := consistent.occupant slot member
    exact freed onward takes fun later afterwards erased =>
      stays later afterwards (Finset.mem_of_mem_erase erased)
  · -- The transfer of the same repository is in the way.
    push Not at idles
    obtain ⟨other, takes⟩ :=
      (fair.invariant now).consistent.occupant repository
        (idles now le_rfl)
    exact freed le_rfl takes fun later _ =>
      Finset.notMem_erase _ _

/-- No call waits for ever. -/
theorem leaves
    (fair : Fair limit run)
    (parked : (run now).calls ticket = .parked repository token) :
    ∃ later, now ≤ later ∧
      (run later).calls ticket ≠ .parked repository token := by
  induction ticket using Nat.strong_induction_on
    generalizing now repository token with
  | h ticket inductionHypothesis =>
      by_contra never
      push Not at never
      have notGranted : ∀ later, now ≤ later →
          ticket ∉ (run later).gate.granted := by
        intro later onward granted
        obtain ⟨last, afterwards, holding⟩ :=
          fair.collects (never later onward) granted
        cases holding.symm.trans (never last (by omega))
      have issued : ∀ later, now ≤ later →
          ticket < (run later).gate.nextTicket := fun later onward =>
        (fair.invariant later).consistent.parked_lt (never later onward)
      obtain ⟨moment, onward, past⟩ := Concurrency.eventually_forall run
        (fun older system => (GateSystem.calls system older).Over)
        (Finset.range ticket) now
        (fun older member later afterwards ceased =>
          (fair.moves later).of_over
            ((Finset.mem_range.mp member).trans (issued later afterwards))
            ceased)
        (fun older member => by
          have before := Finset.mem_range.mp member
          cases call : (run now).calls older with
          | parked otherRepository otherToken =>
              exact fair.over_of_leaves call
                (inductionHypothesis older before call)
          | holding otherRepository waited => exact fair.over_of_holding call
          | _ => exact ⟨now, le_rfl, by rw [call]; trivial⟩)
      obtain ⟨later, afterwards, granted⟩ : ∃ later, moment ≤ later ∧
          ticket ∈ (run later).gate.granted :=
        fair.granted_of_heads
          (fun later afterwards => never later (by omega))
          (fun later afterwards => fair.heads (never later (by omega))
            (notGranted later (by omega)) fun older before =>
              past later afterwards older (Finset.mem_range.mpr before))
      exact notGranted later (by omega) granted

end Fair

/-- In every fair run a waiting call gets its permit some time, unless it is
cancelled before. -/
theorem nobody_waits_for_ever
    {run : ℕ → GateSystem τ}
    (fair : Fair limit run)
    {now : ℕ}
    (parked : (run now).calls ticket = .parked repository token) :
    ∃ later, now ≤ later ∧
      ((run later).calls ticket = .holding repository true ∨
        (run later).calls ticket = .refused ∧
          ((run later).tokens token).isCancelled) := by
  obtain ⟨last, onward, waits, left⟩ := Concurrency.exists_last run
    (fun system => system.calls ticket = .parked repository token) parked
    (fair.leaves parked)
  refine ⟨last + 1, by omega, ?_⟩
  rcases ((fair.moves last).of_parked (fair.invariant last).consistent
    waits).resolve_left left with holding | ⟨refused, cancelled, _⟩
  · exact Or.inl holding
  · exact Or.inr ⟨refused, cancelled⟩

end runs

/-! ## Two calls for one repository -/

def sampleKey : RepositoryKey := (.model, "org/model")

/-- The first call has its permit, and the second waits. -/
def sampleWaiting : GateSystem Unit :=
  (initial.enter (effectiveLimit 2) sampleKey ()).enter (effectiveLimit 2)
    sampleKey ()

/-- The first permit has been dropped. -/
def sampleFreed : GateSystem Unit :=
  (sampleWaiting.release 0 sampleKey).promote (effectiveLimit 2)

/-- The second call has its permit. -/
def sampleServed : GateSystem Unit :=
  sampleFreed.pass (effectiveLimit 2) 1 sampleKey () true

/-- Both permits have been dropped. -/
def sampleOver : GateSystem Unit :=
  (sampleServed.release 1 sampleKey).promote (effectiveLimit 2)

/-- From here on a token that was cancelled is cancelled again. -/
def sampleEnd : GateSystem Unit :=
  { sampleOver with tokens := fun _ => ⟨.cancelled, none⟩ }

def sampleRun : ℕ → GateSystem Unit
  | 0 => initial
  | 1 => initial.enter (effectiveLimit 2) sampleKey ()
  | 2 => sampleWaiting
  | 3 => sampleFreed
  | 4 => sampleServed
  | 5 => sampleOver
  | _ + 6 => sampleEnd

theorem sampleOver_cancel :
    Step (effectiveLimit 2) sampleOver sampleEnd := by
  have same : sampleEnd =
      { sampleOver with
        tokens := Function.update sampleOver.tokens ()
          (sampleOver.tokens ()).cancel.2 } := by
    unfold sampleEnd
    congr 1
  rw [same]
  exact .cancel sampleOver ()

theorem sampleEnd_cancel : Step (effectiveLimit 2) sampleEnd sampleEnd := by
  have same : sampleEnd =
      { sampleEnd with
        tokens := Function.update sampleEnd.tokens ()
          (sampleEnd.tokens ()).cancel.2 } := by
    unfold sampleEnd
    congr 1
  conv_rhs => rw [same]
  exact .cancel sampleEnd ()

theorem sampleRun_moves :
    Concurrency.Endless (Step (effectiveLimit 2)) sampleRun := by
  intro moment
  rcases moment with _ | _ | _ | _ | _ | _ | moment
  · exact Step.enter initial sampleKey ()
  · exact Step.enter (initial.enter (effectiveLimit 2) sampleKey ()) sampleKey
      ()
  · exact Step.drop sampleWaiting 0 sampleKey false rfl
  · exact Step.wake sampleFreed 1 sampleKey () rfl
  · exact Step.drop sampleServed 1 sampleKey true rfl
  · exact sampleOver_cancel
  · exact sampleEnd_cancel

theorem over_sampleEnd (ticket : Nat) : (sampleEnd.calls ticket).Over := by
  have reached : Reachable 2 sampleEnd := by
    have run := sampleRun_moves.reaches (Nat.zero_le 6)
    exact run
  have next : sampleEnd.gate.nextTicket = 2 := by decide
  rcases ticket with _ | _ | ticket
  · trivial
  · trivial
  · rw [reached.invariant.consistent.fresh (ticket + 2) (by omega)]
    trivial

/-- Everything is over from the sixth step on. -/
theorem over_sampleRun (now ticket : Nat) :
    ((sampleRun (now + 6)).calls ticket).Over :=
  over_sampleEnd ticket

theorem fair_sampleRun : Fair 2 sampleRun where
  start := rfl
  moves := sampleRun_moves
  polls := by
    intro now ticket repository token _
    refine ⟨now + 6, by omega, Or.inl fun parked => ?_⟩
    have ceased := over_sampleRun now ticket
    rw [parked] at ceased
    exact ceased
  ends := by
    intro now ticket repository waited _
    refine ⟨now + 6, by omega, fun holding => ?_⟩
    have ceased := over_sampleRun now ticket
    rw [holding] at ceased
    exact ceased

/-- The second call waits while the first has its permit. -/
theorem nobody_waits_for_ever_in_contention :
    (sampleRun 2).calls 1 = .parked sampleKey () ∧
      ∃ later, 2 ≤ later ∧
        ((sampleRun later).calls 1 = .holding sampleKey true ∨
          (sampleRun later).calls 1 = .refused ∧
            ((sampleRun later).tokens ()).isCancelled) :=
  ⟨rfl, nobody_waits_for_ever fair_sampleRun rfl⟩

end GateSystem
end ModelKeep
