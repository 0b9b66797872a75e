import Mathlib.Data.Option.Basic
import ModelKeep.Concurrency.RelyGuarantee

/-!
# Calls that must not overlap

Every actor makes one call, at any time.  Some pairs of calls may conflict; in
a careful run no call takes a step while one it conflicts with is in progress.
A `CallContract` asks of conflicting calls only what a call needs before it
starts and after it has returned.

A program can also be embedded into a larger interface, and what is safe there
is safe here as long as the view of the larger state is respected.
-/

namespace Concurrency

open Relation

variable {I J : Interface} {ι σ τ α β : Type}

/-! ## Runs of calls -/

/-- The shared state, what every call still has to do, and which calls have
begun. -/
structure Calls (I : Interface) (ι σ α : Type) where
  shared : σ
  thread : ι → Program I α
  begun : ι → Bool

namespace Calls

/-- The call has begun and has not returned. -/
def InProgress (calls : Calls I ι σ α) (actor : ι) : Prop :=
  calls.begun actor = true ∧ ∀ value, calls.thread actor ≠ .done value

/-- No call is in progress. -/
def Quiet (calls : Calls I ι σ α) : Prop :=
  ∀ actor, ¬calls.InProgress actor

/-- The calls before any of them has begun. -/
def initial (shared : σ) (programs : ι → Program I α) :
    Calls I ι σ α :=
  ⟨shared, programs, fun _ => false⟩

theorem quiet_initial (shared : σ) (programs : ι → Program I α) :
    (initial shared programs).Quiet := by
  rintro actor ⟨begun, _⟩
  cases begun

variable [DecidableEq ι]

/-- The calls after one of them took a step. -/
def advance (calls : Calls I ι σ α) (actor : ι) (after : σ)
    (rest : Program I α) : Calls I ι σ α where
  shared := after
  thread := Function.update calls.thread actor rest
  begun := Function.update calls.begun actor true

/-- One operation of one call. -/
inductive Step (exec : ι → Semantics I σ) :
    Calls I ι σ α → ι → Calls I ι σ α → Prop
  | mk
      (calls : Calls I ι σ α)
      (actor : ι)
      (op : I.Op)
      (next : I.Reply op → Program I α)
      (reply : I.Reply op)
      (after : σ) :
      calls.thread actor = .call op next →
      exec actor op calls.shared reply after →
      Step exec calls actor (calls.advance actor after (next reply))

/-- A step while no conflicting call is in progress. -/
def Careful (exec : ι → Semantics I σ) (conflict : ι → ι → Prop)
    (before after : Calls I ι σ α) : Prop :=
  ∃ actor, Step exec before actor after ∧
    ∀ other, conflict actor other → ¬before.InProgress other

/-- Any step. -/
abbrev Any (exec : ι → Semantics I σ) :
    Calls I ι σ α → Calls I ι σ α → Prop :=
  Careful exec fun _ _ => False

variable {exec : ι → Semantics I σ} {conflict : ι → ι → Prop} {actor : ι}
  {calls : Calls I ι σ α}

/-- What is not in progress is not put in progress by another call. -/
theorem alone_advance
    {after : σ}
    {rest : Program I α}
    (self : ¬conflict actor actor)
    (alone : ∀ other, conflict actor other → ¬calls.InProgress other) :
    ∀ other, conflict actor other →
      ¬(calls.advance actor after rest).InProgress other := by
  intro other conflicts
  have different : other ≠ actor := by
    rintro rfl
    exact self conflicts
  unfold InProgress advance
  dsimp only
  rw [Function.update_of_ne different, Function.update_of_ne different]
  exact alone other conflicts

/-- A call may run a first part of its program while the others pause. -/
theorem reaches_of_runs_bind
    {program : Program I β}
    {rest : β → Program I α}
    {value : β}
    {final : σ}
    (self : ¬conflict actor actor)
    (alone : ∀ other, conflict actor other → ¬calls.InProgress other)
    (ahead : calls.thread actor = program >>= rest)
    (begun : calls.begun actor = true)
    (run : program.Runs (exec actor) calls.shared value final) :
    ReflTransGen (Careful exec conflict) calls
      (calls.advance actor final (rest value)) := by
  induction program generalizing calls with
  | done result =>
      obtain ⟨rfl, rfl⟩ := run
      rw [Program.done_bind] at ahead
      have same : calls.advance actor calls.shared (rest value) = calls := by
        unfold advance
        rw [← ahead, ← begun, Function.update_eq_self,
          Function.update_eq_self]
      rw [same]
  | call op next inductionHypothesis =>
      obtain ⟨reply, middle, issued, remaining⟩ := run
      have first : Careful exec conflict calls
          (calls.advance actor middle (next reply >>= rest)) :=
        ⟨actor, .mk calls actor op (fun reply => next reply >>= rest) reply
          middle ahead issued, alone⟩
      have later : ReflTransGen (Careful exec conflict)
          (calls.advance actor middle (next reply >>= rest))
          ((calls.advance actor middle (next reply >>= rest)).advance actor
            final (rest value)) :=
        inductionHypothesis reply (alone_advance self alone)
          (Function.update_self ..) (Function.update_self ..) remaining
      have same : (calls.advance actor middle (next reply >>= rest)).advance
          actor final (rest value) =
            calls.advance actor final (rest value) := by
        simp [advance, Function.update_idem]
      rw [same] at later
      exact ReflTransGen.head first later

/-- A call may run to its end while the others pause. -/
theorem reaches_of_runs
    {op : I.Op}
    {next : I.Reply op → Program I α}
    {value : α}
    {final : σ}
    (self : ¬conflict actor actor)
    (alone : ∀ other, conflict actor other → ¬calls.InProgress other)
    (ahead : calls.thread actor = .call op next)
    (run : (Program.call op next).Runs (exec actor) calls.shared value
      final) :
    ReflTransGen (Careful exec conflict) calls
      (calls.advance actor final (.done value)) := by
  obtain ⟨reply, middle, issued, remaining⟩ := run
  have first : Careful exec conflict calls
      (calls.advance actor middle (next reply)) :=
    ⟨actor, .mk calls actor op next reply middle ahead issued, alone⟩
  have later : ReflTransGen (Careful exec conflict)
      (calls.advance actor middle (next reply))
      ((calls.advance actor middle (next reply)).advance actor final
        (.done value)) :=
    reaches_of_runs_bind self (alone_advance self alone)
      ((Function.update_self ..).trans (Program.bind_done (next reply)).symm)
      (Function.update_self ..) remaining
  have same : (calls.advance actor middle (next reply)).advance actor final
      (.done value) = calls.advance actor final (.done value) := by
    simp [advance, Function.update_idem]
  rw [same] at later
  exact ReflTransGen.head first later

end Calls

/-! ## Contracts between calls -/

/-- What calls promise to one another. -/
structure CallContract (exec : ι → Semantics I σ)
    (programs : ι → Program I α) (conflict : ι → ι → Prop) where
  /-- What every reachable shared state satisfies. -/
  invariant : σ → Prop
  /-- The moves a call in progress tolerates. -/
  rely : ι → σ → σ → Prop
  /-- The moves a call makes. -/
  guar : ι → σ → σ → Prop
  /-- What a call may count on when it begins. -/
  fresh : ι → σ → Prop
  /-- What holds once a call has returned. -/
  post : ι → α → σ → Prop
  rely_refl : ∀ actor state, rely actor state state
  rely_trans : ∀ actor first second third,
    rely actor first second → rely actor second third →
      rely actor first third
  guar_rely : ∀ {actor other before after}, actor ≠ other →
    ¬conflict actor other → invariant before → invariant after →
      guar actor before after → rely other before after
  guar_fresh : ∀ {actor other before after}, actor ≠ other →
    guar actor before after → fresh other before → fresh other after
  guar_post : ∀ {actor other value before after}, actor ≠ other →
    guar actor before after → post other value before →
      post other value after
  /-- A call begins while those it conflicts with have not begun or have
  returned. -/
  starts : ∀ actor state, invariant state → fresh actor state →
    (∀ other, conflict actor other →
      fresh other state ∨ ∃ value, post other value state) →
    (programs actor).Safe (exec actor) invariant (rely actor) (guar actor)
      (post actor) state

namespace CallContract

variable {exec : ι → Semantics I σ} {programs : ι → Program I α}
  {conflict : ι → ι → Prop}

/-- Every call is where its contract says. -/
structure Kept (contract : CallContract exec programs conflict)
    (calls : Calls I ι σ α) : Prop where
  invariant : contract.invariant calls.shared
  waiting : ∀ actor, calls.begun actor = false →
    calls.thread actor = programs actor ∧
      contract.fresh actor calls.shared
  running : ∀ actor, calls.InProgress actor →
    (calls.thread actor).Safe (exec actor) contract.invariant
      (contract.rely actor) (contract.guar actor) (contract.post actor)
      calls.shared
  returned : ∀ actor value, calls.begun actor = true →
    calls.thread actor = .done value →
      contract.post actor value calls.shared

theorem kept_initial
    (contract : CallContract exec programs conflict)
    {shared : σ}
    (invariant : contract.invariant shared)
    (fresh : ∀ actor, contract.fresh actor shared) :
    contract.Kept (.initial shared programs) where
  invariant := invariant
  waiting := fun actor _ => ⟨rfl, fresh actor⟩
  running := fun actor inProgress =>
    absurd inProgress (Calls.quiet_initial shared programs actor)
  returned := fun _ _ begun => by cases begun

variable {contract : CallContract exec programs conflict}

/-- A call that is not in progress has not begun or has returned. -/
theorem Kept.resting
    {calls : Calls I ι σ α}
    (kept : contract.Kept calls)
    {actor : ι}
    (resting : ¬calls.InProgress actor) :
    contract.fresh actor calls.shared ∨
      ∃ value, contract.post actor value calls.shared := by
  cases begun : calls.begun actor with
  | false => exact Or.inl (kept.waiting actor begun).2
  | true =>
      cases ahead : calls.thread actor with
      | done value =>
          exact Or.inr ⟨value, kept.returned actor value begun ahead⟩
      | call op next =>
          refine absurd ⟨begun, ?_⟩ resting
          intro value same
          rw [ahead] at same
          cases same

/-- Whatever a call is about to do is safe. -/
theorem Kept.ahead
    {calls : Calls I ι σ α}
    (kept : contract.Kept calls)
    {actor : ι}
    {op : I.Op}
    {next : I.Reply op → Program I α}
    (ahead : calls.thread actor = .call op next)
    (alone : ∀ other, conflict actor other → ¬calls.InProgress other) :
    (Program.call op next).Safe (exec actor) contract.invariant
      (contract.rely actor) (contract.guar actor) (contract.post actor)
      calls.shared := by
  cases begun : calls.begun actor with
  | false =>
      obtain ⟨same, fresh⟩ := kept.waiting actor begun
      rw [← ahead, same]
      exact contract.starts actor calls.shared kept.invariant fresh
        fun other conflicts => kept.resting (alone other conflicts)
  | true =>
      rw [← ahead]
      refine kept.running actor ⟨begun, ?_⟩
      intro value same
      rw [ahead] at same
      cases same

variable [DecidableEq ι]

/-- A careful step keeps the contract. -/
theorem Kept.step
    {before after : Calls I ι σ α}
    (kept : contract.Kept before)
    (step : Calls.Careful exec conflict before after) :
    contract.Kept after := by
  obtain ⟨actor, moves, alone⟩ := step
  cases moves with | mk op next reply shared ahead issued => ?_
  obtain ⟨invariant, guaranteed, remaining⟩ :=
    kept.ahead ahead alone _ (contract.rely_refl actor _) kept.invariant reply
      shared issued
  have others : ∀ other, other ≠ actor →
      (before.advance actor shared (next reply)).thread other =
          before.thread other ∧
        (before.advance actor shared (next reply)).begun other =
          before.begun other :=
    fun other different =>
      ⟨Function.update_of_ne different .., Function.update_of_ne different ..⟩
  have self : (before.advance actor shared (next reply)).thread actor =
      next reply := Function.update_self ..
  refine ⟨invariant, ?_, ?_, ?_⟩
  · intro other waiting
    by_cases same : other = actor
    · subst same
      simp [Calls.advance] at waiting
    · rw [(others other same).2] at waiting
      rw [(others other same).1]
      obtain ⟨program, fresh⟩ := kept.waiting other waiting
      exact ⟨program, contract.guar_fresh (Ne.symm same) guaranteed fresh⟩
  · intro other inProgress
    by_cases same : other = actor
    · subst same
      rw [self]
      exact remaining
    · unfold Calls.InProgress at inProgress
      rw [(others other same).1, (others other same).2] at inProgress
      rw [(others other same).1]
      -- The others that have begun do not conflict with this call.
      have apart : ¬conflict actor other :=
        fun conflicts => alone other conflicts inProgress
      exact (kept.running other inProgress).stable (contract.rely_trans other)
        (contract.guar_rely (Ne.symm same) apart kept.invariant invariant
          guaranteed)
  · intro other value begun done
    by_cases same : other = actor
    · subst same
      rw [self] at done
      rw [done] at remaining
      exact remaining shared (contract.rely_refl other shared) invariant
    · rw [(others other same).1] at done
      rw [(others other same).2] at begun
      exact contract.guar_post (Ne.symm same) guaranteed
        (kept.returned other value begun done)

/-- Any number of careful steps keeps the contract. -/
theorem Kept.reaches
    {before after : Calls I ι σ α}
    (kept : contract.Kept before)
    (reaches : ReflTransGen (Calls.Careful exec conflict) before after) :
    contract.Kept after := by
  induction reaches with
  | refl => exact kept
  | tail _ step inductionHypothesis => exact inductionHypothesis.step step

/-- A relation that the moves of all calls respect relates the shared states
at the two ends of a careful run. -/
theorem Kept.history
    {before after : Calls I ι σ α}
    (history : σ → σ → Prop)
    (historyRefl : ∀ state, history state state)
    (historyTrans : ∀ first second third,
      history first second → history second third → history first third)
    (guarHistory : ∀ {actor first second},
      contract.guar actor first second → history first second)
    (kept : contract.Kept before)
    (reaches : ReflTransGen (Calls.Careful exec conflict) before after) :
    history before.shared after.shared := by
  induction reaches with
  | refl => exact historyRefl _
  | tail reached step inductionHypothesis =>
      refine historyTrans _ _ _ inductionHypothesis ?_
      obtain ⟨actor, moves, alone⟩ := step
      cases moves with | mk op next reply shared ahead issued => ?_
      have keptThen := kept.reaches reached
      exact guarHistory (keptThen.ahead ahead alone _
        (contract.rely_refl actor _) keptThen.invariant reply shared
        issued).2.1

end CallContract

/-! ## Embedded programs -/

/-- The operations of one interface as operations of another. -/
structure Embedding (I J : Interface) where
  op : I.Op → J.Op
  reply : ∀ issued, J.Reply (op issued) → I.Reply issued

namespace Program

/-- The same program, through an embedding. -/
def embed (embedding : Embedding I J) : Program I α → Program J α
  | .done value => .done value
  | .call op next => .call (embedding.op op) fun reply =>
      (next (embedding.reply op reply)).embed embedding

@[simp] theorem embed_done
    (embedding : Embedding I J)
    (value : α) :
    (done value : Program I α).embed embedding = .done value := rfl

@[simp] theorem embed_call
    (embedding : Embedding I J)
    (op : I.Op)
    (next : I.Reply op → Program I α) :
    (call op next : Program I α).embed embedding =
      .call (embedding.op op) fun reply =>
        (next (embedding.reply op reply)).embed embedding := rfl

/-- How the parts of a larger state answer to those of a smaller one. -/
structure Respects
    (embedding : Embedding I J)
    (exec : Semantics I σ)
    (wide : Semantics J τ)
    (view : τ → σ)
    (live : τ → Prop)
    (invariant : σ → Prop)
    (wideInvariant : τ → Prop)
    (rely guar : σ → σ → Prop)
    (wideRely wideGuar : τ → τ → Prop) :
    Prop where
  lives : ∀ before after, live before → wideRely before after →
    live after ∧ rely (view before) (view after)
  holds : ∀ state, live state → wideInvariant state →
    invariant (view state)
  step : ∀ op before reply after, live before → wideInvariant before →
    wide (embedding.op op) before reply after →
      exec op (view before) (embedding.reply op reply) (view after)
  back : ∀ op before reply after, live before → wideInvariant before →
    wide (embedding.op op) before reply after →
      invariant (view after) → guar (view before) (view after) →
        live after ∧ wideInvariant after ∧ wideGuar before after

/-- What is safe on the view is safe. -/
theorem Safe.embed
    {embedding : Embedding I J}
    {exec : Semantics I σ}
    {wide : Semantics J τ}
    {view : τ → σ}
    {live wideInvariant : τ → Prop}
    {invariant : σ → Prop}
    {rely guar : σ → σ → Prop}
    {wideRely wideGuar : τ → τ → Prop}
    (respects : Respects embedding exec wide view live invariant
      wideInvariant rely guar wideRely wideGuar)
    {program : Program I α}
    {post : α → σ → Prop}
    {start : τ}
    (lives : live start)
    (safe : Safe exec invariant rely guar program post (view start)) :
    Safe wide wideInvariant wideRely wideGuar (program.embed embedding)
      (fun value state => live state ∧ post value (view state)) start := by
  induction program generalizing start with
  | done value =>
      intro current moved holds
      obtain ⟨livesNow, relied⟩ := respects.lives start current lives moved
      exact ⟨livesNow, safe _ relied
        (respects.holds current livesNow holds)⟩
  | call op next inductionHypothesis =>
      intro current moved holds reply after issued
      obtain ⟨livesNow, relied⟩ := respects.lives start current lives moved
      obtain ⟨kept, guaranteed, remaining⟩ :=
        safe _ relied (respects.holds current livesNow holds) _ _
          (respects.step op current reply after livesNow holds issued)
      obtain ⟨livesAfter, holdsAfter, widely⟩ :=
        respects.back op current reply after livesNow holds issued kept
          guaranteed
      exact ⟨holdsAfter, widely,
        inductionHypothesis _ livesAfter remaining⟩

end Program
end Concurrency
