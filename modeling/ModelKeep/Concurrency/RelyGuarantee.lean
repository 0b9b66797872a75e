import Mathlib.Logic.Function.Basic
import ModelKeep.Concurrency.Program

/-!
# Interleaved programs and rely-guarantee reasoning

Any number of actors run programs on one shared state; their operations
interleave in every order, an actor may be cut off before any of its
operations, and the surroundings may move the state as well.  A `Contract`
says what each actor may rely on and what it guarantees in return.  Its main
result, `Contract.holds`, is proved once: an invariant of all reachable
configurations and a postcondition for every actor that has returned.
-/

namespace Concurrency

open Relation

variable {I : Interface} {ι σ α β : Type}

/-- A shared state, the operations each actor may apply to it, and the two
ways it moves without an operation. -/
structure Machine (I : Interface) (ι σ : Type) where
  /-- The operations, as the given actor performs them. -/
  exec : ι → Semantics I σ
  /-- What remains to happen when an actor is cut off. -/
  release : ι → σ → σ → Prop
  /-- Steps that belong to no actor, such as the passing of time. -/
  ambient : σ → σ → Prop

/-- The shared state and what every actor still has to do.  An actor that is
cut off, or never started, has no program. -/
structure Configuration (I : Interface) (ι σ α : Type) where
  /-- The shared state. -/
  shared : σ
  /-- The rest of each actor's program. -/
  thread : ι → Option (Program I α)

/-- One atomic step of the whole system. -/
inductive Machine.Step [DecidableEq ι] (machine : Machine I ι σ) :
    Configuration I ι σ α → Configuration I ι σ α → Prop
  | advance
      (config : Configuration I ι σ α)
      (actor : ι)
      (op : I.Op)
      (next : I.Reply op → Program I α)
      (reply : I.Reply op)
      (after : σ) :
      config.thread actor = some (.call op next) →
      machine.exec actor op config.shared reply after →
      machine.Step config
        ⟨after, Function.update config.thread actor (some (next reply))⟩
  | cut
      (config : Configuration I ι σ α)
      (actor : ι)
      (op : I.Op)
      (next : I.Reply op → Program I α)
      (after : σ) :
      config.thread actor = some (.call op next) →
      machine.release actor config.shared after →
      machine.Step config
        ⟨after, Function.update config.thread actor none⟩
  | ambient
      (config : Configuration I ι σ α)
      (after : σ) :
      machine.ambient config.shared after →
      machine.Step config ⟨after, config.thread⟩

/-- Any number of steps. -/
abbrev Machine.Reaches [DecidableEq ι] (machine : Machine I ι σ) :
    Configuration I ι σ α → Configuration I ι σ α → Prop :=
  ReflTransGen machine.Step

/-- An actor may run a first part of its program while the others pause. -/
theorem Machine.reaches_of_runs_bind
    [DecidableEq ι]
    {machine : Machine I ι σ}
    {actor : ι}
    {program : Program I β}
    {rest : β → Program I α}
    {config : Configuration I ι σ α}
    {value : β}
    {final : σ}
    (started : config.thread actor = some (program >>= rest))
    (run : program.Runs (machine.exec actor) config.shared value final) :
    machine.Reaches config
      ⟨final, Function.update config.thread actor (some (rest value))⟩ := by
  induction program generalizing config with
  | done result =>
      obtain ⟨rfl, rfl⟩ := run
      rw [Program.done_bind] at started
      rw [Function.update_eq_self_iff.mpr started.symm]
  | call op next inductionHypothesis =>
      obtain ⟨reply, middle, issued, remaining⟩ := run
      let after : Configuration I ι σ α :=
        ⟨middle, Function.update config.thread actor
          (some (next reply >>= rest))⟩
      have first : machine.Step config after :=
        .advance config actor op (fun reply => next reply >>= rest) reply
          middle started issued
      have later : machine.Reaches after
          ⟨final, Function.update after.thread actor (some (rest value))⟩ :=
        inductionHypothesis reply (Function.update_self ..) remaining
      rw [Function.update_idem] at later
      exact ReflTransGen.head first later

/-- An actor may run from start to end while the others pause. -/
theorem Machine.reaches_of_runs
    [DecidableEq ι]
    {machine : Machine I ι σ}
    {actor : ι}
    {program : Program I α}
    {config : Configuration I ι σ α}
    {result : α}
    {final : σ}
    (started : config.thread actor = some program)
    (run : program.Runs (machine.exec actor) config.shared result final) :
    machine.Reaches config
      ⟨final, Function.update config.thread actor (some (.done result))⟩ := by
  rw [← Program.bind_done program] at started
  exact Machine.reaches_of_runs_bind started run

/-! ## Programs among others -/

/-- The program keeps the invariant and the guarantee at each of its
operations and ends with the postcondition, provided that everybody else only
makes moves the rely allows. -/
def Program.Safe
    (exec : Semantics I σ)
    (invariant : σ → Prop)
    (rely guar : σ → σ → Prop) :
    Program I α → (α → σ → Prop) → σ → Prop
  | .done value, post, start =>
      ∀ current, rely start current → invariant current →
        post value current
  | .call op next, post, start =>
      ∀ current, rely start current → invariant current →
        ∀ reply after, exec op current reply after →
          invariant after ∧ guar current after ∧
            Safe exec invariant rely guar (next reply) post after

namespace Program

variable {exec : Semantics I σ} {invariant : σ → Prop}
  {rely guar : σ → σ → Prop}

/-- Moves of the others do not spoil a safe program. -/
theorem Safe.stable
    (relyTrans : ∀ first second third,
      rely first second → rely second third → rely first third)
    {program : Program I α}
    {post : α → σ → Prop}
    {start later : σ}
    (safe : Safe exec invariant rely guar program post start)
    (moved : rely start later) :
    Safe exec invariant rely guar program post later := by
  cases program with
  | done value =>
      intro current others holds
      exact safe current (relyTrans _ _ _ moved others) holds
  | call op next =>
      intro current others holds
      exact safe current (relyTrans _ _ _ moved others) holds

theorem Safe.mono
    {program : Program I α}
    {weaker stronger : α → σ → Prop}
    {start : σ}
    (safe : Safe exec invariant rely guar program stronger start)
    (implies : ∀ value current, invariant current →
      stronger value current → weaker value current) :
    Safe exec invariant rely guar program weaker start := by
  induction program generalizing start with
  | done value =>
      intro current others holds
      exact implies value current holds (safe current others holds)
  | call op next inductionHypothesis =>
      intro current others holds reply after issued
      obtain ⟨kept, guaranteed, remaining⟩ :=
        safe current others holds reply after issued
      exact ⟨kept, guaranteed, inductionHypothesis reply remaining⟩

/-- The composition rule: the second program starts from what the first one
ended with. -/
theorem Safe.bind
    (relyRefl : ∀ state, rely state state)
    {program : Program I α}
    {rest : α → Program I β}
    {post : β → σ → Prop}
    {start : σ}
    (safe : Safe exec invariant rely guar program
      (fun value middle => invariant middle →
        Safe exec invariant rely guar (rest value) post middle) start) :
    Safe exec invariant rely guar (program >>= rest) post start := by
  induction program generalizing start with
  | done value =>
      rw [done_bind]
      have continued : ∀ current, rely start current →
          invariant current →
          Safe exec invariant rely guar (rest value) post current :=
        fun current others holds => safe current others holds holds
      cases remaining : rest value with
      | done result =>
          intro current others holds
          have here := continued current others holds
          rw [remaining] at here
          exact here current (relyRefl current) holds
      | call op next =>
          intro current others holds
          have here := continued current others holds
          rw [remaining] at here
          exact here current (relyRefl current) holds
  | call op next inductionHypothesis =>
      intro current others holds reply after issued
      obtain ⟨kept, guaranteed, remaining⟩ :=
        safe current others holds reply after issued
      exact ⟨kept, guaranteed, inductionHypothesis reply remaining⟩

theorem safe_perform
    {op : I.Op}
    {post : I.Reply op → σ → Prop}
    {start : σ}
    (holds : ∀ current, rely start current → invariant current →
      ∀ reply after, exec op current reply after →
        invariant after ∧ guar current after ∧
          ∀ later, rely after later → invariant later →
            post reply later) :
    Safe exec invariant rely guar (perform op) post start := holds

end Program

/-! ## Triples

Assertions that the moves of the others cannot falsify.  Between two of its
operations a program may rely on nothing else. -/

/-- No move of the others falsifies the assertion. -/
def Stable (rely : σ → σ → Prop) (assertion : σ → Prop) : Prop :=
  ∀ before after, rely before after → assertion before → assertion after

/-- From the precondition the program is safe and ends with the
postcondition. -/
def Program.Triple
    (exec : Semantics I σ)
    (invariant : σ → Prop)
    (rely guar : σ → σ → Prop)
    (pre : σ → Prop)
    (program : Program I α)
    (post : α → σ → Prop) :
    Prop :=
  ∀ start, invariant start → pre start →
    program.Safe exec invariant rely guar post start

namespace Program

variable {exec : Semantics I σ} {invariant : σ → Prop}
  {rely guar : σ → σ → Prop}

theorem triple_done
    {pre : σ → Prop}
    {value : α}
    {post : α → σ → Prop}
    (stable : Stable rely pre)
    (implies : ∀ state, invariant state → pre state → post value state) :
    Triple exec invariant rely guar pre (.done value) post := by
  intro start _ holds current moved kept
  exact implies current kept (stable start current moved holds)

/-- One operation: everybody else may move before and after it. -/
theorem triple_perform
    {pre : σ → Prop}
    {op : I.Op}
    {post : I.Reply op → σ → Prop}
    (stable : Stable rely pre)
    (stableAfter : ∀ reply, Stable rely (post reply))
    (effect : ∀ current, invariant current → pre current →
      ∀ reply after, exec op current reply after →
        invariant after ∧ guar current after ∧ post reply after) :
    Triple exec invariant rely guar pre (.call op .done) post := by
  intro start _ holds
  apply safe_perform
  intro current moved kept reply after issued
  obtain ⟨keptAfter, guaranteed, reached⟩ :=
    effect current kept (stable start current moved holds) reply after issued
  exact ⟨keptAfter, guaranteed,
    fun later others _ => stableAfter reply after later others reached⟩

theorem Triple.bind
    (relyRefl : ∀ state, rely state state)
    {pre : σ → Prop}
    {program : Program I α}
    {middle : α → σ → Prop}
    {rest : α → Program I β}
    {post : β → σ → Prop}
    (first : Triple exec invariant rely guar pre program middle)
    (second : ∀ value,
      Triple exec invariant rely guar (middle value) (rest value) post) :
    Triple exec invariant rely guar pre (program >>= rest) post := by
  intro start kept holds
  apply Safe.bind relyRefl
  apply (first start kept holds).mono
  intro value state keptNow reached _
  exact second value state keptNow reached

theorem Triple.mono
    {pre stronger : σ → Prop}
    {program : Program I α}
    {post weaker : α → σ → Prop}
    (triple : Triple exec invariant rely guar pre program post)
    (before : ∀ state, invariant state → stronger state → pre state)
    (after : ∀ value state, invariant state →
      post value state → weaker value state) :
    Triple exec invariant rely guar stronger program weaker := by
  intro start kept holds
  exact (triple start kept (before start kept holds)).mono after

/-- An assertion that survives every move, the program's own included, holds
at the end if it held at the start. -/
theorem Triple.frame
    {pre : σ → Prop}
    {program : Program I α}
    {post : α → σ → Prop}
    {lasting : σ → Prop}
    (survives : ∀ before after, rely before after ∨ guar before after →
      lasting before → lasting after)
    (triple : Triple exec invariant rely guar pre program post) :
    Triple exec invariant rely guar
      (fun state => pre state ∧ lasting state) program
      (fun value state => post value state ∧ lasting state) := by
  intro start kept ⟨holds, lasts⟩
  have safe := triple start kept holds
  clear triple kept holds
  induction program generalizing start with
  | done value =>
      intro current moved kept
      exact ⟨safe current moved kept,
        survives start current (Or.inl moved) lasts⟩
  | call op next inductionHypothesis =>
      intro current moved kept reply after issued
      obtain ⟨keptAfter, guaranteed, remaining⟩ :=
        safe current moved kept reply after issued
      have lastsNow := survives start current (Or.inl moved) lasts
      exact ⟨keptAfter, guaranteed, inductionHypothesis reply after
        (survives current after (Or.inr guaranteed) lastsNow) remaining⟩

/-- A fact that does not mention the state may be assumed outright. -/
theorem triple_of_fact
    {pre : σ → Prop}
    {fact : Prop}
    {program : Program I α}
    {post : α → σ → Prop}
    (triple : fact → Triple exec invariant rely guar pre program post) :
    Triple exec invariant rely guar (fun state => pre state ∧ fact)
      program post :=
  fun start kept holds => triple holds.2 start kept holds.1

/-- A postcondition for either way a program can end. -/
def Outcome
    {ε : Type}
    (failed : σ → Prop)
    (succeeded : α → σ → Prop) :
    Except ε α → σ → Prop
  | .error _, state => failed state
  | .ok value, state => succeeded value state

/-- The composition rule for programs that may stop with an error. -/
theorem Triple.exceptBind
    {ε : Type}
    (relyRefl : ∀ state, rely state state)
    {pre failed : σ → Prop}
    {program : ExceptT ε (Program I) α}
    {middle : α → σ → Prop}
    {rest : α → ExceptT ε (Program I) β}
    {post : β → σ → Prop}
    (stableFailed : Stable rely failed)
    (first : Triple exec invariant rely guar pre program.run
      (Outcome failed middle))
    (second : ∀ value, Triple exec invariant rely guar (middle value)
      (rest value).run (Outcome failed post)) :
    Triple exec invariant rely guar pre (program >>= rest).run
      (Outcome failed post) := by
  rw [ExceptT.run_bind]
  apply Triple.bind relyRefl first
  intro outcome
  cases outcome with
  | ok value => exact second value
  | error error =>
      exact triple_done stableFailed fun state _ holds => holds

end Program

/-! ## Contracts -/

/-- What the actors of a machine promise to one another. -/
structure Contract (machine : Machine I ι σ) (α : Type) where
  /-- What every reachable shared state satisfies. -/
  invariant : σ → Prop
  /-- The moves an actor tolerates from everybody else. -/
  rely : ι → σ → σ → Prop
  /-- The moves an actor makes itself. -/
  guar : ι → σ → σ → Prop
  /-- What holds of an actor's result for as long as it stands. -/
  post : ι → α → σ → Prop
  rely_refl : ∀ actor state, rely actor state state
  rely_trans : ∀ actor first second third,
    rely actor first second → rely actor second third →
      rely actor first third
  guar_rely : ∀ {actor other before after}, actor ≠ other →
    invariant before → invariant after → guar actor before after →
      rely other before after
  release_invariant : ∀ {actor before after},
    invariant before → machine.release actor before after →
      invariant after
  release_rely : ∀ {actor other before after}, actor ≠ other →
    invariant before → machine.release actor before after →
      rely other before after
  ambient_invariant : ∀ {before after},
    invariant before → machine.ambient before after → invariant after
  ambient_rely : ∀ {actor before after},
    invariant before → machine.ambient before after →
      rely actor before after

namespace Contract

variable {machine : Machine I ι σ}

/-- Every actor that still runs keeps its side of the contract. -/
def Kept
    (contract : Contract machine α)
    (config : Configuration I ι σ α) : Prop :=
  contract.invariant config.shared ∧
    ∀ actor program, config.thread actor = some program →
      program.Safe (machine.exec actor) contract.invariant
        (contract.rely actor) (contract.guar actor)
        (contract.post actor) config.shared

variable [DecidableEq ι]

/-- One step, whoever makes it, keeps the contract. -/
theorem Kept.step
    {contract : Contract machine α}
    {before after : Configuration I ι σ α}
    (kept : contract.Kept before)
    (step : machine.Step before after) :
    contract.Kept after := by
  obtain ⟨holds, safe⟩ := kept
  cases step with
  | advance actor op next reply shared started issued =>
      obtain ⟨holdsAfter, guaranteed, remaining⟩ :=
        safe actor _ started _ (contract.rely_refl actor _) holds
          reply shared issued
      refine ⟨holdsAfter, ?_⟩
      intro other program running
      dsimp only at running ⊢
      by_cases same : other = actor
      · subst other
        rw [Function.update_self] at running
        cases running
        exact remaining
      · rw [Function.update_of_ne same] at running
        exact (safe other program running).stable
          (contract.rely_trans other)
          (contract.guar_rely (Ne.symm same) holds holdsAfter guaranteed)
  | cut actor op next shared started released =>
      have holdsAfter := contract.release_invariant holds released
      refine ⟨holdsAfter, ?_⟩
      intro other program running
      dsimp only at running ⊢
      by_cases same : other = actor
      · subst other
        rw [Function.update_self] at running
        cases running
      · rw [Function.update_of_ne same] at running
        exact (safe other program running).stable
          (contract.rely_trans other)
          (contract.release_rely (Ne.symm same) holds released)
  | ambient shared moved =>
      refine ⟨contract.ambient_invariant holds moved, ?_⟩
      intro other program running
      exact (safe other program running).stable
        (contract.rely_trans other) (contract.ambient_rely holds moved)

/-- Any number of steps keeps the contract. -/
theorem Kept.reaches
    {contract : Contract machine α}
    {before after : Configuration I ι σ α}
    (kept : contract.Kept before)
    (reaches : machine.Reaches before after) :
    contract.Kept after := by
  induction reaches with
  | refl => exact kept
  | tail _ step inductionHypothesis => exact inductionHypothesis.step step

omit [DecidableEq ι] in
/-- An actor that has returned has established its postcondition, and it
still holds. -/
theorem Kept.returned
    {contract : Contract machine α}
    {config : Configuration I ι σ α}
    (kept : contract.Kept config)
    {actor : ι}
    {value : α}
    (returned : config.thread actor = some (.done value)) :
    contract.post actor value config.shared :=
  kept.2 actor _ returned _ (contract.rely_refl actor _) kept.1

/-- A relation that every kind of move respects relates the shared states at
the two ends of a run. -/
theorem Kept.history
    {contract : Contract machine α}
    {before after : Configuration I ι σ α}
    (history : σ → σ → Prop)
    (historyRefl : ∀ state, history state state)
    (historyTrans : ∀ first second third,
      history first second → history second third → history first third)
    (guarHistory : ∀ {actor first second},
      contract.invariant first → contract.invariant second →
        contract.guar actor first second → history first second)
    (releaseHistory : ∀ {actor first second},
      contract.invariant first → machine.release actor first second →
        history first second)
    (ambientHistory : ∀ {first second},
      contract.invariant first → machine.ambient first second →
        history first second)
    (kept : contract.Kept before)
    (reaches : machine.Reaches before after) :
    history before.shared after.shared := by
  induction reaches with
  | refl => exact historyRefl _
  | tail reached step inductionHypothesis =>
      obtain ⟨holds, safe⟩ := kept.reaches reached
      apply historyTrans _ _ _ inductionHypothesis
      cases step with
      | advance actor op next reply shared started issued =>
          obtain ⟨holdsAfter, guaranteed, _⟩ :=
            safe actor _ started _ (contract.rely_refl actor _) holds
              reply shared issued
          exact guarHistory holds holdsAfter guaranteed
      | cut actor op next shared started released =>
          exact releaseHistory holds released
      | ambient shared moved => exact ambientHistory holds moved

end Contract
end Concurrency
