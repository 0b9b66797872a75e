import ModelKeep.Concurrency.Program

/-!
# Programs that may be cut off

A program that is cut off has issued some first part of its operations and
leaves the state as it is.  `Cut` are the states it may leave, and `Guards` is
the weakest precondition that speaks of them: whatever the program passes
through is intact, and if it finishes, the postcondition holds.  `Only` is the
footprint of a program, which says what all of this leaves alone.
-/

namespace Concurrency
namespace Program

variable {I : Interface} {σ α β ε : Type}

/-- Some first part of the program leads from the first state to the
second. -/
def Cut (exec : Semantics I σ) : Program I α → σ → σ → Prop
  | .done _, start, state => state = start
  | .call op next, start, state =>
      state = start ∨ ∃ reply middle, exec op start reply middle ∧
        Cut exec (next reply) middle state

@[simp] theorem cut_done
    {exec : Semantics I σ}
    {value : α}
    {start state : σ} :
    Cut exec (.done value : Program I α) start state ↔ state = start :=
  Iff.rfl

/-- A program may be cut off before its first operation. -/
theorem cut_refl
    {exec : Semantics I σ}
    (program : Program I α)
    (start : σ) :
    Cut exec program start start := by
  cases program with
  | done value => rfl
  | call op next => exact Or.inl rfl

/-- A whole run is cut off at its end. -/
theorem Runs.cut
    {exec : Semantics I σ}
    {program : Program I α}
    {start final : σ}
    {result : α}
    (run : Runs exec program start result final) :
    Cut exec program start final := by
  induction program generalizing start with
  | done value => exact run.2
  | call op next inductionHypothesis =>
      obtain ⟨reply, middle, issued, remaining⟩ := run
      exact Or.inr ⟨reply, middle, issued,
        inductionHypothesis reply remaining⟩

/-- A program runs on as long as every operation can answer in the states it
passes through. -/
theorem exists_runs_of_cut
    {exec : Semantics I σ}
    {program : Program I α}
    {start : σ}
    (total : ∀ op state, Cut exec program start state →
      ∃ reply final, exec op state reply final) :
    ∃ result final, Runs exec program start result final := by
  induction program generalizing start with
  | done value => exact ⟨value, start, rfl, rfl⟩
  | call op next inductionHypothesis =>
      obtain ⟨reply, middle, issued⟩ := total op start (Or.inl rfl)
      obtain ⟨result, final, remaining⟩ :=
        inductionHypothesis reply fun op state cut =>
          total op state (Or.inr ⟨reply, middle, issued, cut⟩)
      exact ⟨result, final, reply, middle, issued, remaining⟩

/-- Every state the program passes through is intact, and it ends with the
postcondition. -/
def Guards (exec : Semantics I σ) (intact : σ → Prop) :
    Program I α → (α → σ → Prop) → σ → Prop
  | .done value, post, start => intact start ∧ post value start
  | .call op next, post, start =>
      intact start ∧ ∀ reply middle, exec op start reply middle →
        Guards exec intact (next reply) post middle

@[simp] theorem guards_done
    {exec : Semantics I σ}
    {intact : σ → Prop}
    {value : α}
    {post : α → σ → Prop}
    {start : σ} :
    Guards exec intact (.done value) post start ↔
      intact start ∧ post value start := Iff.rfl

theorem Guards.intact
    {exec : Semantics I σ}
    {intact : σ → Prop}
    {program : Program I α}
    {post : α → σ → Prop}
    {start : σ}
    (guards : Guards exec intact program post start) :
    intact start := by
  cases program with
  | done value => exact guards.1
  | call op next => exact guards.1

/-- Wherever the program is cut off, the state is intact. -/
theorem Guards.of_cut
    {exec : Semantics I σ}
    {intact : σ → Prop}
    {program : Program I α}
    {post : α → σ → Prop}
    {start state : σ}
    (guards : Guards exec intact program post start)
    (cut : Cut exec program start state) :
    intact state := by
  induction program generalizing start with
  | done value =>
      rw [cut_done] at cut
      rw [cut]
      exact guards.intact
  | call op next inductionHypothesis =>
      rcases cut with rfl | ⟨reply, middle, issued, remaining⟩
      · exact guards.intact
      · exact inductionHypothesis reply (guards.2 reply middle issued)
          remaining

/-- A program that finishes has established its postcondition. -/
theorem Guards.of_runs
    {exec : Semantics I σ}
    {intact : σ → Prop}
    {program : Program I α}
    {post : α → σ → Prop}
    {start final : σ}
    {result : α}
    (guards : Guards exec intact program post start)
    (run : Runs exec program start result final) :
    intact final ∧ post result final := by
  induction program generalizing start with
  | done value =>
      obtain ⟨rfl, rfl⟩ := run
      exact guards
  | call op next inductionHypothesis =>
      obtain ⟨reply, middle, issued, remaining⟩ := run
      exact inductionHypothesis reply (guards.2 reply middle issued) remaining

theorem Guards.mono
    {exec : Semantics I σ}
    {intact : σ → Prop}
    {program : Program I α}
    {stronger weaker : α → σ → Prop}
    {start : σ}
    (guards : Guards exec intact program stronger start)
    (implies : ∀ value final, intact final → stronger value final →
      weaker value final) :
    Guards exec intact program weaker start := by
  induction program generalizing start with
  | done value => exact ⟨guards.1, implies value start guards.1 guards.2⟩
  | call op next inductionHypothesis =>
      exact ⟨guards.1, fun reply middle issued =>
        inductionHypothesis reply (guards.2 reply middle issued)⟩

/-- A program also ends in a state that is intact. -/
theorem Guards.ends
    {exec : Semantics I σ}
    {intact : σ → Prop}
    {program : Program I α}
    {post : α → σ → Prop}
    {start : σ}
    (guards : Guards exec intact program post start) :
    Guards exec intact program
      (fun value final => intact final ∧ post value final) start :=
  guards.mono fun _ _ => And.intro

/-- What is intact by a stricter measure is intact. -/
theorem Guards.widen
    {exec : Semantics I σ}
    {strict lax : σ → Prop}
    {program : Program I α}
    {post : α → σ → Prop}
    {start : σ}
    (guards : Guards exec strict program post start)
    (implies : ∀ state, strict state → lax state) :
    Guards exec lax program post start := by
  induction program generalizing start with
  | done value => exact ⟨implies start guards.1, guards.2⟩
  | call op next inductionHypothesis =>
      exact ⟨implies start guards.1, fun reply middle issued =>
        inductionHypothesis reply (guards.2 reply middle issued)⟩

/-- The rule for one operation. -/
theorem guards_perform
    {exec : Semantics I σ}
    {intact : σ → Prop}
    {op : I.Op}
    {post : I.Reply op → σ → Prop}
    {start : σ}
    (here : intact start)
    (ends : ∀ reply after, exec op start reply after →
      intact after ∧ post reply after) :
    Guards exec intact (Program.perform op) post start :=
  ⟨here, ends⟩

/-- The postcondition may speak of the run that led to it. -/
theorem Guards.reached
    {exec : Semantics I σ}
    {intact : σ → Prop}
    {program : Program I α}
    {post : α → σ → Prop}
    {start : σ}
    (guards : Guards exec intact program post start) :
    Guards exec intact program
      (fun value final => post value final ∧
        Runs exec program start value final) start := by
  induction program generalizing start with
  | done value => exact ⟨guards.1, guards.2, rfl, rfl⟩
  | call op next inductionHypothesis =>
      refine ⟨guards.1, fun reply middle issued => ?_⟩
      apply (inductionHypothesis reply (guards.2 reply middle issued)).mono
      rintro value final _ ⟨held, remaining⟩
      exact ⟨held, reply, middle, issued, remaining⟩

/-- The composition rule. -/
theorem Guards.bind
    {exec : Semantics I σ}
    {intact : σ → Prop}
    {program : Program I α}
    {rest : α → Program I β}
    {post : β → σ → Prop}
    {start : σ}
    (guards : Guards exec intact program
      (fun value middle => Guards exec intact (rest value) post middle)
      start) :
    Guards exec intact (program >>= rest) post start := by
  induction program generalizing start with
  | done value => exact guards.2
  | call op next inductionHypothesis =>
      exact ⟨guards.1, fun reply middle issued =>
        inductionHypothesis reply (guards.2 reply middle issued)⟩

/-- The composition rule for programs that may stop with an error. -/
theorem Guards.exceptBind
    {exec : Semantics I σ}
    {intact : σ → Prop}
    {program : ExceptT ε (Program I) α}
    {rest : α → ExceptT ε (Program I) β}
    {post : Except ε β → σ → Prop}
    {start : σ}
    (guards : Guards exec intact program.run
      (fun outcome middle =>
        match outcome with
        | .ok value => Guards exec intact (rest value).run post middle
        | .error error => post (.error error) middle) start) :
    Guards exec intact (program >>= rest).run post start := by
  rw [ExceptT.run_bind]
  apply Guards.bind
  apply guards.mono
  intro outcome middle whole held
  cases outcome with
  | ok value => exact held
  | error error => exact ⟨whole, held⟩

/-! ## Logs -/

/-- An operation that was issued, and what it answered. -/
abbrev Event (I : Interface) : Type := Σ op : I.Op, I.Reply op

/-- The semantics that keeps a log. -/
def logged (exec : Semantics I σ) : Semantics I (σ × List (Event I)) :=
  fun op before reply after =>
    exec op before.1 reply after.1 ∧ after.2 = before.2 ++ [⟨op, reply⟩]

/-- A function that answers, with its log. -/
def logStep (step : (op : I.Op) → σ → I.Reply op × σ)
    (op : I.Op) (before : σ × List (Event I)) :
    I.Reply op × (σ × List (Event I)) :=
  let answered := step op before.1
  (answered.1, (answered.2, before.2 ++ [⟨op, answered.1⟩]))

/-- The run in which a function answers has a log. -/
theorem runs_logged_run
    {exec : Semantics I σ}
    {step : (op : I.Op) → σ → I.Reply op × σ}
    (allowed : ∀ op start, exec op start (step op start).1 (step op start).2)
    (program : Program I α)
    (start : σ × List (Event I)) :
    Runs (logged exec) program start (program.run (logStep step) start).1
      (program.run (logStep step) start).2 :=
  runs_run (fun op before => ⟨allowed op before.1, rfl⟩) program start

/-- A program that is cut off with a log is cut off. -/
theorem Cut.of_logged
    {exec : Semantics I σ}
    {program : Program I α}
    {start state : σ × List (Event I)}
    (cut : Cut (logged exec) program start state) :
    Cut exec program start.1 state.1 := by
  induction program generalizing start with
  | done value =>
      rw [cut_done] at cut
      rw [cut]
      exact rfl
  | call op next inductionHypothesis =>
      rcases cut with rfl | ⟨reply, middle, issued, remaining⟩
      · exact Or.inl rfl
      · exact Or.inr ⟨reply, middle.1, issued.1,
          inductionHypothesis reply remaining⟩

/-- Every program that is cut off has a log. -/
theorem Cut.exists_logged
    {exec : Semantics I σ}
    {program : Program I α}
    {start state : σ}
    (cut : Cut exec program start state)
    (log : List (Event I)) :
    ∃ events, Cut (logged exec) program (start, log) (state, events) := by
  induction program generalizing start log with
  | done value =>
      rw [cut_done] at cut
      rw [cut]
      exact ⟨log, rfl⟩
  | call op next inductionHypothesis =>
      rcases cut with rfl | ⟨reply, middle, issued, remaining⟩
      · exact ⟨log, Or.inl rfl⟩
      · obtain ⟨events, later⟩ :=
          inductionHypothesis reply remaining (log ++ [⟨op, reply⟩])
        exact ⟨events, Or.inr ⟨reply, (middle, log ++ [⟨op, reply⟩]),
          ⟨issued, rfl⟩, later⟩⟩

/-- Every run has a log. -/
theorem Runs.exists_logged
    {exec : Semantics I σ}
    {program : Program I α}
    {start final : σ}
    {result : α}
    (run : Runs exec program start result final)
    (log : List (Event I)) :
    ∃ events, Runs (logged exec) program (start, log) result
      (final, events) := by
  induction program generalizing start log with
  | done value =>
      obtain ⟨rfl, rfl⟩ := run
      exact ⟨log, rfl, rfl⟩
  | call op next inductionHypothesis =>
      obtain ⟨reply, middle, issued, remaining⟩ := run
      obtain ⟨events, later⟩ :=
        inductionHypothesis reply remaining (log ++ [⟨op, reply⟩])
      exact ⟨events, reply, (middle, log ++ [⟨op, reply⟩]),
        ⟨issued, rfl⟩, later⟩

/-! ## Footprints -/

/-- The program issues allowed operations only, whatever they answer. -/
def Only (allowed : I.Op → Prop) : Program I α → Prop
  | .done _ => True
  | .call op next => allowed op ∧ ∀ reply, Only allowed (next reply)

@[simp] theorem only_done
    {allowed : I.Op → Prop}
    {value : α} :
    Only allowed (.done value : Program I α) := trivial

@[simp] theorem only_call
    {allowed : I.Op → Prop}
    {op : I.Op}
    {next : I.Reply op → Program I α} :
    Only allowed (.call op next) ↔
      allowed op ∧ ∀ reply, Only allowed (next reply) := Iff.rfl

theorem only_true (program : Program I α) :
    Only (fun _ => True) program := by
  induction program with
  | done value => trivial
  | call op next inductionHypothesis => exact ⟨trivial, inductionHypothesis⟩

theorem Only.bind
    {allowed : I.Op → Prop}
    {program : Program I α}
    {rest : α → Program I β}
    (first : Only allowed program)
    (second : ∀ value, Only allowed (rest value)) :
    Only allowed (program >>= rest) := by
  induction program with
  | done value => exact second value
  | call op next inductionHypothesis =>
      exact ⟨first.1, fun reply => inductionHypothesis reply (first.2 reply)⟩

theorem Only.exceptBind
    {allowed : I.Op → Prop}
    {program : ExceptT ε (Program I) α}
    {rest : α → ExceptT ε (Program I) β}
    (first : Only allowed program.run)
    (second : ∀ value, Only allowed (rest value).run) :
    Only allowed (program >>= rest).run := by
  rw [ExceptT.run_bind]
  apply Only.bind first
  intro outcome
  cases outcome with
  | ok value => exact second value
  | error error => trivial

theorem Only.mono
    {allowed wider : I.Op → Prop}
    {program : Program I α}
    (only : Only allowed program)
    (implies : ∀ op, allowed op → wider op) :
    Only wider program := by
  induction program with
  | done value => trivial
  | call op next inductionHypothesis =>
      exact ⟨implies op only.1,
        fun reply => inductionHypothesis reply (only.2 reply)⟩

/-- What allowed operations keep, the program keeps. -/
theorem Only.guards
    {exec : Semantics I σ}
    {allowed : I.Op → Prop}
    {kept : σ → Prop}
    (keeps : ∀ op before reply after, allowed op →
      exec op before reply after → kept before → kept after)
    {program : Program I α}
    (only : Only allowed program)
    {start : σ}
    (holds : kept start) :
    Guards exec kept program (fun _ _ => True) start := by
  induction program generalizing start with
  | done value => exact ⟨holds, trivial⟩
  | call op next inductionHypothesis =>
      refine ⟨holds, fun reply middle issued => ?_⟩
      exact inductionHypothesis reply (only.2 reply)
        (keeps op start reply middle only.1 issued holds)

theorem Only.keeps
    {exec : Semantics I σ}
    {allowed : I.Op → Prop}
    {kept : σ → Prop}
    (keeps : ∀ op before reply after, allowed op →
      exec op before reply after → kept before → kept after)
    {program : Program I α}
    (only : Only allowed program)
    {start final : σ}
    {result : α}
    (run : Runs exec program start result final)
    (holds : kept start) :
    kept final :=
  ((only.guards keeps holds).of_runs run).1

/-- When allowed operations can always answer, the program has a run. -/
theorem Only.exists_runs
    {exec : Semantics I σ}
    {allowed : I.Op → Prop}
    (total : ∀ op start, allowed op →
      ∃ reply final, exec op start reply final)
    {program : Program I α}
    (only : Only allowed program)
    (start : σ) :
    ∃ result final, Runs exec program start result final := by
  induction program generalizing start with
  | done value => exact ⟨value, start, rfl, rfl⟩
  | call op next inductionHypothesis =>
      obtain ⟨reply, middle, issued⟩ := total op start only.1
      obtain ⟨result, final, remaining⟩ :=
        inductionHypothesis reply (only.2 reply) middle
      exact ⟨result, final, reply, middle, issued, remaining⟩

end Program
end Concurrency
