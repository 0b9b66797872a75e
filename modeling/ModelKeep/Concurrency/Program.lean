import Mathlib.Logic.Relation

/-!
# Programs over atomic operations

A program is a finite tree of atomic operations on a shared state.  The same
program text is read in two ways: `Runs` executes it alone from start to end,
and the module `RelyGuarantee` lets any number of programs interleave their
operations.  `Ensures` is the weakest precondition of a solitary run.
-/

namespace Concurrency

/-- The atomic operations a program may issue, with the type of each reply. -/
structure Interface where
  /-- The operations. -/
  Op : Type
  /-- What an operation answers. -/
  Reply : Op → Type

/-- A program either has finished or issues one operation and continues with
its reply. -/
inductive Program (I : Interface) (α : Type) : Type
  | done (value : α)
  | call (op : I.Op) (next : I.Reply op → Program I α)

/-- What an operation may do to the state, and what it may reply. -/
abbrev Semantics (I : Interface) (σ : Type) : Type :=
  (op : I.Op) → σ → I.Reply op → σ → Prop

namespace Program

variable {I : Interface} {σ α β γ ε : Type}

/-- Sequential composition. -/
def bind : Program I α → (α → Program I β) → Program I β
  | .done value, rest => rest value
  | .call op next, rest => .call op fun reply => (next reply).bind rest

instance : Monad (Program I) where
  pure := .done
  bind := bind

@[simp] theorem pure_eq_done (value : α) :
    (pure value : Program I α) = .done value := rfl

@[simp] theorem done_bind
    (value : α)
    (rest : α → Program I β) :
    (.done value : Program I α) >>= rest = rest value := rfl

@[simp] theorem call_bind
    (op : I.Op)
    (next : I.Reply op → Program I α)
    (rest : α → Program I β) :
    (.call op next : Program I α) >>= rest =
      .call op fun reply => next reply >>= rest := rfl

theorem bind_done (program : Program I α) :
    (program >>= fun value => .done value) = program := by
  induction program with
  | done value => rfl
  | call op next inductionHypothesis =>
      rw [call_bind]
      congr 1
      funext reply
      exact inductionHypothesis reply

theorem bind_assoc
    (program : Program I α)
    (first : α → Program I β)
    (second : β → Program I γ) :
    program >>= first >>= second =
      program >>= fun value => first value >>= second := by
  induction program with
  | done value => rfl
  | call op next inductionHypothesis =>
      simp only [call_bind]
      congr 1
      funext reply
      exact inductionHypothesis reply

instance : LawfulMonad (Program I) :=
  LawfulMonad.mk' _ bind_done (fun _ _ => rfl) bind_assoc

/-- The program that issues one operation and returns its reply. -/
def perform (op : I.Op) : Program I (I.Reply op) :=
  .call op .done

@[simp] theorem perform_bind
    (op : I.Op)
    (rest : I.Reply op → Program I α) :
    perform op >>= rest = .call op rest := rfl

/-! ## Solitary runs -/

/-- A complete run with nothing in between: the program started in the first
state returns the value and leaves the second state. -/
def Runs (exec : Semantics I σ) :
    Program I α → σ → α → σ → Prop
  | .done value, start, result, final => result = value ∧ final = start
  | .call op next, start, result, final =>
      ∃ reply middle, exec op start reply middle ∧
        Runs exec (next reply) middle result final

@[simp] theorem runs_done
    (exec : Semantics I σ)
    (value result : α)
    (start final : σ) :
    Runs exec (.done value) start result final ↔
      result = value ∧ final = start := Iff.rfl

theorem runs_call
    (exec : Semantics I σ)
    (op : I.Op)
    (next : I.Reply op → Program I α)
    (start final : σ)
    (result : α) :
    Runs exec (.call op next) start result final ↔
      ∃ reply middle, exec op start reply middle ∧
        Runs exec (next reply) middle result final := Iff.rfl

theorem runs_perform
    {exec : Semantics I σ}
    {op : I.Op}
    {reply : I.Reply op}
    {start final : σ} :
    Runs exec (perform op) start reply final ↔
      exec op start reply final := by
  constructor
  · rintro ⟨answer, middle, issued, rfl, rfl⟩
    exact issued
  · intro issued
    exact ⟨reply, final, issued, rfl, rfl⟩

/-- A run of a composition passes through a result of its first part. -/
theorem runs_bind
    (exec : Semantics I σ)
    (program : Program I α)
    (rest : α → Program I β)
    (start final : σ)
    (result : β) :
    Runs exec (program >>= rest) start result final ↔
      ∃ value middle, Runs exec program start value middle ∧
        Runs exec (rest value) middle result final := by
  induction program generalizing start with
  | done value =>
      constructor
      · intro run
        exact ⟨value, start, ⟨rfl, rfl⟩, run⟩
      · rintro ⟨_, _, ⟨rfl, rfl⟩, run⟩
        exact run
  | call op next inductionHypothesis =>
      simp only [call_bind, runs_call, inductionHypothesis]
      constructor
      · rintro ⟨reply, after, issued, value, middle, first, second⟩
        exact ⟨value, middle, ⟨reply, after, issued, first⟩, second⟩
      · rintro ⟨value, middle, ⟨reply, after, issued, first⟩, second⟩
        exact ⟨reply, after, issued, value, middle, first, second⟩

/-- From this state the program has one run only. -/
def Settles (exec : Semantics I σ) (program : Program I α) (start : σ)
    (value : α) (final : σ) : Prop :=
  ∀ answer later, Runs exec program start answer later ↔
    answer = value ∧ later = final

@[simp] theorem settles_done
    {exec : Semantics I σ}
    {value : α}
    {start : σ} :
    Settles exec (.done value) start value start :=
  fun _ _ => Iff.rfl

theorem settles_bind
    {exec : Semantics I σ}
    {program : Program I α}
    {rest : α → Program I β}
    {start middle final : σ}
    {value : α}
    {answer : β}
    (first : Settles exec program start value middle)
    (second : Settles exec (rest value) middle answer final) :
    Settles exec (program >>= rest) start answer final := by
  intro result later
  rw [runs_bind, ← second]
  constructor
  · rintro ⟨found, between, run, remaining⟩
    obtain ⟨rfl, rfl⟩ := (first _ _).mp run
    exact remaining
  · intro remaining
    exact ⟨value, middle, (first _ _).mpr ⟨rfl, rfl⟩, remaining⟩

/-- When every operation can always answer, every program has a run. -/
theorem exists_runs
    {exec : Semantics I σ}
    (total : ∀ op start, ∃ reply final, exec op start reply final)
    (program : Program I α)
    (start : σ) :
    ∃ result final, Runs exec program start result final := by
  induction program generalizing start with
  | done value => exact ⟨value, start, rfl, rfl⟩
  | call op next inductionHypothesis =>
      obtain ⟨reply, middle, issued⟩ := total op start
      obtain ⟨result, final, remaining⟩ := inductionHypothesis reply middle
      exact ⟨result, final, reply, middle, issued, remaining⟩

/-- The run in which a function answers every operation. -/
def run (step : (op : I.Op) → σ → I.Reply op × σ) :
    Program I α → σ → α × σ
  | .done value, start => (value, start)
  | .call op next, start =>
      (next (step op start).1).run step (step op start).2

theorem runs_run
    {exec : Semantics I σ}
    {step : (op : I.Op) → σ → I.Reply op × σ}
    (allowed : ∀ op start, exec op start (step op start).1 (step op start).2)
    (program : Program I α)
    (start : σ) :
    Runs exec program start (program.run step start).1
      (program.run step start).2 := by
  induction program generalizing start with
  | done value => exact ⟨rfl, rfl⟩
  | call op next inductionHypothesis =>
      exact ⟨_, _, allowed op start, inductionHypothesis _ _⟩

/-- The run in which a function answers, as long as its answers are checked. -/
def trace
    (step : (op : I.Op) → σ → I.Reply op × σ)
    (allowed : I.Op → σ → Bool) :
    Program I α → σ → Option (α × σ)
  | .done value, start => some (value, start)
  | .call op next, start =>
      if allowed op start then
        (next (step op start).1).trace step allowed (step op start).2
      else none

theorem runs_of_trace
    {exec : Semantics I σ}
    {step : (op : I.Op) → σ → I.Reply op × σ}
    {allowed : I.Op → σ → Bool}
    (sound : ∀ op start, allowed op start = true →
      exec op start (step op start).1 (step op start).2)
    {program : Program I α}
    {start final : σ}
    {result : α}
    (traced : program.trace step allowed start = some (result, final)) :
    Runs exec program start result final := by
  induction program generalizing start with
  | done value =>
      cases traced
      exact ⟨rfl, rfl⟩
  | call op next inductionHypothesis =>
      rw [trace] at traced
      split at traced
      · next here =>
          exact ⟨_, _, sound op start here, inductionHypothesis _ traced⟩
      · cases traced

/-- What every answer keeps, a run keeps. -/
theorem run_keeps
    {step : (op : I.Op) → σ → I.Reply op × σ}
    {kept : σ → Prop}
    (keeps : ∀ op start, kept start → kept (step op start).2)
    (program : Program I α)
    {start : σ}
    (holds : kept start) :
    kept (program.run step start).2 := by
  induction program generalizing start with
  | done value => exact holds
  | call op next inductionHypothesis =>
      exact inductionHypothesis _ (keeps op start holds)

/-- The answers need to be allowed only where the run can come. -/
theorem runs_run_kept
    {exec : Semantics I σ}
    {step : (op : I.Op) → σ → I.Reply op × σ}
    {kept : σ → Prop}
    (allowed : ∀ op start, kept start →
      exec op start (step op start).1 (step op start).2)
    (keeps : ∀ op start, kept start → kept (step op start).2)
    (program : Program I α)
    {start : σ}
    (holds : kept start) :
    Runs exec program start (program.run step start).1
      (program.run step start).2 := by
  induction program generalizing start with
  | done value => exact ⟨rfl, rfl⟩
  | call op next inductionHypothesis =>
      exact ⟨_, _, allowed op start holds,
        inductionHypothesis _ (keeps op start holds)⟩

/-- The run in which a function answers is the only one. -/
theorem runs_step
    {step : (op : I.Op) → σ → I.Reply op × σ}
    {program : Program I α}
    {start final : σ}
    {result : α} :
    Runs (fun op before reply after => step op before = (reply, after))
        program start result final ↔
      program.run step start = (result, final) := by
  induction program generalizing start with
  | done value =>
      rw [runs_done, run, Prod.mk.injEq]
      exact and_congr eq_comm eq_comm
  | call op next inductionHypothesis =>
      rw [runs_call, run, ← inductionHypothesis]
      constructor
      · rintro ⟨reply, middle, answered, remaining⟩
        rw [answered]
        exact remaining
      · intro remaining
        exact ⟨_, _, rfl, remaining⟩

/-! ## Weakest preconditions -/

/-- Every solitary run from this state ends with the postcondition. -/
def Ensures (exec : Semantics I σ) :
    Program I α → (α → σ → Prop) → σ → Prop
  | .done value, post, start => post value start
  | .call op next, post, start =>
      ∀ reply middle, exec op start reply middle →
        Ensures exec (next reply) post middle

@[simp] theorem ensures_done
    (exec : Semantics I σ)
    (value : α)
    (post : α → σ → Prop)
    (start : σ) :
    Ensures exec (.done value) post start ↔ post value start := Iff.rfl

@[simp] theorem ensures_call
    (exec : Semantics I σ)
    (op : I.Op)
    (next : I.Reply op → Program I α)
    (post : α → σ → Prop)
    (start : σ) :
    Ensures exec (.call op next) post start ↔
      ∀ reply middle, exec op start reply middle →
        Ensures exec (next reply) post middle := Iff.rfl

theorem ensures_iff
    (exec : Semantics I σ)
    (program : Program I α)
    (post : α → σ → Prop)
    (start : σ) :
    Ensures exec program post start ↔
      ∀ result final, Runs exec program start result final →
        post result final := by
  induction program generalizing start with
  | done value => simp
  | call op next inductionHypothesis =>
      simp only [ensures_call, inductionHypothesis, runs_call]
      constructor
      · rintro ensured result final ⟨reply, middle, issued, remaining⟩
        exact ensured reply middle issued result final remaining
      · intro ensured reply middle issued result final remaining
        exact ensured result final ⟨reply, middle, issued, remaining⟩

theorem Ensures.of_runs
    {exec : Semantics I σ}
    {program : Program I α}
    {post : α → σ → Prop}
    {start final : σ}
    {result : α}
    (ensured : Ensures exec program post start)
    (run : Runs exec program start result final) :
    post result final :=
  (ensures_iff exec program post start).mp ensured result final run

@[simp] theorem ensures_bind
    (exec : Semantics I σ)
    (program : Program I α)
    (rest : α → Program I β)
    (post : β → σ → Prop)
    (start : σ) :
    Ensures exec (program >>= rest) post start ↔
      Ensures exec program
        (fun value middle => Ensures exec (rest value) post middle) start := by
  induction program generalizing start with
  | done value => simp
  | call op next inductionHypothesis =>
      simp only [call_bind, ensures_call, inductionHypothesis]

theorem Ensures.mono
    {exec : Semantics I σ}
    {program : Program I α}
    {weaker stronger : α → σ → Prop}
    {start : σ}
    (ensured : Ensures exec program stronger start)
    (implies : ∀ value final, stronger value final → weaker value final) :
    Ensures exec program weaker start := by
  rw [ensures_iff] at ensured ⊢
  intro result final run
  exact implies result final (ensured result final run)

/-! ## Early exits -/

/-- A program whose result may be an error, as a step of a longer one. -/
abbrev attempt (program : Program I (Except ε α)) :
    ExceptT ε (Program I) α := ExceptT.mk program

/-- A check that touches nothing. -/
def check (outcome : Except ε α) : ExceptT ε (Program I) α :=
  ExceptT.mk (pure outcome)

/-- A program that cannot fail, as a step of one that can. -/
def always (program : Program I α) : ExceptT ε (Program I) α :=
  ExceptT.mk (program >>= fun value => pure (.ok value))

@[simp] theorem run_check (outcome : Except ε α) :
    (check outcome : ExceptT ε (Program I) α).run = .done outcome := rfl

@[simp] theorem run_always (program : Program I α) :
    (always program : ExceptT ε (Program I) α).run =
      program >>= fun value => .done (.ok value) := rfl

/-- A run that stops early or continues with the value it obtained. -/
theorem runs_except_bind
    (exec : Semantics I σ)
    (program : ExceptT ε (Program I) α)
    (rest : α → ExceptT ε (Program I) β)
    (start final : σ)
    (result : Except ε β) :
    Runs exec (program >>= rest).run start result final ↔
      (∃ error, result = .error error ∧
        Runs exec program.run start (.error error) final) ∨
      ∃ value middle, Runs exec program.run start (.ok value) middle ∧
        Runs exec (rest value).run middle result final := by
  rw [ExceptT.run_bind, runs_bind]
  constructor
  · rintro ⟨outcome, middle, first, second⟩
    cases outcome with
    | error error =>
        obtain ⟨rfl, rfl⟩ := second
        exact Or.inl ⟨error, rfl, first⟩
    | ok value => exact Or.inr ⟨value, middle, first, second⟩
  · rintro (⟨error, rfl, first⟩ | ⟨value, middle, first, second⟩)
    · exact ⟨.error error, final, first, rfl, rfl⟩
    · exact ⟨.ok value, middle, first, second⟩

/-- A bind of programs with an error exit skips the rest after an error. -/
@[simp] theorem ensures_except_bind
    (exec : Semantics I σ)
    (program : ExceptT ε (Program I) α)
    (rest : α → ExceptT ε (Program I) β)
    (post : Except ε β → σ → Prop)
    (start : σ) :
    Ensures exec (program >>= rest).run post start ↔
      Ensures exec program.run
        (fun outcome middle =>
          match outcome with
          | .ok value => Ensures exec (rest value).run post middle
          | .error error => post (.error error) middle) start := by
  rw [ExceptT.run_bind, ensures_bind, ensures_iff, ensures_iff]
  apply forall_congr'
  intro outcome
  cases outcome <;> simp

/-! ## Actions that run alone -/

/-- An action that may stop early returns this and leaves that. -/
abbrev Returns (exec : Semantics I σ) (action : ExceptT ε (Program I) α)
    (before : σ) (outcome : Except ε α) (after : σ) : Prop :=
  action.run.Runs exec before outcome after

section returns

variable {exec : Semantics I σ} {before after : σ}

theorem returns_check
    {outcome result : Except ε α} :
    Returns exec (check outcome) before result after ↔
      result = outcome ∧ after = before := Iff.rfl

theorem returns_bind
    {action : ExceptT ε (Program I) α}
    {rest : α → ExceptT ε (Program I) β}
    {result : Except ε β} :
    Returns exec (action >>= rest) before result after ↔
      (∃ error, result = .error error ∧
        Returns exec action before (.error error) after) ∨
      ∃ value middle, Returns exec action before (.ok value) middle ∧
        Returns exec (rest value) middle result after :=
  runs_except_bind ..

/-- Success is success of both parts. -/
theorem returns_bind_ok
    {action : ExceptT ε (Program I) α}
    {rest : α → ExceptT ε (Program I) β}
    {result : β} :
    Returns exec (action >>= rest) before (.ok result) after ↔
      ∃ value middle, Returns exec action before (.ok value) middle ∧
        Returns exec (rest value) middle (.ok result) after := by
  rw [returns_bind]
  constructor
  · rintro (⟨error, failed, _⟩ | succeeded)
    · cases failed
    · exact succeeded
  · exact Or.inr

/-- A part that is known to succeed in one way. -/
theorem returns_bind_of
    {action : ExceptT ε (Program I) α}
    {rest : α → ExceptT ε (Program I) β}
    {result : Except ε β}
    {value : α}
    {middle : σ}
    (first : Settles exec action.run before (.ok value) middle) :
    Returns exec (action >>= rest) before result after ↔
      Returns exec (rest value) middle result after := by
  rw [returns_bind]
  constructor
  · rintro (⟨error, _, failed⟩ | ⟨found, later, succeeded, run⟩)
    · cases ((first _ _).mp failed).1
    · obtain ⟨same, rfl⟩ := (first _ _).mp succeeded
      cases same
      exact run
  · intro run
    exact Or.inr ⟨value, middle, (first _ _).mpr ⟨rfl, rfl⟩, run⟩

theorem returns_always
    {program : Program I α}
    {result : Except ε α} :
    Returns exec (always program) before result after ↔
      ∃ value, result = .ok value ∧
        program.Runs exec before value after := by
  rw [Returns, run_always, runs_bind]
  constructor
  · rintro ⟨value, middle, run, rfl, rfl⟩
    exact ⟨value, rfl, run⟩
  · rintro ⟨value, rfl, run⟩
    exact ⟨value, after, run, rfl, rfl⟩

/-- A step that a part looks at and goes on. -/
theorem returns_always_bind
    {program : Program I α}
    {rest : α → ExceptT ε (Program I) β}
    {result : Except ε β} :
    Returns exec (always program >>= rest) before result after ↔
      ∃ value middle, program.Runs exec before value middle ∧
        Returns exec (rest value) middle result after := by
  rw [returns_bind]
  constructor
  · rintro (⟨error, _, failed⟩ | ⟨value, middle, run, later⟩)
    · obtain ⟨_, same, _⟩ := returns_always.mp failed
      cases same
    · obtain ⟨_, same, run⟩ := returns_always.mp run
      cases same
      exact ⟨value, middle, run, later⟩
  · rintro ⟨value, middle, run, later⟩
    exact Or.inr ⟨value, middle, returns_always.mpr ⟨value, rfl, run⟩, later⟩

/-- A step that answers in one way. -/
theorem returns_always_of
    {program : Program I α}
    {rest : α → ExceptT ε (Program I) β}
    {result : Except ε β}
    {value : α}
    {middle : σ}
    (settled : Settles exec program before value middle) :
    Returns exec (always program >>= rest) before result after ↔
      Returns exec (rest value) middle result after := by
  rw [returns_always_bind]
  constructor
  · rintro ⟨answer, later, run, ends⟩
    obtain ⟨rfl, rfl⟩ := (settled _ _).mp run
    exact ends
  · intro ends
    exact ⟨value, middle, (settled _ _).mpr ⟨rfl, rfl⟩, ends⟩

theorem returns_check_bind
    {value : α}
    {rest : α → ExceptT ε (Program I) β}
    {result : Except ε β} :
    Returns exec (check (.ok value) >>= rest) before result after ↔
      Returns exec (rest value) before result after :=
  returns_bind_of fun _ _ => returns_check

theorem returns_check_error
    {error : ε}
    {rest : α → ExceptT ε (Program I) β}
    {result : Except ε β} :
    Returns exec (check (.error error) >>= rest) before result after ↔
      result = .error error ∧ after = before := by
  rw [returns_bind]
  constructor
  · rintro (⟨_, rfl, same, rfl⟩ | ⟨_, _, ⟨same, _⟩, _⟩)
    · cases same
      exact ⟨rfl, rfl⟩
    · cases same
  · rintro ⟨rfl, rfl⟩
    exact Or.inl ⟨error, rfl, rfl, rfl⟩

/-- An error conversion leaves successes alone. -/
theorem returns_mapError
    {ε' : Type}
    {convert : ε → ε'}
    {action : ExceptT ε (Program I) α}
    {result : Except ε' α} :
    Returns exec (attempt (action.run >>= fun outcome =>
        .done (outcome.mapError convert))) before result after ↔
      ∃ outcome, result = outcome.mapError convert ∧
        Returns exec action before outcome after := by
  change Runs exec (action.run >>= _) before result after ↔ _
  rw [runs_bind]
  constructor
  · rintro ⟨outcome, middle, run, rfl, rfl⟩
    exact ⟨outcome, rfl, run⟩
  · rintro ⟨outcome, rfl, run⟩
    exact ⟨outcome, after, run, rfl, rfl⟩

theorem returns_attempt
    {program : Program I (Except ε α)}
    {result : Except ε α} :
    Returns exec (attempt program) before result after ↔
      program.Runs exec before result after := Iff.rfl

end returns

/-! ## Success -/

/-- Whenever the program succeeds, the postcondition holds. -/
def Achieves (exec : Semantics I σ)
    (action : ExceptT ε (Program I) α) (post : α → σ → Prop)
    (start : σ) : Prop :=
  ∀ value final, Runs exec action.run start (.ok value) final →
    post value final

theorem achieves_bind
    {exec : Semantics I σ}
    {action : ExceptT ε (Program I) α}
    {rest : α → ExceptT ε (Program I) β}
    {post : β → σ → Prop}
    {start : σ} :
    Achieves exec (action >>= rest) post start ↔
      Achieves exec action
        (fun value middle => Achieves exec (rest value) post middle)
        start := by
  constructor
  · intro achieves value middle first result final second
    exact achieves result final
      ((runs_except_bind ..).mpr (Or.inr ⟨value, middle, first, second⟩))
  · intro achieves result final run
    rcases (runs_except_bind ..).mp run with
      ⟨error, failed, _⟩ | ⟨value, middle, first, second⟩
    · cases failed
    · exact achieves value middle first result final second

theorem achieves_check
    {exec : Semantics I σ}
    {outcome : Except ε α}
    {post : α → σ → Prop}
    {start : σ} :
    Achieves exec (check outcome) post start ↔
      ∀ value, outcome = .ok value → post value start := by
  constructor
  · intro achieves value same
    exact achieves value start ⟨same.symm, rfl⟩
  · rintro holds value final ⟨same, rfl⟩
    exact holds value same.symm

theorem Achieves.mono
    {exec : Semantics I σ}
    {action : ExceptT ε (Program I) α}
    {stronger weaker : α → σ → Prop}
    {start : σ}
    (achieves : Achieves exec action stronger start)
    (implies : ∀ value final, stronger value final → weaker value final) :
    Achieves exec action weaker start :=
  fun value final run => implies value final (achieves value final run)

end Program
end Concurrency
