import ModelKeep.Concurrency.Calls
import ModelKeep.Concurrency.Crash

/-!
# Runs that mirror each other

A run of a program under one semantics has a run under another one beside it,
when every operation that the program comes to can be answered alike.
-/

namespace Concurrency
namespace Program

variable {I : Interface} {σ τ α β ε : Type}

/-- What allows more calls has the same runs. -/
theorem Runs.mono
    {fewer more : Semantics I σ}
    (allows : ∀ op before reply after,
      fewer op before reply after → more op before reply after)
    {program : Program I α}
    {start final : σ}
    {result : α}
    (run : Runs fewer program start result final) :
    Runs more program start result final := by
  induction program generalizing start with
  | done value => exact run
  | call op next inductionHypothesis =>
      obtain ⟨reply, middle, issued, rest⟩ := run
      exact ⟨reply, middle, allows op start reply middle issued,
        inductionHypothesis reply rest⟩

/-- Every operation that the program comes to is fitting where it is
issued. -/
def Along (exec : Semantics I σ) (fits : I.Op → Prop) : Program I α → σ → Prop
  | .done _, _ => True
  | .call op next, start =>
      fits op ∧ ∀ reply middle, exec op start reply middle →
        Along exec fits (next reply) middle

section along

variable {exec : Semantics I σ} {fits : I.Op → Prop}

@[simp] theorem along_done
    {value : α}
    {start : σ} :
    Along exec fits (.done value : Program I α) start := trivial

@[simp] theorem along_call
    {op : I.Op}
    {next : I.Reply op → Program I α}
    {start : σ} :
    Along exec fits (.call op next) start ↔
      fits op ∧ ∀ reply middle, exec op start reply middle →
        Along exec fits (next reply) middle := Iff.rfl

theorem Along.bind
    {program : Program I α}
    {rest : α → Program I β}
    {start : σ}
    (first : Along exec fits program start)
    (second : ∀ value middle, Runs exec program start value middle →
      Along exec fits (rest value) middle) :
    Along exec fits (program >>= rest) start := by
  induction program generalizing start with
  | done value => exact second value start ⟨rfl, rfl⟩
  | call op next inductionHypothesis =>
      refine ⟨first.1, fun reply middle issued => ?_⟩
      exact inductionHypothesis reply (first.2 reply middle issued)
        fun value final run => second value final
          ⟨reply, middle, issued, run⟩

theorem Along.exceptBind
    {action : ExceptT ε (Program I) α}
    {rest : α → ExceptT ε (Program I) β}
    {start : σ}
    (first : Along exec fits action.run start)
    (second : ∀ value middle, Returns exec action start (.ok value) middle →
      Along exec fits (rest value).run middle) :
    Along exec fits (action >>= rest).run start := by
  rw [ExceptT.run_bind]
  apply Along.bind first
  intro outcome middle run
  cases outcome with
  | ok value => exact second value middle run
  | error error => trivial

/-- What fitting operations can do alike, the program can do alike. -/
theorem Along.exists_runs
    {other : Semantics I τ}
    {related : σ → τ → Prop}
    (alike : ∀ op start startToo reply middle, fits op →
      related start startToo → exec op start reply middle →
      ∃ middleToo, other op startToo reply middleToo ∧
        related middle middleToo)
    {program : Program I α}
    {start final : σ}
    {startToo : τ}
    {result : α}
    (along : Along exec fits program start)
    (beside : related start startToo)
    (run : Runs exec program start result final) :
    ∃ finalToo, Runs other program startToo result finalToo ∧
      related final finalToo := by
  induction program generalizing start startToo with
  | done value =>
      obtain ⟨rfl, rfl⟩ := run
      exact ⟨startToo, ⟨rfl, rfl⟩, beside⟩
  | call op next inductionHypothesis =>
      obtain ⟨reply, middle, issued, run⟩ := run
      obtain ⟨middleToo, issuedToo, besideToo⟩ :=
        alike op start startToo reply middle along.1 beside issued
      obtain ⟨finalToo, runToo, ends⟩ := inductionHypothesis reply
        (along.2 reply middle issued) besideToo run
      exact ⟨finalToo, ⟨reply, middleToo, issuedToo, runToo⟩, ends⟩

end along

/-- What holds beside a program holds beside the embedded one, when every
operation of the larger interface is one of the smaller. -/
theorem Guards.embed
    {J : Interface}
    {embedding : Embedding I J}
    {exec : Semantics I σ}
    {wide : Semantics J τ}
    {related : σ → τ → Prop}
    (mirrors : ∀ op start startToo reply after, related start startToo →
      wide (embedding.op op) startToo reply after →
      ∃ middle, exec op start (embedding.reply op reply) middle ∧
        related middle after)
    {program : Program I α}
    {intact : σ → Prop}
    {post : α → σ → Prop}
    {start : σ}
    {startToo : τ}
    (guards : Guards exec intact program post start)
    (beside : related start startToo) :
    Guards wide (fun state => ∃ inner, related inner state ∧ intact inner)
      (program.embed embedding)
      (fun value state => ∃ inner, related inner state ∧ post value inner)
      startToo := by
  induction program generalizing start startToo with
  | done value =>
      exact ⟨⟨start, beside, guards.1⟩, start, beside, guards.2⟩
  | call op next inductionHypothesis =>
      refine ⟨⟨start, beside, guards.1⟩, fun reply after issued => ?_⟩
      obtain ⟨middle, performed, besideToo⟩ :=
        mirrors op start startToo reply after beside issued
      exact inductionHypothesis _ (guards.2 _ middle performed) besideToo

end Program
end Concurrency
