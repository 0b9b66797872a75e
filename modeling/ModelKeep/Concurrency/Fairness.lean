import Mathlib.Logic.Relation
import Mathlib.Order.Filter.AtTopBot.Basic
import Mathlib.Order.Filter.Finite

/-!
# Endless runs

What happens in a run that never ends: the step at which something ceases to
hold, and what holds in the end for each of finitely many things.
-/

namespace Concurrency

variable {σ κ : Type*}

/-- Each state is a step after the one before. -/
def Endless (step : σ → σ → Prop) (run : ℕ → σ) : Prop :=
  ∀ moment, step (run moment) (run (moment + 1))

namespace Endless

variable {step : σ → σ → Prop} {run : ℕ → σ}

theorem reaches
    (endless : Endless step run)
    {now later : ℕ}
    (onward : now ≤ later) :
    Relation.ReflTransGen step (run now) (run later) := by
  induction later, onward using Nat.le_induction with
  | base => exact .refl
  | succ later _ inductionHypothesis =>
      exact inductionHypothesis.tail (endless later)

end Endless

/-- What does not hold for ever ceases to hold at some step. -/
theorem exists_last
    (run : ℕ → σ)
    (holds : σ → Prop)
    {now : ℕ}
    (start : holds (run now))
    (ceases : ∃ later, now ≤ later ∧ ¬holds (run later)) :
    ∃ last, now ≤ last ∧ holds (run last) ∧ ¬holds (run (last + 1)) := by
  by_contra never
  push Not at never
  obtain ⟨later, onward, ceased⟩ := ceases
  induction later, onward using Nat.le_induction with
  | base => exact ceased start
  | succ later onward inductionHypothesis =>
      exact inductionHypothesis fun holdsThen =>
        ceased (never later onward holdsThen)

/-- What comes about for each of finitely many things and then stays comes
about for all of them. -/
theorem eventually_forall
    (run : ℕ → σ)
    (holds : κ → σ → Prop)
    (things : Finset κ)
    (now : ℕ)
    (step_keeps : ∀ thing ∈ things, ∀ moment, now ≤ moment →
      holds thing (run moment) → holds thing (run (moment + 1)))
    (comes : ∀ thing ∈ things, ∃ moment, now ≤ moment ∧
      holds thing (run moment)) :
    ∃ moment, now ≤ moment ∧ ∀ later, moment ≤ later →
      ∀ thing ∈ things, holds thing (run later) := by
  have each : ∀ thing ∈ things,
      ∀ᶠ later in Filter.atTop, holds thing (run later) := by
    intro thing member
    obtain ⟨moment, onward, stands⟩ := comes thing member
    refine Filter.eventually_atTop.mpr ⟨moment, ?_⟩
    intro later afterwards
    induction later, afterwards using Nat.le_induction with
    | base => exact stands
    | succ later afterwards inductionHypothesis =>
        exact step_keeps thing member later (by omega) inductionHypothesis
  obtain ⟨moment, stands⟩ := Filter.eventually_atTop.mp
    ((Filter.eventually_all_finset things).mpr each)
  exact ⟨max now moment, le_max_left .., fun later onward thing member =>
    stands later (le_of_max_le_right onward) thing member⟩

end Concurrency
