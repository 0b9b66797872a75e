import Mathlib.Data.List.Basic
import Mathlib.Logic.Function.Basic
import Mathlib.Logic.Relation

/-!
# Passes that are cut off and repeated

A pass does some acts one after the other; an act that fails ends it.  A pass
that is cut off has done some first part of them.  Where a pass that is
repeated changes nothing, the passes that were cut off before a whole one do
not show in what it leaves.
-/

namespace Replay

variable {Act State : Type*}

/-- The acts one after the other. -/
def replay (act : Act → State → Option State) :
    List Act → State → Option State
  | [], state => some state
  | first :: rest, state => (act first state).bind (replay act rest)

/-- A pass from the first state was cut off in the second. -/
def CutPass (act : Act → State → Option State) (acts : List Act)
    (start state : State) : Prop :=
  ∃ done, done <+: acts ∧ replay act done start = some state

/-- No pass changes anything when it is done once more. -/
def Repeats (act : Act → State → Option State) : Prop :=
  ∀ acts start state, replay act acts start = some state →
    replay act acts state = some state

section passes

variable {act : Act → State → Option State} {acts : List Act}
  {start state final : State}

@[simp] theorem replay_nil : replay act [] start = some start := rfl

theorem replay_cons (first : Act) (rest : List Act) :
    replay act (first :: rest) start =
      (act first start).bind (replay act rest) := rfl

@[simp] theorem replay_singleton (only : Act) :
    replay act [only] start = act only start := by
  rw [replay_cons]
  cases act only start <;> rfl

theorem replay_append (first second : List Act) :
    replay act (first ++ second) start =
      (replay act first start).bind (replay act second) := by
  induction first generalizing start with
  | nil => rfl
  | cons item rest inductionHypothesis =>
      rw [List.cons_append, replay_cons, replay_cons, Option.bind_assoc]
      congr 1
      funext middle
      exact inductionHypothesis

theorem CutPass.refl (act : Act → State → Option State) (acts : List Act)
    (start : State) :
    CutPass act acts start start :=
  ⟨[], List.nil_prefix, rfl⟩

/-- A whole pass is cut off at its end. -/
theorem CutPass.whole (done : replay act acts start = some state) :
    CutPass act acts start state :=
  ⟨acts, List.prefix_rfl, done⟩

theorem CutPass.append
    (cut : CutPass act acts start state)
    (more : List Act) :
    CutPass act (acts ++ more) start state := by
  obtain ⟨done, first, reached⟩ := cut
  exact ⟨done, first.trans (List.prefix_append ..), reached⟩

theorem CutPass.after
    {earlier : List Act}
    {middle : State}
    (whole : replay act earlier start = some middle)
    (cut : CutPass act acts middle state) :
    CutPass act (earlier ++ acts) start state := by
  obtain ⟨done, first, reached⟩ := cut
  refine ⟨earlier ++ done, (List.prefix_append_right_inj earlier).mpr first,
    ?_⟩
  rw [replay_append, whole]
  exact reached

/-- A pass does the same after one that was cut off. -/
theorem Repeats.replay_eq
    (repeats : Repeats act)
    (cut : CutPass act acts start state) :
    replay act acts state = replay act acts start := by
  obtain ⟨done, ⟨rest, rfl⟩, reached⟩ := cut
  have again := repeats done start state reached
  rw [replay_append, replay_append, again, reached]

/-- However many passes were cut off before it. -/
theorem Repeats.replay_eq_of_cuts
    (repeats : Repeats act)
    (cuts : Relation.ReflTransGen (CutPass act acts) start state) :
    replay act acts state = replay act acts start := by
  induction cuts with
  | refl => rfl
  | tail _ cut inductionHypothesis =>
      rw [repeats.replay_eq cut, inductionHypothesis]

/-! ### Passes over what is settled -/

/-- What an act settles, and every other keeps, holds at the end. -/
theorem settled_of_replay
    {settled : Act → State → Prop}
    (settles : ∀ item before after, act item before = some after →
      settled item after)
    (stays : ∀ item other before after, settled item before →
      act other before = some after → settled item after)
    (pass : replay act acts start = some state) :
    ∀ item ∈ acts, settled item state := by
  have later : ∀ item before, settled item before →
      ∀ rest, replay act rest before = some state → settled item state := by
    intro item before holds rest
    induction rest generalizing before with
    | nil =>
        rintro ⟨⟩
        exact holds
    | cons other rest inductionHypothesis =>
        intro remaining
        obtain ⟨middle, acted, remaining⟩ :=
          Option.bind_eq_some_iff.mp remaining
        exact inductionHypothesis middle
          (stays item other before middle holds acted) remaining
  induction acts generalizing start with
  | nil => simp
  | cons first rest inductionHypothesis =>
      obtain ⟨middle, acted, remaining⟩ := Option.bind_eq_some_iff.mp pass
      intro item member
      rcases List.mem_cons.mp member with rfl | among
      · exact later item middle (settles item start middle acted) rest
          remaining
      · exact inductionHypothesis remaining item among

/-- Acts that are settled do not fail. -/
theorem replay_of_settled
    {settled : Act → State → Prop}
    {write : State → Act → State}
    (stays : ∀ item other before after, settled item before →
      act other before = some after → settled item after)
    (writes : ∀ item before, settled item before →
      act item before = some (write before item))
    (ready : ∀ item ∈ acts, settled item start) :
    replay act acts start = some (acts.foldl write start) := by
  induction acts generalizing start with
  | nil => rfl
  | cons first rest inductionHypothesis =>
      obtain ⟨now, later⟩ := List.forall_mem_cons.mp ready
      have acted := writes first start now
      rw [replay_cons, acted, List.foldl_cons]
      apply inductionHypothesis
      intro item member
      exact stays item first start _ (later item member) acted

/-- A pass can be repeated when it settles what it does and then only writes
again what it wrote. -/
theorem repeats_of_settled
    {settled : Act → State → Prop}
    {write : State → Act → State}
    (settles : ∀ item before after, act item before = some after →
      settled item after)
    (stays : ∀ item other before after, settled item before →
      act other before = some after → settled item after)
    (writes : ∀ item before, settled item before →
      act item before = some (write before item))
    (absorbs : ∀ acts before after, replay act acts before = some after →
      acts.foldl write after = after) :
    Repeats act := by
  intro acts before after pass
  rw [replay_of_settled stays writes
    (settled_of_replay settles stays pass), absorbs acts before after pass]

end passes

/-! ## Assignments -/

section assign

variable {Key Value : Type*} [DecidableEq Key]

/-- The assignments one after the other. -/
def assign : List (Key × Value) → (Key → Value) → Key → Value
  | [], values => values
  | (key, value) :: rest, values =>
      assign rest (Function.update values key value)

/-- Either a key is not assigned to, or what it had before does not
matter. -/
theorem assign_eq_or (writes : List (Key × Value)) (key : Key) :
    (∀ values, assign writes values key = values key) ∨
      ∃ value, ∀ values, assign writes values key = value := by
  induction writes with
  | nil => exact Or.inl fun _ => rfl
  | cons write rest inductionHypothesis =>
      obtain ⟨name, value⟩ := write
      rcases inductionHypothesis with untouched | ⟨last, fixed⟩
      · by_cases same : key = name
        · subst same
          refine Or.inr ⟨value, fun values => ?_⟩
          rw [assign, untouched, Function.update_self]
        · refine Or.inl fun values => ?_
          rw [assign, untouched, Function.update_of_ne same]
      · exact Or.inr ⟨last, fun values => fixed _⟩

/-- Assignments that are repeated change nothing. -/
theorem assign_assign
    (writes : List (Key × Value))
    (values : Key → Value) :
    assign writes (assign writes values) = assign writes values := by
  funext key
  rcases assign_eq_or writes key with untouched | ⟨last, fixed⟩
  · exact untouched _
  · rw [fixed, fixed]

theorem assign_append
    (first second : List (Key × Value))
    (values : Key → Value) :
    assign (first ++ second) values = assign second (assign first values) := by
  induction first generalizing values with
  | nil => rfl
  | cons write rest inductionHypothesis => exact inductionHypothesis _

/-- What holds of the values before and of those assigned holds of the values
after. -/
theorem assign_keeps
    {holds : Value → Prop}
    {writes : List (Key × Value)}
    {values : Key → Value}
    {key : Key}
    (before : holds (values key))
    (written : ∀ write ∈ writes, holds write.2) :
    holds (assign writes values key) := by
  induction writes generalizing values with
  | nil => exact before
  | cons write rest inductionHypothesis =>
      apply inductionHypothesis
      · by_cases same : key = write.1
        · rw [same, Function.update_self]
          exact written write (List.mem_cons_self ..)
        · rwa [Function.update_of_ne same]
      · exact fun later member =>
          written later (List.mem_cons_of_mem _ member)

end assign

end Replay
