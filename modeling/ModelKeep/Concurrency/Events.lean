import ModelKeep.Concurrency.Simulation

/-!
# A program and what happens beside it

One program runs while others act on the same state.  A history keeps what the
program was answered and what was done beside it, in order.  Seen from the
part of the state that the others leave alone, the program runs by itself.
-/

namespace Concurrency

open Program

variable {I : Interface} {σ τ ν α : Type}

/-- What a history keeps. -/
inductive Event (I : Interface) (ν : Type)
  | answered (op : I.Op) (reply : I.Reply op)
  | beside (act : ν)

/-- A program on its way. -/
structure Progress (I : Interface) (σ α : Type) where
  rest : Program I α
  state : σ

/-- The program issues its next operation, or something is done beside it. -/
inductive Moves (exec : Semantics I σ) (acts : σ → ν → σ → Prop) :
    Progress I σ α → Event I ν → Progress I σ α → Prop
  | answered
      {op : I.Op}
      {next : I.Reply op → Program I α}
      {reply : I.Reply op}
      {before after : σ}
      (issued : exec op before reply after) :
      Moves exec acts ⟨.call op next, before⟩ (.answered op reply)
        ⟨next reply, after⟩
  | beside
      {rest : Program I α}
      {act : ν}
      {before after : σ}
      (acted : acts before act after) :
      Moves exec acts ⟨rest, before⟩ (.beside act) ⟨rest, after⟩

/-- Any number of moves, with what the history kept of them. -/
inductive Follows (exec : Semantics I σ) (acts : σ → ν → σ → Prop)
    (start : Progress I σ α) : List (Event I ν) → Progress I σ α → Prop
  | rest : Follows exec acts start [] start
  | move
      {history : List (Event I ν)}
      {event : Event I ν}
      {middle final : Progress I σ α}
      (earlier : Follows exec acts start history middle)
      (last : Moves exec acts middle event final) :
      Follows exec acts start (history ++ [event]) final

/-- The answers are among those that were told. -/
def Heard (exec : Semantics I σ) (told : (op : I.Op) → I.Reply op → Prop) :
    Semantics I σ :=
  fun op before reply after => exec op before reply after ∧ told op reply

section follows

variable
  {exec : Semantics I σ}
  {acts : σ → ν → σ → Prop}
  {start final : Progress I σ α}
  {history : List (Event I ν)}

/-- What every move keeps, with the history as it grows, holds in the end. -/
theorem Follows.keeps
    (kept : List (Event I ν) → Progress I σ α → Prop)
    (keeps : ∀ {history event before after}, kept history before →
      Moves exec acts before event after → kept (history ++ [event]) after)
    (holds : kept [] start)
    (run : Follows exec acts start history final) :
    kept history final := by
  induction run with
  | rest => exact holds
  | move earlier last inductionHypothesis =>
      exact keeps inductionHypothesis last

/-- What the others leave alone, the program passes through as if it were by
itself, with the answers that the history kept. -/
theorem Follows.runs
    (run : Follows exec acts start history final)
    (view : σ → τ)
    {seen : Semantics I τ}
    {told : (op : I.Op) → I.Reply op → Prop}
    (answers : ∀ op before reply after, exec op before reply after →
      seen op (view before) reply (view after))
    (leaves : ∀ before act after, acts before act after →
      view after = view before)
    (heard : ∀ op reply, .answered op reply ∈ history → told op reply)
    {result : α}
    {last : τ}
    (remaining : Runs (Heard seen told) final.rest (view final.state) result
      last) :
    Runs (Heard seen told) start.rest (view start.state) result last := by
  induction run with
  | rest => exact remaining
  | @move history event middle final earlier move inductionHypothesis =>
      refine inductionHypothesis (fun op reply kept =>
        heard op reply (List.mem_append_left _ kept)) ?_
      cases move with
      | @answered op next reply before after issued =>
          have toldHere : told op reply :=
            heard op reply (List.mem_append_right _ (List.mem_singleton_self _))
          exact ⟨reply, view after, ⟨answers _ _ _ _ issued, toldHere⟩,
            remaining⟩
      | beside acted =>
          rw [leaves _ _ _ acted] at remaining
          exact remaining

theorem Follows.after
    {event : Event I ν}
    {middle : Progress I σ α}
    (first : Moves exec acts start event middle)
    (run : Follows exec acts middle history final) :
    Follows exec acts start (event :: history) final := by
  induction run with
  | rest => exact .move .rest first
  | move earlier last inductionHypothesis =>
      exact .move inductionHypothesis last

end follows

/-! ## Schedules -/

section schedules

variable (step : (op : I.Op) → σ → I.Reply op × σ) (act : σ → ν × σ)

/-- The moves of a schedule, where functions answer: an entry says whether
something is done beside the program. -/
def play :
    List Bool → Program I α → σ → List (Event I ν) × Progress I σ α
  | [], rest, state => ([], ⟨rest, state⟩)
  | true :: schedule, rest, state =>
      let played := play schedule rest (act state).2
      (.beside (act state).1 :: played.1, played.2)
  | false :: _, .done value, state => ([], ⟨.done value, state⟩)
  | false :: schedule, .call op next, state =>
      let answered := step op state
      let played := play schedule (next answered.1) answered.2
      (.answered op answered.1 :: played.1, played.2)

variable {step act}

theorem follows_play
    {exec : Semantics I σ}
    {acts : σ → ν → σ → Prop}
    (allowed : ∀ op state, exec op state (step op state).1 (step op state).2)
    (acted : ∀ state, acts state (act state).1 (act state).2)
    (schedule : List Bool)
    (rest : Program I α)
    (state : σ) :
    Follows exec acts ⟨rest, state⟩ (play step act schedule rest state).1
      (play step act schedule rest state).2 := by
  induction schedule generalizing rest state with
  | nil => exact .rest
  | cons entry schedule inductionHypothesis =>
      cases entry with
      | true => exact .after (.beside (acted state)) (inductionHypothesis ..)
      | false =>
          cases rest with
          | done value => exact .rest
          | call op next =>
              exact .after (.answered (allowed op state))
                (inductionHypothesis ..)

end schedules

end Concurrency
