import Mathlib.Logic.Basic

/-!
# The cancellation token

One token decides whether an acquisition publishes or is recorded cancelled,
and owns the helper process while one runs.  Every operation holds the lock of
the token, so each is one function from state to state.
-/

namespace ModelKeep

/-- Where a token stands. -/
inductive CancellationPhase
  | running
  | cancelled
  | committing
  deriving DecidableEq

/-- What a call of `cancel` answers. -/
inductive CancelOutcome
  | cancelled
  | alreadyCancelled
  | alreadyFinished
  deriving DecidableEq

/-- The state behind the lock of a token.  The helper is known by its process
id. -/
structure Cancellation where
  phase : CancellationPhase
  child : Option Nat
  deriving DecidableEq

/-- What `reclaim` hands back. -/
inductive ReclaimedChild
  | running (child : Nat)
  | reaped
  deriving DecidableEq

namespace Cancellation

/-- `Cancellation::new`. -/
def new : Cancellation := ⟨.running, none⟩

def isCancelled (token : Cancellation) : Bool :=
  token.phase = .cancelled

/-- Stops the acquisition; a helper that is still owned here is killed and
reaped. -/
def cancel (token : Cancellation) : CancelOutcome × Cancellation :=
  match token.phase with
  | .committing => (.alreadyFinished, token)
  | .cancelled => (.alreadyCancelled, token)
  | .running => (.cancelled, ⟨.cancelled, none⟩)

/-- Claims the right to publish. -/
def commit (token : Cancellation) : Bool × Cancellation :=
  if token.phase = .running then
    (true, { token with phase := .committing })
  else
    (false, token)

/-- Hands a spawned helper to the token, which stops it at once when a
cancellation came first. -/
def attach (token : Cancellation) (child : Nat) : Bool × Cancellation :=
  if token.phase = .cancelled then
    (false, token)
  else
    (true, { token with child := some child })

/-- Takes the helper back once its output has ended. -/
def reclaim (token : Cancellation) : ReclaimedChild × Cancellation :=
  match token.child with
  | some child => (.running child, { token with child := none })
  | none => (.reaped, token)

/-! ## The token only moves away from `running` -/

theorem cancel_phase (token : Cancellation) :
    token.cancel.2.phase =
      if token.phase = .running then .cancelled else token.phase := by
  unfold cancel
  cases stands : token.phase <;> simp [stands]

theorem cancel_outcome (token : Cancellation) :
    token.cancel.1 = .cancelled ↔ token.phase = .running := by
  unfold cancel
  cases stands : token.phase <;> simp

theorem commit_phase (token : Cancellation) :
    token.commit.2.phase =
      if token.phase = .running then .committing else token.phase := by
  unfold commit
  split <;> simp_all

theorem commit_outcome (token : Cancellation) :
    token.commit.1 = true ↔ token.phase = .running := by
  unfold commit
  split <;> simp_all

@[simp] theorem attach_phase (token : Cancellation) (child : Nat) :
    (token.attach child).2.phase = token.phase := by
  unfold attach
  split <;> rfl

@[simp] theorem reclaim_phase (token : Cancellation) :
    token.reclaim.2.phase = token.phase := by
  unfold reclaim
  split <;> rfl

end Cancellation
end ModelKeep
