import ModelKeep.Concurrency.Simulation
import ModelKeep.PullThrough.Parts
import ModelKeep.PullThrough.Steps

/-!
# The way to a transfer

Until its transfer an acquisition only looks and waits.  So whatever a
transfer does to the site, an acquisition either never came to one or did the
same once it had its slot.
-/

namespace ModelKeep
namespace PullThrough

open Concurrency Program

variable
  {α : Type}
  {outside : Outside}
  {repository : Repository}
  {requested : String}
  {before after : Site}

/-- Looks leave the site as it is. -/
theorem runs_looks
    {program : Program interface α}
    {answer : α}
    (only : Only Op.Looks program)
    (run : program.Runs outside.Effect before answer after) :
    after = before := by
  have keeps : ∀ op site reply later, Op.Looks op →
      outside.Effect op site reply later → before = site →
        before = later := by
    rintro op site reply later looks effect rfl
    cases op with
    | rememberedRefs => exact effect.1.symm
    | isCancelled => exact effect.symm
    | resolveRef => exact congrArg Prod.snd effect
    | isComplete => exact congrArg Prod.snd effect
    | resolveFile => exact congrArg Prod.snd effect
    | upstreamFiles => exact congrArg Prod.snd effect
    | manifestPaths => exact congrArg Prod.snd effect
    | stagedUpstreamFiles => exact congrArg Prod.snd effect
    | inventory => exact congrArg Prod.snd effect
    | repositoryFiles => exact congrArg Prod.snd effect
    | _ => exact looks.elim
  exact (Only.keeps keeps only run rfl).symm

theorem transferred_arrive
    (outside : Outside)
    (site : Site) :
    (outside.arrive site).transferred = site.transferred := by
  unfold Outside.arrive
  split <;> rfl

section passage

variable
  {exec : Semantics interface Site}
  {Ends : Site → Site → Prop}

/-- Nothing was transferred, or a transfer ended like this. -/
def EndsOr (Ends : Site → Site → Prop) (before after : Site) : Prop :=
  after.transferred = before.transferred ∨ Ends before after

variable
  (within : ∀ op before reply after,
    exec op before reply after → outside.Effect op before reply after)

include within

/-- What comes after the gate is a transfer, unless a cancellation came. -/
theorem ends_of_gate
    {rest : Bool → Action α}
    {result : Except PullThroughError α}
    (transfers : ∀ waited result after,
      Returns exec (rest waited) (outside.arrive before) result after →
      EndsOr Ends (outside.arrive before) after)
    (run : Returns exec (do
      let waited ← attempt (perform .enterTransferGate)
      match ← always (perform .isCancelled) with
      | true => check (.error .cancelled)
      | false => rest waited) before result after) :
    after.transferred = before.transferred ∨
      Ends (outside.arrive before) after := by
  rw [← transferred_arrive outside before]
  rcases returns_bind.mp run with
    ⟨_, rfl, failed⟩ | ⟨waited, arrived, enters, remaining⟩
  · obtain ⟨_, rfl⟩ := returns_gate.mp (Runs.mono within failed)
    exact Or.inl rfl
  obtain ⟨_, rfl⟩ := returns_gate.mp (Runs.mono within enters)
  obtain ⟨cancelled, middle, looks, last⟩ :=
    returns_always_bind.mp remaining
  obtain rfl : middle = outside.arrive before :=
    runs_perform.mp (Runs.mono within looks)
  cases cancelled with
  | true =>
      obtain ⟨_, rfl⟩ := returns_check.mp last
      exact Or.inl rfl
  | false => exact transfers _ _ _ last

variable
  (transfers : ∀ {selection : FileSelection} {site later : Site} {result},
    Returns exec (transferSelection repository requested selection) site
      result later →
    EndsOr Ends site later)

include transfers

theorem ends_of_selection
    {reconcile : Bool}
    {selection : FileSelection}
    {result : Except PullThroughError AcquisitionResult}
    (run : Returns exec (fetchAndPublishSelection repository requested
      reconcile selection) before result after) :
    after.transferred = before.transferred ∨
      Ends (outside.arrive before) after := by
  unfold fetchAndPublishSelection at run
  obtain ⟨target, middle, looks, remaining⟩ := returns_always_bind.mp run
  obtain rfl := runs_looks only_readyRef (Runs.mono within looks)
  cases target with
  | some commit =>
      obtain ⟨_, rfl⟩ := returns_check.mp remaining
      exact Or.inl rfl
  | none =>
      refine ends_of_gate within ?_ remaining
      intro waited result after run
      unfold transferRemaining at run
      split at run
      · rcases returns_bind.mp run with
          ⟨_, rfl, failed⟩ | ⟨reconciliation, site, looks, last⟩
        · rw [runs_looks only_reconcileSelection (Runs.mono within failed)]
          exact Or.inl rfl
        · obtain rfl :=
            runs_looks only_reconcileSelection (Runs.mono within looks)
          cases reconciliation with
          | satisfied result =>
              obtain ⟨_, rfl⟩ := returns_check.mp last
              exact Or.inl rfl
          | missing remaining => exact transfers last
          | notPublished => exact transfers last
      · exact transfers run

/-- A pull-through never came to its transfer, or did what that does. -/
theorem ends_of_acquisition
    {reconcile : Bool}
    {selection : FileSelection}
    {result : Except PullThroughError AcquisitionResult}
    (run : Returns exec (acquisition repository requested reconcile selection)
      before result after) :
    after.transferred = before.transferred ∨
      Ends (outside.arrive before) after := by
  unfold acquisition at run
  split at run
  · unfold acquireReconciled at run
    rcases returns_bind.mp run with
      ⟨_, rfl, failed⟩ | ⟨reconciliation, site, looks, last⟩
    · rw [runs_looks only_reconcileSelection (Runs.mono within failed)]
      exact Or.inl rfl
    · obtain rfl := runs_looks only_reconcileSelection (Runs.mono within looks)
      cases reconciliation with
      | satisfied result =>
          obtain ⟨_, rfl⟩ := returns_check.mp last
          exact Or.inl rfl
      | missing remaining => exact ends_of_selection within transfers last
      | notPublished => exact ends_of_selection within transfers last
  · exact ends_of_selection within transfers run

omit transfers

/-- Nor does a refresh differ in this. -/
theorem ends_of_refresh
    {dryRun : Bool}
    {result : Except PullThroughError RefreshResult}
    (transfers : ∀ {previous : Option String} {site later : Site} {result},
      Returns exec (refreshFetched repository requested dryRun previous) site
        result later →
      EndsOr Ends site later)
    (run : Returns exec (refreshOnce repository requested dryRun) before
      result after) :
    after.transferred = before.transferred ∨
      Ends (outside.arrive before) after := by
  unfold refreshOnce at run
  obtain ⟨previous, middle, looks, remaining⟩ := returns_always_bind.mp run
  obtain ⟨_, rfl⟩ := (settles_resolveRef repository requested _ _).mp
    (Runs.mono within looks)
  exact ends_of_gate within (fun _ _ _ run => transfers run) remaining

end passage

end PullThrough
end ModelKeep
