import ModelKeep.PullThrough.Parts

/-!
# Nothing is written before the claim

Whatever its calls answer, an acquisition changes the archive only once the
token has granted it the publication point.
-/

namespace ModelKeep
namespace PullThrough

open Concurrency Program

/-- The calls that change the archive. -/
def Op.Writes : Op → Prop
  | .publish _ _ _ => True
  | .extend _ _ _ _ => True
  | .recordUpstreamFiles _ _ _ => True
  | .updateRef _ _ _ => True
  | _ => False

instance (op : Op) : Decidable op.Writes := by
  cases op <;> unfold Op.Writes <;> infer_instance

/-- The claim of the publication point was granted. -/
def Claims : (op : Op) → op.Reply → Prop
  | .commit, granted => granted = true
  | _, _ => False

/-- No write comes before a claim that was granted. -/
def Withholds {α : Type} : Program interface α → Prop
  | .done _ => True
  | .call op next =>
      ¬op.Writes ∧ ∀ reply, Claims op reply ∨ Withholds (next reply)

/-- A call that only asks. -/
abbrev Op.Harmless (op : Op) : Prop := ¬op.Writes

section programs

variable {ε α β : Type}

theorem withholds_of_only
    {program : Program interface α}
    (only : Only Op.Harmless program) :
    Withholds program := by
  induction program with
  | done value => trivial
  | call op next inductionHypothesis =>
      exact ⟨only.1, fun reply =>
        Or.inr (inductionHypothesis reply (only.2 reply))⟩

/-- A part that only looks. -/
theorem withholds_of_looks
    {program : Program interface α}
    (looks : Only Op.Looks program) :
    Withholds program := by
  refine withholds_of_only (looks.mono ?_)
  intro op looks writes
  cases op with
  | publish => exact looks
  | extend => exact looks
  | recordUpstreamFiles => exact looks
  | updateRef => exact looks
  | _ => exact writes

theorem Withholds.bind
    {program : Program interface α}
    {rest : α → Program interface β}
    (first : Withholds program)
    (second : ∀ value, Withholds (rest value)) :
    Withholds (program >>= rest) := by
  induction program with
  | done value => exact second value
  | call op next inductionHypothesis =>
      refine ⟨first.1, fun reply => ?_⟩
      rcases first.2 reply with claimed | later
      · exact Or.inl claimed
      · exact Or.inr (inductionHypothesis reply later)

theorem Withholds.exceptBind
    {program : ExceptT ε (Program interface) α}
    {rest : α → ExceptT ε (Program interface) β}
    (first : Withholds program.run)
    (second : ∀ value, Withholds (rest value).run) :
    Withholds (program >>= rest).run := by
  rw [ExceptT.run_bind]
  apply Withholds.bind first
  intro outcome
  cases outcome with
  | ok value => exact second value
  | error error => trivial

theorem withholds_perform
    {op : Op}
    (harmless : op.Harmless) :
    Withholds (perform op) :=
  ⟨harmless, fun _ => Or.inr trivial⟩

theorem withholds_always
    {program : Program interface α}
    (withholds : Withholds program) :
    Withholds (always program : ExceptT ε (Program interface) α).run := by
  rw [run_always]
  exact withholds.bind fun _ => trivial

theorem withholds_reporting
    {report : ε → PullThroughError}
    {program : Program interface (Except ε α)}
    (withholds : Withholds program) :
    Withholds (reporting report program).run :=
  withholds.bind fun _ => trivial

end programs

section acquisitions

variable {repository : Repository} {requestedRevision : String}

theorem withholds_dropStaging
    {staging : EntryName} :
    Withholds (dropStaging staging) :=
  (withholds_perform id).bind fun _ => trivial

theorem withholds_fetchInto
    {staging : EntryName}
    {request : FetchRequest} :
    Withholds (fetchInto staging request).run := by
  apply (withholds_always (withholds_perform id)).exceptBind
  rintro (error | fetched)
  · apply Withholds.exceptBind
    · apply withholds_always
      unfold handleFetchFailure
      split
      · apply (withholds_perform id).bind
        intro preserved
        split
        · trivial
        · exact withholds_dropStaging
      · exact withholds_dropStaging
    · exact fun _ => trivial
  · trivial

/-- What comes after the claim may write. -/
theorem withholds_claimPublication
    {α : Type}
    {staging : EntryName}
    {rest : Unit → Action α} :
    Withholds (claimPublication staging >>= rest).run := by
  refine ⟨id, ?_⟩
  rintro (_ | _)
  · right
    exact ⟨id, fun _ => Or.inr trivial⟩
  · exact Or.inl rfl

theorem withholds_transferSelection
    {selection : FileSelection} :
    Withholds
      (transferSelection repository requestedRevision selection).run := by
  apply (withholds_reporting (withholds_perform id)).exceptBind
  intro staging
  apply withholds_fetchInto.exceptBind
  intro fetched
  exact (withholds_always (withholds_perform id)).exceptBind
    fun _ => withholds_claimPublication

theorem withholds_fetchAndPublishSelection
    {reconcile : Bool}
    {selection : FileSelection} :
    Withholds (fetchAndPublishSelection repository requestedRevision reconcile
      selection).run := by
  apply (withholds_of_looks (only_always only_readyRef)).exceptBind
  rintro (_ | commit)
  · refine Withholds.exceptBind ⟨id, fun _ => Or.inr trivial⟩ ?_
    intro waited
    apply (withholds_always (withholds_perform id)).exceptBind
    rintro (_ | _)
    · unfold transferRemaining
      dsimp only
      split
      · apply (withholds_of_looks only_reconcileSelection).exceptBind
        rintro (_ | _ | _)
        · exact withholds_transferSelection
        · trivial
        · exact withholds_transferSelection
      · exact withholds_transferSelection
    · trivial
  · trivial

/-- An acquisition writes nothing before its claim. -/
theorem withholds_acquisition
    {reconcile : Bool}
    {selection : FileSelection} :
    Withholds (acquisition repository requestedRevision reconcile
      selection).run := by
  unfold acquisition
  split
  · apply (withholds_of_looks only_reconcileSelection).exceptBind
    rintro (_ | _ | _)
    · exact withholds_fetchAndPublishSelection
    · trivial
    · exact withholds_fetchAndPublishSelection
  · exact withholds_fetchAndPublishSelection

/-- Nor does a refresh. -/
theorem withholds_refreshOnce
    {dryRun : Bool} :
    Withholds (refreshOnce repository requestedRevision dryRun).run := by
  apply (withholds_always (withholds_perform id)).exceptBind
  intro previous
  refine Withholds.exceptBind ⟨id, fun _ => Or.inr trivial⟩ ?_
  intro waited
  apply (withholds_always (withholds_perform id)).exceptBind
  rintro (_ | _)
  · apply (withholds_reporting (withholds_perform id)).exceptBind
    intro staging
    apply withholds_fetchInto.exceptBind
    intro fetched
    exact (withholds_always (withholds_perform id)).exceptBind
      fun _ => withholds_claimPublication
  · trivial

end acquisitions

end PullThrough
end ModelKeep
