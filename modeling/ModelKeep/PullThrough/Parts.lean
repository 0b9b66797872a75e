import ModelKeep.Concurrency.Crash
import ModelKeep.PullThrough.Calls

/-!
# What the parts of an acquisition may call

Most parts only look.  Only the part between the gate and the fetch asks for
staging, and only one part waits for a slot.
-/

namespace ModelKeep
namespace PullThrough

open Concurrency Program

/-- The calls that only look at the archive, at upstream and at the token. -/
def Op.Looks : Op → Prop
  | .resolveRef _ _ => True
  | .isComplete _ _ => True
  | .resolveFile _ _ _ => True
  | .upstreamFiles _ _ => True
  | .manifestPaths _ _ => True
  | .rememberedRefs _ _ => True
  | .isCancelled => True
  | .stagedUpstreamFiles _ _ _ => True
  | .inventory _ => True
  | .repositoryFiles _ => True
  | _ => False

/-- The calls that neither wait for a slot nor ask for staging. -/
def Op.Quiet : Op → Prop
  | .enterTransferGate => False
  | .acquireStaging _ => False
  | _ => True

theorem Op.Looks.quiet
    {op : Op}
    (looks : op.Looks) :
    op.Quiet := by
  cases op with
  | enterTransferGate => exact looks
  | acquireStaging request => exact looks
  | _ => trivial

section programs

variable {ε α : Type} {allowed : Op → Prop}

theorem only_perform
    {op : Op}
    (here : allowed op) :
    Only allowed (perform op) :=
  ⟨here, fun _ => trivial⟩

theorem only_always
    {program : Program interface α}
    (only : Only allowed program) :
    Only allowed (always program : ExceptT ε (Program interface) α).run := by
  rw [run_always]
  exact only.bind fun _ => trivial

theorem only_reporting
    {report : ε → PullThroughError}
    {program : Program interface (Except ε α)}
    (only : Only allowed program) :
    Only allowed (reporting report program).run :=
  only.bind fun _ => trivial

end programs

variable {repository : Repository} {requestedRevision : String}

/-! ## Looking -/

section looking

theorem only_allResolve
    {commit : String}
    {files : List String} :
    Only Op.Looks (allResolve repository commit files) := by
  induction files with
  | nil => trivial
  | cons file files inductionHypothesis =>
      apply Only.bind (only_perform trivial)
      rintro (_ | _)
      · trivial
      · exact inductionHypothesis

theorem only_revisionIsReady
    {commit : String}
    {files : List String} :
    Only Op.Looks (revisionIsReady repository commit files) := by
  apply Only.bind (only_perform trivial)
  intro complete
  split
  · exact only_allResolve
  · trivial

theorem only_revisionIsPublished
    {commit : String} :
    Only Op.Looks (revisionIsPublished repository commit) := by
  apply Only.bind (only_perform trivial)
  rintro (_ | _) <;> trivial

theorem only_readyRef
    {files : List String} :
    Only Op.Looks (readyRef repository requestedRevision files) := by
  apply Only.bind (only_perform trivial)
  rintro (_ | commit)
  · trivial
  · apply only_revisionIsReady.bind
    rintro (_ | _) <;> trivial

theorem only_publishedDirectly :
    Only Op.Looks (publishedDirectly repository requestedRevision) := by
  apply only_revisionIsPublished.bind
  rintro (_ | _) <;> trivial

theorem only_publishedCommit :
    Only Op.Looks (publishedCommit repository requestedRevision) := by
  apply Only.bind (only_perform trivial)
  rintro (_ | commit)
  · exact only_publishedDirectly
  · apply only_revisionIsPublished.bind
    rintro (_ | _)
    · exact only_publishedDirectly
    · trivial

theorem only_reconcileFromRecord
    {published : String}
    {selection : FileSelection} :
    Only Op.Looks (reconcileFromRecord repository requestedRevision published
      selection).run := by
  unfold reconcileFromRecord
  split
  · apply (only_reporting (only_perform trivial)).exceptBind
    rintro (_ | recorded)
    · trivial
    · exact (only_reporting (only_perform trivial)).exceptBind
        fun _ => trivial
  · trivial

theorem only_reconcileInventory
    {inventory : Option RevisionInventory} :
    Only Op.Looks (reconcileInventory repository inventory).run := by
  cases inventory with
  | none => trivial
  | some inventory =>
      apply (only_always only_revisionIsPublished).exceptBind
      rintro (_ | _)
      · trivial
      · exact (only_reporting (only_perform trivial)).exceptBind
          fun _ => trivial

theorem only_reconcileSelection
    {selection : FileSelection} :
    Only Op.Looks
      (reconcileSelection repository requestedRevision selection).run := by
  apply (only_always only_publishedCommit).exceptBind
  rintro (_ | published)
  · trivial
  · apply (only_always (only_perform trivial)).exceptBind
    rintro (_ | _)
    · apply only_reconcileFromRecord.exceptBind
      rintro (_ | reconciliation)
      · exact (only_reporting (only_perform trivial)).exceptBind
          fun _ => only_reconcileInventory
      · trivial
    · trivial

end looking

/-! ## After staging was acquired -/

section storing

variable {staging : EntryName}

theorem only_dropStaging :
    Only Op.Quiet (dropStaging staging) :=
  Only.bind (only_perform trivial) fun _ => trivial

theorem only_fetchInto
    {request : FetchRequest} :
    Only Op.Quiet (fetchInto staging request).run := by
  apply (only_always (only_perform trivial)).exceptBind
  rintro (error | fetched)
  · apply Only.exceptBind
    · apply only_always
      unfold handleFetchFailure
      split
      · apply Only.bind (only_perform trivial)
        intro preserved
        split
        · trivial
        · exact only_dropStaging
      · exact only_dropStaging
    · exact fun _ => trivial
  · trivial

theorem only_claimPublication :
    Only Op.Quiet (claimPublication staging).run := by
  apply (only_always (only_perform trivial)).exceptBind
  rintro (_ | _)
  · exact (only_always (only_perform trivial)).exceptBind fun _ => trivial
  · trivial

theorem only_recordUpstreamFiles
    {commit : String}
    {files : List String} :
    Only Op.Quiet (recordUpstreamFiles repository commit files) := by
  unfold recordUpstreamFiles
  split
  · trivial
  · exact Only.bind (only_perform trivial) fun _ => trivial

theorem only_adoptRefs
    {commit : String}
    {references : List String} :
    Only Op.Quiet (adoptRefs repository commit references) := by
  induction references with
  | nil => trivial
  | cons reference references inductionHypothesis =>
      apply Only.bind (only_perform trivial)
      rintro (_ | _)
      · exact Only.bind (only_perform trivial) fun _ => inductionHypothesis
      · exact inductionHypothesis

theorem only_nameRequested
    {commit : String} :
    Only Op.Quiet (nameRequested repository requestedRevision commit).run := by
  unfold nameRequested
  split
  · trivial
  · exact only_reporting (only_perform trivial)

theorem only_extendPublishedRevision
    {fetched : FetchedRevision} :
    Only Op.Quiet (extendPublishedRevision repository fetched staging).run :=
  (only_reporting (only_perform trivial)).exceptBind fun _ => trivial

theorem only_storeFetched
    {fetched : FetchedRevision} :
    Only Op.Quiet
      (storeFetched repository requestedRevision fetched staging).run := by
  have published : Only Op.Quiet (always (revisionIsPublished repository
      fetched.commit) : Action Bool).run :=
    only_always (only_revisionIsPublished.mono fun _ looks => looks.quiet)
  apply published.exceptBind
  rintro (_ | _)
  · apply (only_always (only_perform trivial)).exceptBind
    intro outcome
    split
    · trivial
    · apply published.exceptBind
      rintro (_ | _)
      · trivial
      · exact only_extendPublishedRevision
    · trivial
  · exact only_extendPublishedRevision

theorem only_storeAndName
    {fetched : FetchedRevision} :
    Only Op.Quiet
      (storeAndName repository requestedRevision fetched staging).run := by
  apply (only_always (only_perform trivial)).exceptBind
  intro recorded
  apply only_claimPublication.exceptBind
  intro _
  apply (only_always only_storeFetched).exceptBind
  intro stored
  apply (only_always only_dropStaging).exceptBind
  intro _
  cases stored with
  | error error => trivial
  | ok outcome =>
      apply (only_always only_recordUpstreamFiles).exceptBind
      intro _
      apply only_nameRequested.exceptBind
      intro _
      refine (only_always ?_).exceptBind fun _ => trivial
      exact Only.bind (only_perform trivial) fun _ => only_adoptRefs

theorem only_finishRefresh
    {dryRun : Bool}
    {previous : Option String}
    {fetched : FetchedRevision}
    {recorded : List String} :
    Only Op.Quiet (finishRefresh repository requestedRevision dryRun previous
      fetched staging recorded).run := by
  have ready : Only Op.Quiet (always (revisionIsReady repository
      fetched.commit []) : Action Bool).run :=
    only_always (only_revisionIsReady.mono fun _ looks => looks.quiet)
  have published : Only Op.Quiet (publishUnready repository requestedRevision
      fetched staging).run := by
    apply ready.exceptBind
    rintro (_ | _)
    · apply (only_always (only_perform trivial)).exceptBind
      intro outcome
      split
      · trivial
      · apply ready.exceptBind
        rintro (_ | _) <;> trivial
      · trivial
    · trivial
  cases dryRun with
  | true => exact (only_always only_dropStaging).exceptBind fun _ => trivial
  | false =>
      apply published.exceptBind
      intro _
      apply (only_always only_recordUpstreamFiles).exceptBind
      intro _
      apply (only_always only_dropStaging).exceptBind
      intro _
      exact (only_reporting (only_perform trivial)).exceptBind
        fun _ => trivial

end storing

/-! ## One slot, and staging with it only -/

/-- The slot was granted. -/
def Admits : (op : Op) → op.Reply → Bool
  | .enterTransferGate, answer => answer.isOk
  | _, _ => false

/-- A slot is asked for without one, and staging with one only. -/
def Fits (admitted : Bool) : Op → Prop
  | .enterTransferGate => admitted = false
  | .acquireStaging _ => admitted = true
  | _ => True

/-- Every call fits what was granted before. -/
def Gated {α : Type} : Program interface α → Bool → Prop
  | .done _, _ => True
  | .call op next, admitted =>
      Fits admitted op ∧ ∀ reply, Gated (next reply) (admitted || Admits op reply)

section gated

variable {α β : Type}

theorem fits_of_quiet
    {op : Op}
    {admitted : Bool}
    (quiet : op.Quiet) :
    Fits admitted op ∧ ∀ reply, (admitted || Admits op reply) = admitted := by
  cases op with
  | enterTransferGate => exact quiet.elim
  | acquireStaging request => exact quiet.elim
  | _ => exact ⟨trivial, fun _ => Bool.or_false _⟩

theorem gated_of_only
    {program : Program interface α}
    {admitted : Bool}
    (only : Only Op.Quiet program) :
    Gated program admitted := by
  induction program with
  | done value => trivial
  | call op next inductionHypothesis =>
      obtain ⟨fits, same⟩ := fits_of_quiet only.1
      refine ⟨fits, fun reply => ?_⟩
      rw [same]
      exact inductionHypothesis reply (only.2 reply)

theorem Gated.bind
    {program : Program interface α}
    {rest : α → Program interface β}
    {admitted : Bool}
    (first : Only Op.Quiet program)
    (second : ∀ value, Gated (rest value) admitted) :
    Gated (program >>= rest) admitted := by
  induction program with
  | done value => exact second value
  | call op next inductionHypothesis =>
      obtain ⟨fits, same⟩ := fits_of_quiet first.1
      refine ⟨fits, fun reply => ?_⟩
      rw [same]
      exact inductionHypothesis reply (first.2 reply)

theorem Gated.exceptBind
    {ε : Type}
    {program : ExceptT ε (Program interface) α}
    {rest : α → ExceptT ε (Program interface) β}
    {admitted : Bool}
    (first : Only Op.Quiet program.run)
    (second : ∀ value, Gated (rest value).run admitted) :
    Gated (program >>= rest).run admitted := by
  rw [ExceptT.run_bind]
  apply Gated.bind first
  intro outcome
  cases outcome with
  | ok value => exact second value
  | error error => trivial

/-- What becomes of the result makes no call. -/
theorem Gated.done
    {program : Program interface α}
    {admitted : Bool}
    (change : α → β)
    (gated : Gated program admitted) :
    Gated (program >>= fun value => .done (change value)) admitted := by
  induction program generalizing admitted with
  | done value => trivial
  | call op next inductionHypothesis =>
      exact ⟨gated.1, fun reply => inductionHypothesis reply (gated.2 reply)⟩

theorem gated_transferSelection
    {selection : FileSelection} :
    Gated (transferSelection repository requestedRevision selection).run
      true := by
  refine ⟨rfl, ?_⟩
  rintro (error | staging)
  · trivial
  · exact gated_of_only (only_fetchInto.exceptBind fun _ => only_storeAndName)

theorem gated_fetchAndPublishSelection
    {reconcile : Bool}
    {selection : FileSelection} :
    Gated (fetchAndPublishSelection repository requestedRevision reconcile
      selection).run false := by
  apply Gated.exceptBind
    (only_always (only_readyRef.mono fun _ looks => looks.quiet))
  rintro (_ | commit)
  · refine ⟨rfl, ?_⟩
    rintro (error | waited)
    · trivial
    · refine ⟨trivial, ?_⟩
      rintro (_ | _)
      · unfold transferRemaining
        dsimp only
        split
        · apply Gated.exceptBind
            (only_reconcileSelection.mono fun _ looks => looks.quiet)
          rintro (_ | _ | _)
          · exact gated_transferSelection
          · trivial
          · exact gated_transferSelection
        · exact gated_transferSelection
      · trivial
  · trivial

/-- A pull-through waits for one slot, and stages nothing without it. -/
theorem gated_acquisition
    {reconcile : Bool}
    {selection : FileSelection} :
    Gated (acquisition repository requestedRevision reconcile selection).run
      false := by
  unfold acquisition
  split
  · apply Gated.exceptBind
      (only_reconcileSelection.mono fun _ looks => looks.quiet)
    rintro (_ | _ | _)
    · exact gated_fetchAndPublishSelection
    · trivial
    · exact gated_fetchAndPublishSelection
  · exact gated_fetchAndPublishSelection

/-- So does a refresh. -/
theorem gated_refreshOnce
    {dryRun : Bool} :
    Gated (refreshOnce repository requestedRevision dryRun).run false := by
  have resolves : Only Op.Quiet
      (perform (.resolveRef repository requestedRevision)) :=
    only_perform trivial
  apply Gated.exceptBind (only_always resolves)
  intro previous
  refine ⟨rfl, ?_⟩
  rintro (error | waited)
  · trivial
  · refine ⟨trivial, ?_⟩
    rintro (_ | _)
    · refine ⟨rfl, ?_⟩
      rintro (error | staging)
      · trivial
      · apply gated_of_only
        apply only_fetchInto.exceptBind
        intro fetched
        apply (only_always (only_perform trivial)).exceptBind
        intro recorded
        exact only_claimPublication.exceptBind fun _ => only_finishRefresh
    · trivial

end gated

end PullThrough
end ModelKeep
