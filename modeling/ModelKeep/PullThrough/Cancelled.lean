import ModelKeep.Concurrency.Events
import ModelKeep.PullThrough.Claim
import ModelKeep.PullThrough.Interrupted

/-!
# Cancellation and publication

An acquisition runs while any number of callers cancel it through its token.
The token leaves `running` once, so either a cancellation wins and nothing is
written, or the claim wins and every cancellation comes too late.
-/

namespace ModelKeep

open Concurrency Program

namespace PullThrough

/-- An acquisition, by who started it. -/
inductive Kind
  | pullThrough (reconcile : Bool) (selection : FileSelection)
  | refresh (dryRun : Bool)

abbrev Kind.Result : Kind → Type
  | .pullThrough _ _ => AcquisitionResult
  | .refresh _ => RefreshResult

/-- What the acquisition does. -/
def Kind.action (repository : Repository) (requested : String) :
    (kind : Kind) → Action kind.Result
  | .pullThrough reconcile selection =>
      acquisition repository requested reconcile selection
  | .refresh dryRun => refreshOnce repository requested dryRun

/-- A call of `cancel` on the token of an acquisition. -/
def Cancels (before : Site × Cancellation) (outcome : CancelOutcome)
    (after : Site × Cancellation) : Prop :=
  (outcome, after.2) = before.2.cancel ∧ after.1 = before.1

/-- The calls of an acquisition, its token beside the site.  While upstream is
asked, helpers are handed to the token and taken back. -/
def Tokened (outside : Outside) : Semantics interface (Site × Cancellation)
  | .isCancelled, before, reply, after =>
      reply = before.2.isCancelled ∧ after = before
  | .commit, before, reply, after =>
      (reply, after.2) = before.2.commit ∧ after.1 = before.1
  | .cancel, before, reply, after => Cancels before reply after
  | op, before, reply, after =>
      outside.Effect op before.1 reply after.1 ∧
        after.2.phase = before.2.phase

/-- What the surroundings of an acquisition see. -/
abbrev Happening : Type := Event interface CancelOutcome

/-- What a call of `cancel` answered. -/
def cancelAnswer : Happening → Option CancelOutcome
  | .answered .cancel outcome => some outcome
  | .answered _ _ => none
  | .beside outcome => some outcome

/-- The publication point was granted. -/
def grants : Happening → Bool
  | .answered .commit granted => granted
  | _ => false

/-- A call of `cancel` returned `Cancelled`. -/
def stops (event : Happening) : Bool :=
  cancelAnswer event = some .cancelled

/-- The archive was written. -/
def writes : Happening → Prop
  | .answered op _ => op.Writes
  | .beside _ => False

/-- An acquisition on its way, and whoever cancels it. -/
abbrev Happens (outside : Outside) {α : Type} :=
  @Follows interface (Site × Cancellation) CancelOutcome α (Tokened outside)
    Cancels

variable
  {α : Type}
  {outside : Outside}
  {repository : Repository}
  {requested : String}
  {history : List Happening}

/-! ## What the token allows -/

/-- What a happening means for the token. -/
inductive Turns : CancellationPhase → Happening → CancellationPhase → Prop
  | still
      {phase : CancellationPhase}
      {event : Happening}
      (unheard : cancelAnswer event = none)
      (ungranted : grants event = false) :
      Turns phase event phase
  | granted
      {event : Happening}
      (unheard : cancelAnswer event = none)
      (granted : grants event = true) :
      Turns .running event .committing
  | stopped
      {event : Happening}
      (heard : cancelAnswer event = some .cancelled)
      (ungranted : grants event = false) :
      Turns .running event .cancelled
  | again
      {event : Happening}
      (heard : cancelAnswer event = some .alreadyCancelled)
      (ungranted : grants event = false) :
      Turns .cancelled event .cancelled
  | late
      {event : Happening}
      (heard : cancelAnswer event = some .alreadyFinished)
      (ungranted : grants event = false) :
      Turns .committing event .committing

theorem turns_of_cancel
    {token later : Cancellation}
    {outcome : CancelOutcome}
    {event : Happening}
    (heard : cancelAnswer event = some outcome)
    (ungranted : grants event = false)
    (cancels : (outcome, later) = token.cancel) :
    Turns token.phase event later.phase := by
  unfold Cancellation.cancel at cancels
  cases stands : token.phase with
  | running =>
      rw [stands] at cancels
      cases cancels
      exact .stopped heard ungranted
  | cancelled =>
      rw [stands] at cancels
      cases cancels
      rw [stands]
      exact .again heard ungranted
  | committing =>
      rw [stands] at cancels
      cases cancels
      rw [stands]
      exact .late heard ungranted

theorem turns_of_moves
    {before after : Progress interface (Site × Cancellation) α}
    {event : Happening}
    (moves : Moves (Tokened outside) Cancels before event after) :
    Turns before.state.2.phase event after.state.2.phase := by
  cases moves with
  | beside acted => exact turns_of_cancel rfl rfl acted.1
  | @answered op next reply before after issued =>
      have quiet : after.2.phase = before.2.phase →
          cancelAnswer (.answered op reply) = none →
          grants (.answered op reply) = false →
          Turns before.2.phase (.answered op reply) after.2.phase := by
        intro same unheard ungranted
        rw [same]
        exact .still unheard ungranted
      cases op with
      | cancel => exact turns_of_cancel rfl rfl issued.1
      | isCancelled =>
          obtain ⟨rfl, rfl⟩ := issued
          exact quiet rfl rfl rfl
      | commit =>
          have commits := issued.1
          unfold Cancellation.commit at commits
          split at commits
          · next running =>
              obtain ⟨rfl, same⟩ := Prod.mk.inj commits
              change Turns before.2.phase _ after.2.phase
              rw [running, same]
              exact .granted rfl rfl
          · obtain ⟨rfl, same⟩ := Prod.mk.inj commits
            exact quiet (by rw [same]) rfl rfl
      | _ => exact quiet issued.2 rfl rfl

/-- What a history tells of the phase of a new token. -/
structure Told (history : List Happening) (phase : CancellationPhase) :
    Prop where
  granted : (∃ event ∈ history, grants event = true) ↔ phase = .committing
  stopped : history.countP stops = if phase = .cancelled then 1 else 0
  finished : phase = .committing → ∀ event ∈ history, ∀ outcome,
    cancelAnswer event = some outcome → outcome = .alreadyFinished
  unasked : phase = .running → ∀ event ∈ history, cancelAnswer event = none

theorem told_new : Told [] .running :=
  ⟨by simp, rfl, by simp, by simp⟩

/-- One happening. -/
theorem Told.snoc
    {before after : CancellationPhase}
    {event : Happening}
    (told : Told history before)
    (turns : Turns before event after) :
    Told (history ++ [event]) after := by
  have members : ∀ {kept : Happening → Prop},
      (∀ other ∈ history, kept other) → kept event →
      ∀ other ∈ history ++ [event], kept other := by
    intro kept earlier last other member
    rcases List.mem_append.mp member with known | new
    · exact earlier other known
    · rw [List.mem_singleton.mp new]
      exact last
  have counts : ∀ {stopped : Bool}, stops event = stopped →
      (history ++ [event]).countP stops =
        history.countP stops + if stopped then 1 else 0 := by
    rintro _ rfl
    simp [List.countP_append, List.countP_singleton]
  have grantedToo : ∀ {phase : CancellationPhase}, grants event = false →
      ((∃ other ∈ history, grants other = true) ↔ phase = .committing) →
      ((∃ other ∈ history ++ [event], grants other = true) ↔
        phase = .committing) := by
    intro phase ungranted known
    rw [← known]
    simp [or_and_right, exists_or, ungranted]
  cases turns with
  | still unheard ungranted =>
      have unstopped : stops event = false := by simp [stops, unheard]
      refine ⟨grantedToo ungranted told.granted, ?_, ?_, ?_⟩
      · rw [counts unstopped, told.stopped]
        rfl
      · intro committing
        refine members (told.finished committing) ?_
        intro outcome heard
        rw [unheard] at heard
        cases heard
      · intro running
        exact members (told.unasked running) unheard
  | granted unheard granted =>
      have unstopped : stops event = false := by simp [stops, unheard]
      refine ⟨iff_of_true ⟨event, by simp, granted⟩ rfl, ?_, ?_, ?_⟩
      · rw [counts unstopped, told.stopped]
        rfl
      · intro _
        refine members ?_ ?_
        · intro other member outcome heard
          rw [told.unasked rfl other member] at heard
          cases heard
        · intro outcome heard
          rw [unheard] at heard
          cases heard
      · rintro ⟨⟩
  | stopped heard ungranted =>
      have stopped : stops event = true := by simp [stops, heard]
      refine ⟨grantedToo ungranted ?_, ?_, ?_, ?_⟩
      · exact told.granted.trans (iff_of_false (by simp) (by simp))
      · rw [counts stopped, told.stopped]
        rfl
      · rintro ⟨⟩
      · rintro ⟨⟩
  | again heard ungranted =>
      have unstopped : stops event = false := by simp [stops, heard]
      refine ⟨grantedToo ungranted told.granted, ?_, ?_, ?_⟩
      · rw [counts unstopped, told.stopped]
        rfl
      · rintro ⟨⟩
      · rintro ⟨⟩
  | late heard ungranted =>
      have unstopped : stops event = false := by simp [stops, heard]
      refine ⟨grantedToo ungranted told.granted, ?_, ?_, ?_⟩
      · rw [counts unstopped, told.stopped]
        rfl
      · intro committing
        refine members (told.finished committing) ?_
        intro outcome heardToo
        rw [heard] at heardToo
        cases heardToo
        rfl
      · rintro ⟨⟩

theorem told_of_happens
    {start final : Progress interface (Site × Cancellation) α}
    (fresh : start.state.2.phase = .running)
    (run : Happens outside start history final) :
    Told history final.state.2.phase := by
  refine run.keeps (fun history progress =>
    Told history progress.state.2.phase) ?_ ?_
  · intro history event before after told moves
    exact told.snoc (turns_of_moves moves)
  · rw [fresh]
    exact told_new

/-! ## What is written -/

theorem claims_iff
    {op : Op}
    {reply : op.Reply} :
    Claims op reply ↔ grants (.answered op reply) = true := by
  cases op with
  | commit => exact Iff.rfl
  | _ => exact iff_of_false id Bool.false_ne_true

/-- The token leaves `committing` never. -/
theorem Turns.committing
    {before after : CancellationPhase}
    {event : Happening}
    (turns : Turns before event after)
    (other : after ≠ .committing) :
    before ≠ .committing ∧ grants event = false := by
  cases turns with
  | still _ ungranted => exact ⟨other, ungranted⟩
  | granted => exact absurd rfl other
  | stopped _ ungranted => exact ⟨by simp, ungranted⟩
  | again _ ungranted => exact ⟨by simp, ungranted⟩
  | late => exact absurd rfl other

/-- Before the claim nothing is written, and what remains withholds its
writes. -/
theorem withheld_of_happens
    {start final : Progress interface (Site × Cancellation) α}
    (withholds : Withholds start.rest)
    (run : Happens outside start history final)
    (unclaimed : final.state.2.phase ≠ .committing) :
    (∀ event ∈ history, ¬writes event) ∧ Withholds final.rest := by
  revert unclaimed
  refine run.keeps (fun history progress =>
    progress.state.2.phase ≠ .committing →
      (∀ event ∈ history, ¬writes event) ∧ Withholds progress.rest) ?_ ?_
  · intro history event before after known moves unclaimed
    obtain ⟨earlier, ungranted⟩ :=
      (turns_of_moves moves).committing unclaimed
    obtain ⟨silent, withheld⟩ := known earlier
    have here : ¬writes event ∧ Withholds after.rest := by
      cases moves with
      | beside => exact ⟨id, withheld⟩
      | @answered op next reply =>
          refine ⟨withheld.1, ?_⟩
          rcases withheld.2 reply with claimed | later
          · rw [claims_iff.mp claimed] at ungranted
            cases ungranted
          · exact later
    refine ⟨?_, here.2⟩
    intro other member
    rcases List.mem_append.mp member with known | new
    · exact silent other known
    · rw [List.mem_singleton.mp new]
      exact here.1
  · intro _
    exact ⟨by simp, withholds⟩

theorem withholds_action
    (kind : Kind) :
    Withholds (kind.action repository requested).run := by
  cases kind with
  | pullThrough reconcile selection => exact withholds_acquisition
  | refresh dryRun => exact withholds_refreshOnce

/-! ## What becomes of staging -/

/-- What the acquisition was told, its claim refused. -/
def Refused (history : List Happening) (op : Op) (reply : op.Reply) : Prop :=
  .answered op reply ∈ history ∧ ¬Claims op reply

/-- The runs of an acquisition whose claim is refused. -/
abbrev Refusing (outside : Outside) (history : List Happening) :
    Semantics interface Site :=
  Heard outside.Effect (Refused history)

theorem effect_of_tokened
    (op : Op)
    (before : Site × Cancellation)
    (reply : op.Reply)
    (after : Site × Cancellation)
    (issued : Tokened outside op before reply after) :
    outside.Effect op before.1 reply after.1 := by
  cases op with
  | isCancelled => exact congrArg Prod.fst issued.2
  | commit => exact issued.2
  | cancel => exact issued.2
  | _ => exact issued.1

/-- An acquisition that was cancelled is one whose claim was refused. -/
theorem returns_of_happens
    {action : Action α}
    {site : Site}
    {token : Cancellation}
    {final : Progress interface (Site × Cancellation)
      (Except PullThroughError α)}
    {result : Except PullThroughError α}
    (run : Happens outside ⟨action.run, (site, token)⟩ history final)
    (unclaimed : ∀ event ∈ history, grants event = false)
    (ended : final.rest = .done result) :
    Returns (Refusing outside history) action site result final.state.1 := by
  refine run.runs Prod.fst effect_of_tokened (fun _ _ _ acted => acted.2)
    ?_ ?_
  · intro op reply member
    refine ⟨member, ?_⟩
    rw [claims_iff, unclaimed _ member]
    exact Bool.false_ne_true
  · rw [ended]
    exact ⟨rfl, rfl⟩

/-- The fetch of a cancelled acquisition failed and was handled, or it went on
to its claim. -/
theorem returns_refused_fetchInto
    {staging : EntryName}
    {request : FetchRequest}
    {result : Except PullThroughError FetchedRevision}
    {before after : Site}
    (run : Returns (Refusing outside history) (fetchInto staging request)
      before result after) :
    (∃ error, .answered (.fetch request) (.error error) ∈ history ∧
      result = .error (.ofUpstream error) ∧
      (handleFetchFailure staging error).Runs outside.Effect
        (before.transfer outside.transfer request) () after) ∨
    ∃ fetched, result = .ok fetched ∧
      after = before.transfer outside.transfer request := by
  unfold fetchInto at run
  obtain ⟨outcome, middle, fetches, remaining⟩ := returns_always_bind.mp run
  obtain ⟨effect, known, _⟩ := Program.runs_perform.mp fetches
  obtain rfl : before.transfer outside.transfer request = middle :=
    congrArg Prod.snd effect
  cases outcome with
  | ok fetched =>
      obtain ⟨rfl, rfl⟩ := returns_check.mp remaining
      exact Or.inr ⟨fetched, rfl, rfl⟩
  | error error =>
      obtain ⟨⟨⟩, later, handled, last⟩ := returns_always_bind.mp remaining
      obtain ⟨rfl, rfl⟩ := returns_check.mp last
      exact Or.inl ⟨error, known, rfl,
        Runs.mono (fun _ _ _ _ issued => issued.1) handled⟩

/-- A claim that is refused preserves staging. -/
theorem preserves_of_refused
    {staging : EntryName}
    {repoType : RepositoryType}
    {commit : String}
    {more : List String → Unit → Action α}
    {result : Except PullThroughError α}
    {before after : Site}
    (run : Returns (Refusing outside history) (do
      let recorded ← always (perform (.stagedUpstreamFiles staging repoType
        commit))
      claimPublication staging >>= more recorded) before result after) :
    ∃ preserved, (perform (.preserveStaging staging)).Runs outside.Effect
      before preserved after := by
  obtain ⟨recorded, middle, looks, remaining⟩ := returns_always_bind.mp run
  obtain rfl : before = middle :=
    congrArg Prod.snd (Program.runs_perform.mp looks).1
  have claims : ∀ outcome later, Returns (Refusing outside history)
      (claimPublication staging) before outcome later →
      outcome = .error .cancelled ∧ ∃ preserved,
        (perform (.preserveStaging staging)).Runs outside.Effect before
          preserved later := by
    intro outcome later claims
    unfold claimPublication at claims
    obtain ⟨granted, still, asks, last⟩ := returns_always_bind.mp claims
    obtain ⟨rfl, _, refused⟩ := Program.runs_perform.mp asks
    cases granted with
    | true => exact absurd rfl refused
    | false =>
        obtain ⟨preserved, kept, preserves, ends⟩ :=
          returns_always_bind.mp last
        obtain ⟨rfl, rfl⟩ := returns_check.mp ends
        exact ⟨rfl, preserved, Runs.mono (fun _ _ _ _ issued => issued.1) preserves⟩
  rcases returns_bind.mp remaining with
    ⟨_, rfl, failed⟩ | ⟨_, _, granted, _⟩
  · exact (claims _ _ failed).2
  · cases (claims _ _ granted).1

/-- The staging of a cancelled acquisition was handed over and filled, then
given to the handler of failures or preserved. -/
def Relinquishes (outside : Outside) (history : List Happening)
    (arrived after : Site) : Prop :=
  ∃ (staging : FetchStaging) (area : Staging.World) (request : FetchRequest),
    request.staging = staging.path ∧
    Returns Staging.Effect
      (Staging.acquireFetchStaging request.stagingRequest) arrived.staging
      (.ok staging) area ∧
    ((∃ error, .answered (.fetch request) (.error error) ∈ history ∧
        (handleFetchFailure staging.path error).Runs outside.Effect
          ((arrived.withStaging area).transfer outside.transfer request) ()
          after) ∨
      ∃ preserved,
        (perform (.preserveStaging staging.path)).Runs outside.Effect
          ((arrived.withStaging area).transfer outside.transfer request)
          preserved after)

theorem relinquishes_of_transfer
    {files exclude : List String}
    {more : FetchStaging → FetchedRevision → List String → Unit → Action α}
    {result : Except PullThroughError α}
    {before after : Site}
    (run : Returns (Refusing outside history) (do
      let staging ← acquireStaging repository requested
        (selectionIdentity files exclude)
      let fetched ← fetchInto staging.path
        ⟨repository.repoType, repository.repoId, requested, files, exclude,
          staging.path, staging.resolvedCommit⟩
      let recorded ← always (perform (.stagedUpstreamFiles staging.path
        repository.repoType fetched.commit))
      claimPublication staging.path >>= more staging fetched recorded) before
      result after) :
    EndsOr (Relinquishes outside history) before after := by
  have within : ∀ op site reply later,
      Refusing outside history op site reply later →
        outside.Effect op site reply later :=
    fun _ _ _ _ issued => issued.1
  rcases returns_bind.mp run with
    ⟨_, rfl, failed⟩ | ⟨staging, acquired, acquires, remaining⟩
  · obtain ⟨_, area, _, _, rfl⟩ :=
      returns_acquireStaging.mp (Runs.mono within failed)
    exact Or.inl rfl
  obtain ⟨answer, area, same, handed, rfl⟩ :=
    returns_acquireStaging.mp (Runs.mono within acquires)
  cases answer with
  | error refused => cases same
  | ok found =>
      cases same
      refine Or.inr ⟨staging, area, ⟨repository.repoType, repository.repoId,
        requested, files, exclude, staging.path, staging.resolvedCommit⟩, rfl,
        handed, ?_⟩
      rcases returns_bind.mp remaining with
        ⟨_, rfl, failed⟩ | ⟨fetched, moved, fetches, last⟩
      · rcases returns_refused_fetchInto failed with
          ⟨error, known, _, handled⟩ | ⟨_, succeeded, _⟩
        · exact Or.inl ⟨error, known, handled⟩
        · cases succeeded
      · rcases returns_refused_fetchInto fetches with
          ⟨_, _, failed, _⟩ | ⟨_, _, rfl⟩
        · cases failed
        · exact Or.inr (preserves_of_refused last)

theorem relinquishes_of_action
    {kind : Kind}
    {result : Except PullThroughError kind.Result}
    {before after : Site}
    (run : Returns (Refusing outside history)
      (kind.action repository requested) before result after) :
    after.transferred = before.transferred ∨
      Relinquishes outside history (outside.arrive before) after := by
  have within : ∀ op site reply later,
      Refusing outside history op site reply later →
        outside.Effect op site reply later :=
    fun _ _ _ _ issued => issued.1
  cases kind with
  | pullThrough reconcile selection =>
      refine ends_of_acquisition within ?_ run
      intro selection site later result run
      exact relinquishes_of_transfer run
  | refresh dryRun =>
      refine ends_of_refresh within ?_ run
      intro previous site later result run
      exact @relinquishes_of_transfer _ _ _ _ _ [] [] _ _ _ _ run

/-! ## What is left of it -/

/-- The directory waits under an abandoned name, and every request that its
identity serves adopts it. -/
def Adoptable (area : TemporaryArea) (entry : AreaEntry)
    (metadata : FetchStagingMetadata) : Prop :=
  ∃ id,
    area.entry (.abandoned id) =
      some { entry with dir := { entry.dir with lease := .expires 0 } } ∧
    ∀ request now,
      Staging.namesSameRevision metadata request = true →
      Staging.stagingSelectionIsAdoptable metadata.files request.files =
        true →
      Staging.World.judgeAbandoned ⟨area, now⟩ request now
        (.ok (.abandoned id, true)) = .adopt (.abandoned id) metadata

/-- The directory is nowhere. -/
def Gone (area : TemporaryArea) (entry : AreaEntry) : Prop :=
  ∀ name found, area.entry name = some found → found.inode ≠ entry.inode

variable {before after : Site} {name : EntryName} {entry : AreaEntry}
  {metadata : FetchStagingMetadata}

theorem gone_of_removed
    {start last : Staging.World}
    (stands : start.area.entry name = some entry)
    (removed : Staging.Removed start last name) :
    Gone last.area entry := by
  intro other found standsToo same
  rw [removed.2] at standsToo
  split at standsToo
  · cases standsToo
  · next different =>
      exact different (start.area.distinct _ _ _ _ standsToo stands same)

theorem adoptable_of_replaced
    {start last : Staging.World}
    {id commit : String}
    (recorded : entry.dir.identity = .decoded metadata)
    (valid : Staging.checkMetadata metadata = .ok metadata)
    (resolved : metadata.resolvedCommit = some commit)
    (replaced : Staging.Replaced start last name (.abandoned id)
      { entry with dir := { entry.dir with lease := .expires 0 } }) :
    Adoptable last.area entry metadata :=
  ⟨id, replaced.entry_new, fun _ _ sameRevision adoptable =>
    judge_of_abandoned replaced.entry_new rfl recorded valid resolved
      sameRevision adoptable⟩

/-- Preserving keeps staging whose commit was recorded and removes the
other. -/
theorem left_of_preserve
    {preserved : Except ArchiveError Bool}
    (stands : before.staging.area.entry name = some entry)
    (recorded : entry.dir.identity = .decoded metadata)
    (valid : Staging.checkMetadata metadata = .ok metadata)
    (run : (perform (.preserveStaging name)).Runs outside.Effect before
      preserved after) :
    (∀ commit, metadata.resolvedCommit = some commit →
      Adoptable after.staging.area entry metadata) ∧
    (metadata.resolvedCommit = none →
      Staging.Removed before.staging after.staging name) := by
  have identity : before.staging.identity name = .ok metadata :=
    Staging.identity_eq_ok.mpr ⟨entry, stands, recorded, valid⟩
  obtain ⟨area, preserves, rfl⟩ := runs_perform.mp run
  cases Staging.returns_preserve preserves with
  | unidentified unread =>
      rw [identity] at unread
      cases unread
  | discarded identityToo unresolved removed =>
      rw [identity] at identityToo
      cases identityToo
      refine ⟨fun commit resolved => ?_, fun _ => removed⟩
      rw [resolved] at unresolved
      cases unresolved
  | kept identityToo resolved standsToo unspent replaced =>
      rw [identity] at identityToo
      cases identityToo
      rw [stands] at standsToo
      cases standsToo
      refine ⟨fun _ _ => adoptable_of_replaced recorded valid resolved
        replaced, fun unresolved => ?_⟩
      rw [resolved] at unresolved
      cases unresolved

/-- The handler removes staging whose commit was not recorded. -/
theorem removed_of_handled
    {error : UpstreamError}
    (stands : before.staging.area.entry name = some entry)
    (recorded : entry.dir.identity = .decoded metadata)
    (valid : Staging.checkMetadata metadata = .ok metadata)
    (unresolved : metadata.resolvedCommit = none)
    (run : (handleFetchFailure name error).Runs outside.Effect before ()
      after) :
    Staging.Removed before.staging after.staging name := by
  unfold handleFetchFailure at run
  split at run
  · obtain ⟨preserved, middle, kept, remaining⟩ := (runs_bind ..).mp run
    have removed :=
      (left_of_preserve stands recorded valid kept).2 unresolved
    split at remaining
    · obtain ⟨_, rfl⟩ := remaining
      exact removed
    · obtain ⟨_, area, drops, rfl⟩ := runs_dropStaging.mp remaining
      have absent : middle.staging.area.entry name = none := by
        rw [removed.2, if_pos rfl]
      rw [Staging.returns_removeDirAll_absent absent drops]
      exact removed
  · obtain ⟨_, area, drops, rfl⟩ := runs_dropStaging.mp run
    exact (Staging.returns_removeDirAll stands drops).2

/-- What a cancelled acquisition leaves of the staging its fetch ended in. -/
theorem left_of_relinquishes
    (gives : Relinquishes outside history before after)
    (transferred : after.transferred = some entry) :
    ∃ metadata, entry.dir.identity = .decoded metadata ∧
      (∀ commit, metadata.resolvedCommit = some commit →
        (∀ request error,
          .answered (.fetch request) (.error error) ∈ history →
            isInterruption error = true) →
        Adoptable after.staging.area entry metadata) ∧
      (metadata.resolvedCommit = none → Gone after.staging.area entry) := by
  obtain ⟨staging, area, request, named, handed, gives⟩ := gives
  obtain ⟨start, standsStart, settled, _⟩ := Staging.handed_of_acquire handed
  rw [← named] at standsStart gives
  obtain ⟨later, ended, ⟨metadata, recorded⟩, filled⟩ := @filled_transfer
    (before.withStaging area) outside.transfer request start standsStart
    settled
  have valid := filled.valid metadata recorded
  have same : after.transferred =
      ((before.withStaging area).transfer outside.transfer
        request).transferred := by
    rcases gives with ⟨_, _, handled⟩ | ⟨_, preserves⟩
    · obtain ⟨_, rfl⟩ := aside_handleFetchFailure handled
      rfl
    · obtain ⟨_, _, rfl⟩ := runs_perform.mp preserves
      rfl
  rw [same, ended] at transferred
  cases transferred
  refine ⟨metadata, recorded, ?_⟩
  rcases gives with ⟨error, known, handled⟩ | ⟨preserved, preserves⟩
  · refine ⟨?_, fun unresolved => gone_of_removed filled.stands
      (removed_of_handled filled.stands recorded valid unresolved handled)⟩
    intro commit resolved interruptions
    have leftover := runs_handleFetchFailure filled.stands recorded valid
      resolved handled
    rw [if_pos (interruptions request error known)] at leftover
    obtain ⟨id, _, replaced⟩ := leftover
    exact adoptable_of_replaced recorded valid resolved replaced
  · have leftover := left_of_preserve filled.stands recorded valid preserves
    exact ⟨fun commit resolved _ => leftover.1 commit resolved,
      fun unresolved => gone_of_removed filled.stands
        (leftover.2 unresolved)⟩

/-- Cancellation and publication exclude each other; staging whose commit was
recorded is kept where this is promised. -/
structure Excludes {α : Type} (history : List Happening)
    (final : Progress interface (Site × Cancellation) α) (promised : Prop) :
    Prop where
  silent : (∃ event ∈ history, stops event = true) →
    ∀ event ∈ history, ¬writes event
  late : (∃ event ∈ history, grants event = true) →
    ∀ event ∈ history, ∀ outcome,
      cancelAnswer event = some outcome → outcome = .alreadyFinished
  once : history.countP stops ≤ 1
  leftover : (∃ event ∈ history, stops event = true) →
    ∀ result entry, final.rest = .done result →
      final.state.1.transferred = some entry →
      ∃ metadata, entry.dir.identity = .decoded metadata ∧
        (∀ commit, metadata.resolvedCommit = some commit → promised →
          Adoptable final.state.1.staging.area entry metadata) ∧
        (metadata.resolvedCommit = none →
          Gone final.state.1.staging.area entry)

/-- Once a cancellation has won, no claim is granted. -/
theorem Told.ungranted
    {phase : CancellationPhase}
    (told : Told history phase)
    (stopped : ∃ event ∈ history, stops event = true) :
    phase ≠ .committing ∧ ∀ event ∈ history, grants event = false := by
  have phased : phase ≠ .committing := by
    rintro rfl
    obtain ⟨event, member, stops⟩ := stopped
    cases told.finished rfl event member .cancelled
      (of_decide_eq_true stops)
  refine ⟨phased, fun event member => ?_⟩
  cases granted : grants event with
  | true => exact absurd (told.granted.mp ⟨event, member, granted⟩) phased
  | false => rfl

/-- The answers of a fetcher that ignores the token. -/
def respondTokened (outside : Outside) :
    (op : Op) → Site × Cancellation → op.Reply × (Site × Cancellation)
  | .isCancelled, state => (state.2.isCancelled, state)
  | .commit, state => (state.2.commit.1, (state.1, state.2.commit.2))
  | .cancel, state => (state.2.cancel.1, (state.1, state.2.cancel.2))
  | op, state =>
      ((outside.respond op state.1).1,
        ((outside.respond op state.1).2, state.2))

/-- A call of `cancel`. -/
def cancelNow (state : Site × Cancellation) :
    CancelOutcome × (Site × Cancellation) :=
  (state.2.cancel.1, (state.1, state.2.cancel.2))

/-- The pull-through of `main` that fails after it was cancelled during its
fetch. -/
def sampleCancelled (error : UpstreamError) :
    List Happening × Progress interface (Site × Cancellation)
      (Except PullThroughError AcquisitionResult) :=
  play (respondTokened (failingOutside error)) cancelNow
    [false, false, false, false, true, false, false, false]
    ((Kind.pullThrough false .all).action Sample.repository "main").run
    (Sample.site .empty, .new)

theorem sampleCancelled_happens (error : UpstreamError) :
    Happens (failingOutside error)
      ⟨((Kind.pullThrough false .all).action Sample.repository "main").run,
        (Sample.site .empty, .new)⟩
      (sampleCancelled error).1 (sampleCancelled error).2 := by
  apply follows_play
  · intro op state
    have effect := (failingOutside error).effect_respond op state.1
    cases op with
    | isCancelled => exact ⟨rfl, rfl⟩
    | commit => exact ⟨rfl, rfl⟩
    | cancel => exact ⟨rfl, rfl⟩
    | _ => exact ⟨effect, rfl⟩
  · exact fun _ => ⟨rfl, rfl⟩

end PullThrough
end ModelKeep
