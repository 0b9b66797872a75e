import ModelKeep.PullThrough.Passage
import ModelKeep.Staging.Resumption

/-!
# Transfers that fail

Whoever started it, a transfer that fails gives its staging to one handler.
Only some of the ways in which a failure is told are taken for interruptions;
staging of the others is removed, with the bytes that had been transferred.
-/

namespace ModelKeep
namespace PullThrough

open Concurrency Program

variable
  {α : Type}
  {outside : Outside}
  {repository : Repository}
  {requested : String}
  {error : UpstreamError}
  {before after : Site}

/-! ## The way to the handler -/

/-- A transfer that failed: staging was handed over, filled, and given to the
handler. -/
def GivesUp (outside : Outside) (error : UpstreamError)
    (arrived after : Site) : Prop :=
  ∃ (staging : FetchStaging) (area : Staging.World) (request : FetchRequest),
    request.staging = staging.path ∧
    Returns Staging.Effect
      (Staging.acquireFetchStaging request.stagingRequest) arrived.staging
      (.ok staging) area ∧
    (handleFetchFailure staging.path error).Runs outside.Effect
      ((arrived.withStaging area).transfer outside.transfer request) () after

theorem givesUp_of_transfer
    {files exclude : List String}
    {rest : FetchStaging → FetchedRevision → Action α}
    {result : Except PullThroughError α}
    (fails : ∀ resume, outside.transfer.outcome resume = .error error)
    (run : Returns outside.Effect (do
      let staging ← acquireStaging repository requested
        (selectionIdentity files exclude)
      let fetched ← fetchInto staging.path
        ⟨repository.repoType, repository.repoId, requested, files, exclude,
          staging.path, staging.resolvedCommit⟩
      rest staging fetched) before result after) :
    after.transferred = before.transferred ∨
      GivesUp outside error before after := by
  rcases returns_bind.mp run with
    ⟨_, rfl, failed⟩ | ⟨staging, acquired, acquires, remaining⟩
  · obtain ⟨_, area, _, _, rfl⟩ := returns_acquireStaging.mp failed
    exact Or.inl rfl
  obtain ⟨answer, area, same, handed, rfl⟩ :=
    returns_acquireStaging.mp acquires
  right
  have handles : ∀ outcome later,
      Returns outside.Effect (fetchInto staging.path
        ⟨repository.repoType, repository.repoId, requested, files, exclude,
          staging.path, staging.resolvedCommit⟩) (before.withStaging area)
        outcome later →
      (∃ reported, outcome = .error reported) ∧
        GivesUp outside error before later := by
    intro outcome later fetches
    rcases returns_fetchInto.mp fetches with
      ⟨_, succeeded, _⟩ | ⟨_, failed, rfl, handled⟩
    · rw [fails] at succeeded
      cases succeeded
    · rw [fails] at failed
      cases failed
      cases answer with
      | error refused => cases same
      | ok found =>
          cases same
          exact ⟨⟨_, rfl⟩, staging, area, ⟨repository.repoType,
            repository.repoId, requested, files, exclude, staging.path,
            staging.resolvedCommit⟩, rfl, handed, handled⟩
  rcases returns_bind.mp remaining with
    ⟨_, rfl, failed⟩ | ⟨_, moved, fetches, _⟩
  · exact (handles _ _ failed).2
  · obtain ⟨⟨_, same⟩, _⟩ := handles _ _ fetches
    cases same

/-- How a pull-through or a refresh may run. -/
inductive Acquires (outside : Outside) (repository : Repository)
    (requested : String) (before after : Site) : Prop
  | pullThrough
      {reconcile : Bool}
      {selection : FileSelection}
      {result : Except PullThroughError AcquisitionResult}
      (run : Returns outside.Effect
        (acquisition repository requested reconcile selection) before result
        after) :
      Acquires outside repository requested before after
  | refresh
      {dryRun : Bool}
      {result : Except PullThroughError RefreshResult}
      (run : Returns outside.Effect
        (refreshOnce repository requested dryRun) before result after) :
      Acquires outside repository requested before after

/-- A pull-through or a refresh whose transfer fails either never came to it,
or gives its staging to the handler. -/
theorem givesUp_of_acquires
    (fails : ∀ resume, outside.transfer.outcome resume = .error error)
    (run : Acquires outside repository requested before after) :
    after.transferred = before.transferred ∨
      GivesUp outside error (outside.arrive before) after := by
  have within : ∀ op before reply after,
      outside.Effect op before reply after →
        outside.Effect op before reply after :=
    fun _ _ _ _ issued => issued
  cases run with
  | pullThrough run =>
      refine ends_of_acquisition within ?_ run
      intro selection site later result run
      exact givesUp_of_transfer fails run
  | refresh run =>
      refine ends_of_refresh within ?_ run
      intro previous site later result run
      exact @givesUp_of_transfer _ _ _ _ _ _ _ [] [] _ _ fails run

/-! ## The staging that is given up -/

/-- What a transfer makes of its staging: the same directory, under a valid
identity if it has one, and the others as they were. -/
structure Filled (origin : Nat) (area : TemporaryArea) (name : EntryName)
    (start : TemporaryArea) (entry : AreaEntry) : Prop where
  stands : area.entry name = some entry
  inode : entry.inode = origin
  valid : ∀ metadata, entry.dir.identity = .decoded metadata →
    Staging.checkMetadata metadata = .ok metadata
  beside : Staging.SameBeside origin start area

theorem filled_transfer
    {transfer : Transfer}
    {request : FetchRequest}
    {entry : AreaEntry}
    (stands : before.staging.area.entry request.staging = some entry)
    (settled : Staging.SettledDir entry.dir) :
    ∃ later,
      (before.transfer transfer request).transferred = some later ∧
      (∃ decoded, later.dir.identity = .decoded decoded) ∧
      Filled entry.inode (before.transfer transfer request).staging.area
        request.staging before.staging.area later := by
  obtain ⟨_, metadata, recorded, valid⟩ := settled
  have standsMoved :=
    Staging.entry_change_self stands transfer.fill
  have besideMoved := Staging.sameBeside_change stands transfer.fill
  have moved : Filled entry.inode (before.moved transfer request).area
      request.staging before.staging.area
      { entry with dir := transfer.fill entry.dir } := by
    refine ⟨standsMoved, rfl, ?_, besideMoved⟩
    intro decoded same
    change entry.dir.identity = _ at same
    rw [recorded] at same
    cases same
    exact valid
  unfold Site.transfer
  dsimp only
  cases resolved : transfer.resolved with
  | none => exact ⟨_, standsMoved, ⟨metadata, recorded⟩, moved⟩
  | some commit =>
      have records := Staging.returns_record (runs_run
        Staging.effect_respond (Staging.recordFetchResolvedCommit
          request.staging request.stagingRequest commit).run
        (before.moved transfer request))
      rcases records with same | ⟨decoded, identity, same⟩
      · dsimp only
        rw [same]
        exact ⟨_, standsMoved, ⟨metadata, recorded⟩, moved⟩
      · dsimp only
        rw [same]
        have standsLater := Staging.entry_change_self moved.stands fun dir =>
          { dir with identity := .decoded { decoded with
            resolvedCommit := some commit } }
        refine ⟨_, standsLater, ⟨_, rfl⟩, standsLater, rfl, ?_,
          besideMoved.trans ?_⟩
        · intro other same
          cases same
          obtain ⟨_, _, _, validToo⟩ := Staging.identity_eq_ok.mp identity
          obtain ⟨⟨version, _⟩, requested⟩ :=
            Staging.checkMetadata_iff.mp validToo
          refine Staging.checkMetadata_iff.mpr ⟨⟨version, ?_⟩, requested⟩
          rintro _ ⟨⟩
          exact transfer.resolvedHf commit resolved
        · exact Staging.sameBeside_change moved.stands _

/-- What the handler does with staging whose commit was recorded. -/
theorem runs_handleFetchFailure
    {name : EntryName}
    {entry : AreaEntry}
    {metadata : FetchStagingMetadata}
    {commit : String}
    {answer : Unit}
    (stands : before.staging.area.entry name = some entry)
    (recorded : entry.dir.identity = .decoded metadata)
    (valid : Staging.checkMetadata metadata = .ok metadata)
    (resolved : metadata.resolvedCommit = some commit)
    (run : (handleFetchFailure name error).Runs outside.Effect before answer
      after) :
    if isInterruption error then
      ∃ id, id ∉ before.staging.area.spent ∧
        Staging.Replaced before.staging after.staging name (.abandoned id)
          { entry with dir := { entry.dir with lease := .expires 0 } }
    else Staging.Removed before.staging after.staging name := by
  have removed : ∀ {site later : Site},
      site.staging.area.entry name = some entry →
      (dropStaging name).Runs outside.Effect site () later →
      Staging.Removed site.staging later.staging name := by
    intro site later present drops
    obtain ⟨_, area, removes, rfl⟩ := runs_dropStaging.mp drops
    exact (Staging.returns_removeDirAll present removes).2
  unfold handleFetchFailure at run
  split at run
  · next interruption =>
      rw [if_pos interruption]
      obtain ⟨kept, middle, issued, remaining⟩ := (runs_bind ..).mp run
      obtain ⟨area, preserves, rfl⟩ := runs_perform.mp issued
      have identity : before.staging.identity name = .ok metadata :=
        Staging.identity_eq_ok.mpr ⟨entry, stands, recorded, valid⟩
      cases Staging.returns_preserve preserves with
      | unidentified unread =>
          rw [identity] at unread
          cases unread
      | discarded identityToo unresolved =>
          rw [identity] at identityToo
          cases identityToo
          rw [resolved] at unresolved
          cases unresolved
      | kept _ _ standsToo unspent replaced =>
          rw [stands] at standsToo
          cases standsToo
          obtain ⟨_, rfl⟩ := remaining
          exact ⟨_, unspent, replaced⟩
  · next other =>
      rw [if_neg other]
      exact removed stands run

/-! ## What is left to resume -/

/-- The directory waits under an abandoned name, with all that it held. -/
def Abandoned (area : TemporaryArea) (entry : AreaEntry) : Prop :=
  ∃ id, area.entry (.abandoned id) =
    some { entry with dir := { entry.dir with lease := .expires 0 } }

theorem judge_of_abandoned
    {area : TemporaryArea}
    {entry : AreaEntry}
    {metadata : FetchStagingMetadata}
    {request : StagingRequest}
    {commit id : String}
    {now : Nat}
    (stands : area.entry (.abandoned id) = some entry)
    (expired : entry.dir.lease = .expires 0)
    (recorded : entry.dir.identity = .decoded metadata)
    (valid : Staging.checkMetadata metadata = .ok metadata)
    (resolved : metadata.resolvedCommit = some commit)
    (sameRevision : Staging.namesSameRevision metadata request = true)
    (adoptable : Staging.stagingSelectionIsAdoptable metadata.files
      request.files = true) :
    Staging.World.judgeAbandoned ⟨area, now⟩ request now
      (.ok (.abandoned id, true)) = .adopt (.abandoned id) metadata := by
  have adopts : Staging.World.Adoptable ⟨area, now⟩ request now
      (.abandoned id) metadata := by
    refine ⟨rfl, ⟨entry, 0, stands, recorded, expired, Nat.zero_le _⟩, valid,
      sameRevision, adoptable, ?_⟩
    rw [resolved]
    rfl
  rcases Staging.judge_of_adoptable adopts with judged | judged
  · exact judged
  · cases judged

/-- A commit is resumed from the directory that stands for it when nothing
else disturbs. -/
theorem resumes_of_abandoned_iff
    {area : TemporaryArea}
    {entry : AreaEntry}
    {metadata : FetchStagingMetadata}
    {request : StagingRequest}
    {commit id : String}
    {now : Nat}
    (stands : area.entry (.abandoned id) = some entry)
    (expired : entry.dir.lease = .expires 0)
    (recorded : entry.dir.identity = .decoded metadata)
    (valid : Staging.checkMetadata metadata = .ok metadata)
    (resolved : metadata.resolvedCommit = some commit)
    (asked : Staging.validateRequest request = .ok ())
    (sameRevision : Staging.namesSameRevision metadata request = true)
    (adoptable : Staging.stagingSelectionIsAdoptable metadata.files
      request.files = true) :
    Staging.World.Resumes ⟨area, now⟩ request commit ↔
      Staging.Undisturbed area entry.inode now request commit := by
  have judged : Staging.World.judgeAbandoned ⟨area, now⟩ request now
      (.ok (.abandoned id, true)) = .adopt (.abandoned id) metadata :=
    judge_of_abandoned stands expired recorded valid resolved sameRevision
      adoptable
  have stops : Staging.World.Stops ⟨area, now⟩ request (.abandoned id) := by
    refine ⟨by rw [stands]; rfl, ?_⟩
    rw [judged]
    simp
  rw [Staging.resumes_iff asked stops]
  constructor
  · intro agrees name found present _
    exact agrees name (by rw [present]; rfl)
  · intro undisturbed name present
    obtain ⟨found, standsToo⟩ := Option.isSome_iff_exists.mp present
    by_cases same : found.inode = entry.inode
    · obtain rfl := area.distinct _ _ _ _ standsToo stands same
      unfold Staging.World.Agrees
      simp only [judged]
      exact resolved
    · exact undisturbed name found standsToo same

/-- After a transfer failed whose commit was recorded, its staging waits under
an abandoned name and every acquisition that may adopt it resumes that commit,
exactly when the failure is taken for an interruption and no other abandoned
directory comes between. -/
theorem failure_resumable_iff
    {entry : AreaEntry}
    {metadata : FetchStagingMetadata}
    {request : StagingRequest}
    {commit : String}
    {now : Nat}
    (fails : ∀ resume, outside.transfer.outcome resume = .error error)
    (run : Acquires outside repository requested before after)
    (unstarted : before.transferred = none)
    (transferred : after.transferred = some entry)
    (recorded : entry.dir.identity = .decoded metadata)
    (resolved : metadata.resolvedCommit = some commit)
    (asked : Staging.validateRequest request = .ok ())
    (sameRevision : Staging.namesSameRevision metadata request = true)
    (adoptable : Staging.stagingSelectionIsAdoptable metadata.files
      request.files = true) :
    (Abandoned after.staging.area entry ∧
        Staging.World.Resumes ⟨after.staging.area, now⟩ request commit) ↔
      isInterruption error = true ∧
        Staging.Undisturbed (outside.arrive before).staging.area entry.inode
          now request commit := by
  rcases givesUp_of_acquires fails run with
    same | ⟨staging, area, fetch, named, handed, handled⟩
  · rw [same, unstarted] at transferred
    cases transferred
  obtain ⟨start, standsStart, settled, besideStart⟩ :=
    Staging.handed_of_acquire handed
  rw [← named] at standsStart handled
  have besideArrived : Staging.SameBeside start.inode
      (outside.arrive before).staging.area area.area := besideStart
  obtain ⟨later, ended, _, filled⟩ := @filled_transfer
    ((outside.arrive before).withStaging area) outside.transfer fetch start
    standsStart settled
  have leaves : after.transferred = some later := by
    obtain ⟨_, rfl⟩ := aside_handleFetchFailure handled
    exact ended
  rw [transferred] at leaves
  cases leaves
  have beside := besideArrived.trans filled.beside
  have valid := filled.valid metadata recorded
  have leftover := runs_handleFetchFailure filled.stands recorded valid
    resolved handled
  by_cases interruption : isInterruption error = true
  · rw [if_pos interruption] at leftover
    obtain ⟨id, unspent, replaced⟩ := leftover
    have besideLater : Staging.SameBeside entry.inode _ after.staging.area :=
      replaced.sameBeside (by
        intro found stands
        rw [filled.stands] at stands
        cases stands
        rfl) (by
        intro found stands
        rw [Staging.entry_of_unspent unspent rfl] at stands
        cases stands)
    rw [filled.inode] at besideLater
    have kept : Abandoned after.staging.area entry := ⟨id, replaced.entry_new⟩
    rw [and_iff_right kept, and_iff_right interruption, filled.inode,
      (beside.trans besideLater).undisturbed_iff, ← filled.inode]
    exact @resumes_of_abandoned_iff _ { entry with dir := { entry.dir with
      lease := .expires 0 } } _ _ _ _ _ replaced.entry_new rfl recorded valid
      resolved asked sameRevision adoptable
  · rw [if_neg interruption] at leftover
    refine iff_of_false ?_ fun both => interruption both.1
    rintro ⟨⟨id, stands⟩, _⟩
    rw [leftover.2] at stands
    split at stands
    · cases stands
    · next different =>
        have same := TemporaryArea.distinct _ _ _ _ _ stands filled.stands rfl
        exact different same

/-! ## Samples -/

/-- The failures that leave something to resume, in both encodings. -/
def leavesBytes : UpstreamError → Bool
  | .helperFailure failure =>
      failure.failureClass ∈ [.unavailable, .rateLimited, .clientFailure]
  | error => isInterruption error

/-- A transfer that fails after it recorded its commit. -/
def failingTransfer (error : UpstreamError) : Transfer :=
  { Sample.transfer Sample.older ["a"] with
    outcome := fun _ => .error error
    resolved := some Sample.older
    resolvedHf := by decide }

def failingOutside (error : UpstreamError) : Outside :=
  Sample.outside (failingTransfer error)

/-- The pull-through of `main` that fails. -/
def sampleFailure (error : UpstreamError) : Site :=
  ((acquisition Sample.repository "main" false .all).run.run
    (failingOutside error).respond (Sample.site .empty)).2

theorem sampleFailure_acquires (error : UpstreamError) :
    Acquires (failingOutside error) Sample.repository "main"
      (Sample.site .empty) (sampleFailure error) :=
  .pullThrough ((failingOutside error).returns_respond
    (acquisition Sample.repository "main" false .all) _)

/-- The identity of the staging of `main`. -/
def sampleIdentity : FetchStagingMetadata :=
  ⟨1, .model, "org/model", "main", [], some Sample.older⟩

theorem sampleFailure_transferred
    {error : UpstreamError}
    (known : error ∈ [.unavailable,
      .helperFailure ⟨.unavailable, none, none⟩]) :
    ∃ entry, (sampleFailure error).transferred = some entry ∧
      entry.dir.identity = .decoded sampleIdentity := by
  have seen : (sampleFailure error).transferred.map
      (fun entry => entry.dir.identity) = some (.decoded sampleIdentity) := by
    rcases List.mem_cons.mp known with rfl | last
    · rfl
    · obtain rfl := List.mem_singleton.mp last
      rfl
  exact Option.map_eq_some_iff.mp seen

/-- Upstream became unavailable. -/
theorem failure_resumable_iff_of_unavailable :
    ∃ entry, (sampleFailure .unavailable).transferred = some entry ∧
      ((Abandoned (sampleFailure .unavailable).staging.area entry ∧
          Staging.World.Resumes
            ⟨(sampleFailure .unavailable).staging.area, 200⟩
            ⟨.model, "org/model", "main", ["a"]⟩ Sample.older) ↔
        isInterruption .unavailable = true ∧
          Staging.Undisturbed ((failingOutside .unavailable).arrive
              (Sample.site .empty)).staging.area entry.inode 200
            ⟨.model, "org/model", "main", ["a"]⟩ Sample.older) := by
  obtain ⟨entry, transferred, recorded⟩ :=
    sampleFailure_transferred List.mem_cons_self
  exact ⟨entry, transferred, failure_resumable_iff (fun _ => rfl)
    (sampleFailure_acquires _) rfl transferred recorded rfl
    (by decide +kernel) (by decide) (by decide)⟩

/-- The helper reports that upstream is unavailable, and the staging with the
commit that it had recorded is gone. -/
theorem failure_removes :
    ¬∀ (outside : Outside) (repository : Repository) (requested : String)
      (error : UpstreamError) (before after : Site) (entry : AreaEntry)
      (metadata : FetchStagingMetadata) (request : StagingRequest)
      (commit : String) (now : Nat),
      leavesBytes error = true →
      (∀ resume, outside.transfer.outcome resume = .error error) →
      Acquires outside repository requested before after →
      before.transferred = none →
      after.transferred = some entry →
      entry.dir.identity = .decoded metadata →
      metadata.resolvedCommit = some commit →
      Staging.validateRequest request = .ok () →
      Staging.namesSameRevision metadata request = true →
      Staging.stagingSelectionIsAdoptable metadata.files request.files =
        true →
      Abandoned after.staging.area entry ∧
        Staging.World.Resumes ⟨after.staging.area, now⟩ request commit := by
  intro keeps
  let error : UpstreamError := .helperFailure ⟨.unavailable, none, none⟩
  obtain ⟨entry, transferred, recorded⟩ :
      ∃ entry, (sampleFailure error).transferred = some entry ∧
        entry.dir.identity = .decoded sampleIdentity :=
    sampleFailure_transferred (by decide)
  obtain ⟨⟨id, stands⟩, _⟩ := keeps (failingOutside error) _ _ error _ _ entry
    _ sampleIdentity.request _ 200 rfl (fun _ => rfl)
    (sampleFailure_acquires _) rfl transferred recorded rfl
    (by decide +kernel) (by decide) (by decide)
  have nothing : (sampleFailure error).staging.area.names = [] := by
    decide +kernel
  have listed : EntryName.abandoned id ∈
      (sampleFailure error).staging.area.names := by
    rw [TemporaryArea.mem_names, stands]
    rfl
  rw [nothing] at listed
  cases listed

end PullThrough
end ModelKeep
