import ModelKeep.PullThrough.Steps
import ModelKeep.Staging.Live

/-!
# Refreshes

A refresh publishes what it fetched unless the commit is complete already, and
then lets the ref name it.  It does not extend a complete revision, and it
resumes whatever commit the staging it is handed was recorded at.
-/

namespace ModelKeep
namespace PullThrough

open Concurrency Program

variable
  {α : Type}
  {outside : Outside}
  {repository : Repository}
  {reference : String}
  {before after : Site}

/-! ## What a successful refresh has done -/

/-- A refresh leaves a complete commit as it is and publishes any other. -/
inductive Refreshes (outside : Outside) (repository : Repository)
    (reference : String) (fetched : FetchedRevision)
    (staged : Option StagingDir) (archive : Archive) : Archive → Prop
  | complete
      (complete : archive.Complete repository fetched.commit) :
      Refreshes outside repository reference fetched staged archive archive
  | published
      {later : Archive}
      (incomplete : ¬archive.Complete repository fetched.commit)
      (stores : Stores outside repository reference fetched staged archive
        .published later) :
      Refreshes outside repository reference fetched staged archive later

theorem ready_nil
    {archive : Archive}
    {commit : String} :
    archive.Ready repository commit [] ↔
      archive.Complete repository commit := by
  simp [Archive.Ready]

theorem returns_publishUnready
    {fetched : FetchedRevision}
    {staging : EntryName}
    (run : Returns outside.Effect
      (publishUnready repository reference fetched staging) before (.ok ())
      after) :
    Refreshes outside repository reference fetched (before.staged staging)
      before.archive after.archive := by
  unfold publishUnready at run
  rw [returns_always_of (settles_revisionIsReady repository fetched.commit
    [])] at run
  simp only [ready_nil] at run
  by_cases complete : before.archive.Complete repository fetched.commit
  · rw [decide_eq_true complete] at run
    obtain ⟨_, rfl⟩ := returns_check.mp run
    exact .complete complete
  · rw [decide_eq_false complete] at run
    refine (returns_publish complete ?_ run).elim ?_ ?_
    · intro commit middle result later same run
      rw [returns_always_of (settles_revisionIsReady repository
        fetched.commit [])] at run
      simp only [ready_nil, same, decide_eq_false complete] at run
      obtain ⟨rfl, rfl⟩ := returns_check.mp run
      exact ⟨⟨_, rfl⟩, same⟩
    · rintro ⟨error, same, _⟩
      cases same
    · rintro ⟨middle, stores, last⟩
      obtain ⟨_, rfl⟩ := returns_check.mp last
      exact .published complete stores

theorem returns_finishRefresh
    {previous : Option String}
    {fetched : FetchedRevision}
    {staging : EntryName}
    {recorded : List String}
    {result : RefreshResult}
    (run : Returns outside.Effect (finishRefresh repository reference false
      previous fetched staging recorded) before (.ok result) after) :
    result = ⟨previous, fetched.commit, true⟩ ∧
      ∃ stored, Refreshes outside repository reference fetched
          (before.staged staging) before.archive stored ∧
        stored.SameContent after.archive ∧
        after.archive.resolveRef repository reference =
          .ok fetched.commit := by
  unfold finishRefresh at run
  rw [if_neg Bool.false_ne_true] at run
  obtain ⟨⟨⟩, middle, published, run⟩ := returns_bind_ok.mp run
  obtain ⟨⟨⟩, noted, notes, remaining⟩ := returns_always_bind.mp run
  obtain ⟨⟨⟩, dropped, drops, remaining⟩ := returns_always_bind.mp remaining
  obtain ⟨⟨⟩, named, names, last⟩ := returns_bind_ok.mp remaining
  obtain ⟨same, rfl⟩ := returns_check.mp last
  have content := (runs_recordUpstreamFiles notes).2
  rcases returns_nameRef names with ⟨_, failed, _⟩ | ⟨_, updated⟩
  · cases failed
  rw [(aside_dropStaging drops).archive] at updated
  exact ⟨Except.ok.inj same, middle.archive, returns_publishUnready published,
    content.trans (Archive.sameContent_updateRef updated),
    Archive.resolveRef_updateRef updated⟩

/-- What a refresh that succeeds has done: it was handed staging, fetched the
commit that staging stood for, stored it and let the ref name it. -/
structure Refreshed (outside : Outside) (repository : Repository)
    (reference : String) (arrived after : Site) (result : RefreshResult)
    (staging : FetchStaging) (fetched : FetchedRevision) : Prop where
  handed : ∃ area, Returns Staging.Effect (Staging.acquireFetchStaging
    ⟨repository.repoType, repository.repoId, reference, []⟩)
    arrived.staging (.ok staging) area
  fetches :
    outside.transfer.outcome staging.resolvedCommit = .ok fetched
  proposed : result.proposed = fetched.commit
  stored : ∃ staged stored,
    (∀ dir, staged = some dir → dir.payload = outside.transfer.payload) ∧
    Refreshes outside repository reference fetched staged arrived.archive
      stored ∧
    stored.SameContent after.archive
  named : after.archive.resolveRef repository reference = .ok fetched.commit

theorem returns_refreshFetched
    {previous : Option String}
    {result : RefreshResult}
    (run : Returns outside.Effect
      (refreshFetched repository reference false previous) before
      (.ok result) after) :
    ∃ staging fetched, Refreshed outside repository reference before after
      result staging fetched := by
  unfold refreshFetched at run
  obtain ⟨staging, acquired, acquires, remaining⟩ := returns_bind_ok.mp run
  obtain ⟨answer, area, same, handed, rfl⟩ :=
    returns_acquireStaging.mp acquires
  obtain ⟨fetched, moved, fetches, remaining⟩ :=
    returns_bind_ok.mp remaining
  rcases returns_fetchInto.mp fetches with
    ⟨_, succeeded, sameToo, rfl⟩ | ⟨_, _, failed, _⟩
  swap
  · cases failed
  cases sameToo
  rw [returns_always_of (settles_perform fun _ _ => Iff.rfl)] at remaining
  obtain ⟨⟨⟩, claimed, claims, last⟩ := returns_bind_ok.mp remaining
  obtain ⟨_, rfl⟩ | ⟨failed, _⟩ := returns_claimPublication claims
  swap
  · cases failed
  obtain ⟨rfl, stored, refreshes, content, named⟩ :=
    returns_finishRefresh last
  cases answer with
  | error error => cases same
  | ok found =>
      cases same
      exact ⟨staging, fetched, ⟨area, handed⟩, succeeded, rfl,
        ⟨_, stored, fun _ staged => payload_transfer staged, refreshes,
          content⟩, named⟩

theorem returns_refreshOnce
    {result : RefreshResult}
    (run : Returns outside.Effect (refreshOnce repository reference false)
      before (.ok result) after) :
    ∃ staging fetched, Refreshed outside repository reference
      (outside.arrive before) after result staging fetched := by
  unfold refreshOnce at run
  rw [returns_always_of (settles_resolveRef repository reference)] at run
  obtain ⟨waited, arrived, enters, remaining⟩ := returns_bind_ok.mp run
  obtain ⟨_, rfl⟩ := returns_gate.mp enters
  obtain ⟨cancelled, middle, looks, last⟩ :=
    returns_always_bind.mp remaining
  obtain rfl : middle = outside.arrive before := runs_perform.mp looks
  cases cancelled with
  | true => cases (returns_check.mp last).1
  | false => exact returns_refreshFetched last

/-! ## What the refreshed commit serves -/

/-- The ref names the commit, and the commit serves the files. -/
def Serves (archive : Archive) (repository : Repository)
    (reference commit : String) (files : List String) : Prop :=
  archive.resolveRef repository reference = .ok commit ∧
    ∀ path ∈ files, archive.Holds repository commit path

/-- A complete commit has to serve the reported files already; any other one
serves those that were staged as regular files under a reported spelling. -/
def Covers (archive : Archive) (repository : Repository)
    (payload : FileTree Bytes) (fetched : FetchedRevision) : Prop :=
  if archive.Complete repository fetched.commit then
    ∀ path ∈ fetched.files, archive.Holds repository fetched.commit path
  else
    ∀ path ∈ fetched.files,
      payload.isFile (plainComponents path) = true ∧
        joinPath (plainComponents path) ∈ fetched.files

theorem holds_of_stores
    {fetched : FetchedRevision}
    {staged : Option StagingDir}
    {archive later : Archive}
    {path : String}
    (payload : ∀ dir, staged = some dir →
      dir.payload = outside.transfer.payload)
    (stores : Stores outside repository reference fetched staged archive
      .published later)
    (incomplete : ¬archive.Complete repository fetched.commit)
    (reported : path ∈ fetched.files) :
    later.Holds repository fetched.commit path ↔
      outside.transfer.payload.isFile (plainComponents path) = true ∧
        joinPath (plainComponents path) ∈ fetched.files := by
  generalize outcome : AcquisitionOutcome.published = stored at stores
  cases stores with
  | extended complete => exact absurd complete incomplete
  | published _ published =>
      obtain ⟨_, _, _, _, dir, _, rfl, _⟩ := Archive.publish_eq_ok published
      rw [← payload dir rfl]
      exact Archive.holds_publish published reported

/-- A refresh that succeeds lets the ref name what was fetched, and that
commit serves every reported file exactly when it was covered. -/
theorem refresh_serves_iff
    {fetched : FetchedRevision}
    {result : RefreshResult}
    (fetches : ∀ resume, outside.transfer.outcome resume = .ok fetched)
    (run : Returns outside.Effect (refreshOnce repository reference false)
      before (.ok result) after) :
    result.proposed = fetched.commit ∧
      (Serves after.archive repository reference result.proposed
          fetched.files ↔
        Covers (outside.arrive before).archive repository
          outside.transfer.payload fetched) := by
  obtain ⟨staging, reported, refreshed⟩ := returns_refreshOnce run
  obtain rfl : fetched = reported :=
    Except.ok.inj ((fetches _).symm.trans refreshed.fetches)
  obtain ⟨staged, stored, payload, refreshes, content⟩ := refreshed.stored
  refine ⟨refreshed.proposed, ?_⟩
  unfold Serves Covers
  rw [refreshed.proposed, and_iff_right refreshed.named]
  cases refreshes with
  | complete complete =>
      rw [if_pos complete]
      apply forall₂_congr
      intro path reported
      exact content.holds_iff
  | published incomplete stores =>
      rw [if_neg incomplete]
      apply forall₂_congr
      intro path reported
      rw [content.holds_iff]
      exact holds_of_stores payload stores incomplete reported

/-- The refresh of `main` that nobody cancels. -/
def sampleRefresh (outside : Outside) (site : Site) :
    Except PullThroughError RefreshResult × Site :=
  (refreshOnce Sample.repository "main" false).run.run outside.respond site

/-- A refresh into an empty archive. -/
theorem refresh_serves_iff_of_publication :
    ∃ result after,
      Returns (Sample.outside (Sample.transfer Sample.older ["a"])).Effect
        (refreshOnce Sample.repository "main" false) (Sample.site .empty)
        (.ok result) after ∧
      result.proposed = Sample.older ∧
      (Serves after.archive Sample.repository "main" result.proposed ["a"] ↔
        Covers .empty Sample.repository (Sample.payload ["a"])
          ⟨Sample.older, ["a"]⟩) := by
  let outside := Sample.outside (Sample.transfer Sample.older ["a"])
  let ended := sampleRefresh outside (Sample.site .empty)
  have succeeds : ended.1 = .ok ⟨none, Sample.older, true⟩ := by
    decide +kernel
  have run := outside.returns_respond
    (refreshOnce Sample.repository "main" false) (Sample.site .empty)
  change Returns _ _ _ ended.1 ended.2 at run
  rw [succeeds] at run
  exact ⟨_, _, run, refresh_serves_iff (fun _ => rfl) run⟩

/-- The commit is published with one file, and a refresh that transfers two
leaves it at that. -/
theorem refresh_serves_less :
    ¬∀ (outside : Outside) (repository : Repository) (reference : String)
      (before after : Site) (fetched : FetchedRevision)
      (result : RefreshResult),
      (∀ resume, outside.transfer.outcome resume = .ok fetched) →
      Returns outside.Effect (refreshOnce repository reference false) before
        (.ok result) after →
      Serves after.archive repository reference result.proposed
        fetched.files := by
  intro serves
  let outside := Sample.outside (Sample.transfer Sample.older ["a", "b"])
  let site := Sample.site (Sample.archive Sample.older ["a"])
  let ended := sampleRefresh outside site
  have succeeds : ended.1 = .ok ⟨some Sample.older, Sample.older, true⟩ := by
    decide +kernel
  have run := outside.returns_respond
    (refreshOnce Sample.repository "main" false) site
  change Returns _ _ _ ended.1 ended.2 at run
  rw [succeeds] at run
  have served := (serves outside _ _ site ended.2 ⟨Sample.older, ["a", "b"]⟩
    _ (fun _ => rfl) run).2 "b" (by decide)
  have missing : ¬ended.2.archive.Holds Sample.repository Sample.older
      "b" := by
    decide +kernel
  exact missing served

/-! ## What the ref names after a refresh -/

/-- The ref names a commit that upstream named, so it went back only if
upstream did. -/
def Follows (named : String → Prop) (older : String → String → Prop)
    (repository : Repository) (reference : String)
    (before after : Archive) : Prop :=
  (∃ commit, after.resolveRef repository reference = .ok commit ∧
    named commit) ∧
  ∀ previous commit,
    before.resolveRef repository reference = .ok previous →
    (∀ current, named current → ¬older current previous) →
    after.resolveRef repository reference = .ok commit →
    ¬older commit previous

/-- A transfer that resumes stays at its commit; any other follows upstream
to the newer one. -/
def followingOutside : Outside :=
  Sample.outside { Sample.transfer Sample.newer ["a"] with
    outcome := fun resume => .ok ⟨resume.getD Sample.newer, ["a"]⟩ }

/-- The area after a download of the older commit was interrupted. -/
def interruptedArea : Staging.World :=
  [Staging.AreaAction.acquire Staging.allFiles,
    .record (.active "f") Staging.allFiles Sample.older,
    .preserve (.active "f")].foldl Staging.World.next ⟨.empty, 100⟩

end PullThrough
end ModelKeep
