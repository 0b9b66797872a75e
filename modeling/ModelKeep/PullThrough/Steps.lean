import ModelKeep.PullThrough.Effects

/-!
# What the parts of an acquisition come down to

The looks at the archive are functions of it.  A transfer ends in one of a few
ways, and what it writes is one publication or one extension, then a record,
then refs.
-/

namespace ModelKeep
namespace PullThrough

open Concurrency Program

variable
  {α : Type}
  {outside : Outside}
  {repository : Repository}
  {requested : String}
  {before after : Site}

theorem runs_perform
    {op : Op}
    {reply : op.Reply} :
    (perform op).Runs outside.Effect before reply after ↔
      outside.Effect op before reply after :=
  Program.runs_perform

/-- A call that only the site decides. -/
theorem settles_perform
    {op : Op}
    (settled : ∀ reply after, outside.Effect op before reply after ↔
      outside.respond op before = (reply, after)) :
    Settles outside.Effect (perform op) before
      (outside.respond op before).1 (outside.respond op before).2 := by
  intro answer later
  rw [runs_perform, settled, Prod.ext_iff]
  exact and_congr eq_comm eq_comm

theorem returns_reporting
    {ε : Type}
    {report : ε → PullThroughError}
    {program : Program interface (Except ε α)}
    {result : Except PullThroughError α} :
    Returns outside.Effect (reporting report program) before result after ↔
      ∃ outcome, result = outcome.mapError report ∧
        program.Runs outside.Effect before outcome after := by
  have mapped : Returns outside.Effect (attempt ((attempt program).run >>=
      fun outcome => .done (outcome.mapError report))) before result after ↔
      _ := returns_mapError
  exact mapped

/-! ## Looks at the archive -/

section looks

variable (repository)

theorem settles_resolveRef (reference : String) :
    Settles outside.Effect (perform (.resolveRef repository reference))
      before (before.archive.resolveRef repository reference) before :=
  settles_perform fun _ _ => Iff.rfl

theorem settles_isComplete (commit : String) :
    Settles outside.Effect (perform (.isComplete repository commit)) before
      (before.archive.isCompleteRevision repository commit) before :=
  settles_perform fun _ _ => Iff.rfl

theorem settles_resolveFile (commit path : String) :
    Settles outside.Effect (perform (.resolveFile repository commit path))
      before (before.archive.resolveFile repository commit path) before :=
  settles_perform fun _ _ => Iff.rfl

theorem settles_allResolve
    (commit : String)
    (files : List String) :
    Settles outside.Effect (allResolve repository commit files) before
      (decide (∀ file ∈ files, before.archive.Holds repository commit file))
      before := by
  induction files with
  | nil => simp [allResolve]
  | cons file rest inductionHypothesis =>
      refine settles_bind (settles_resolveFile repository commit file) ?_
      cases found : before.archive.resolveFile repository commit file with
      | ok resolved =>
          have holds : before.archive.Holds repository commit file :=
            ⟨resolved, found⟩
          simpa [holds] using inductionHypothesis
      | error error =>
          have missing : ¬before.archive.Holds repository commit file := by
            intro ⟨resolved, present⟩
            rw [found] at present
            cases present
          simp [missing]

theorem settles_revisionIsPublished (commit : String) :
    Settles outside.Effect (revisionIsPublished repository commit) before
      (decide (before.archive.Complete repository commit)) before := by
  refine settles_bind (settles_isComplete repository commit) ?_
  cases found : before.archive.isCompleteRevision repository commit with
  | error error => simp [Archive.Complete, found]
  | ok complete => cases complete <;> simp [Archive.Complete, found]

theorem settles_revisionIsReady
    (commit : String)
    (files : List String) :
    Settles outside.Effect (revisionIsReady repository commit files) before
      (decide (before.archive.Ready repository commit files)) before := by
  refine settles_bind (settles_isComplete repository commit) ?_
  cases found : before.archive.isCompleteRevision repository commit with
  | error error => simp [Archive.Ready, Archive.Complete, found]
  | ok complete =>
      cases complete with
      | true =>
          simpa [Archive.Ready, Archive.Complete, found] using
            settles_allResolve repository commit files
      | false => simp [Archive.Ready, Archive.Complete, found]

theorem settles_readyRef (files : List String) :
    Settles outside.Effect (readyRef repository requested files) before
      (before.archive.readyTarget repository requested files) before := by
  refine settles_bind (settles_resolveRef repository requested) ?_
  unfold Archive.readyTarget
  cases before.archive.resolveRef repository requested with
  | error error => exact settles_done
  | ok commit =>
      refine settles_bind (settles_revisionIsReady repository commit files) ?_
      by_cases ready : before.archive.Ready repository commit files
      · simp [ready]
      · simp [ready]

theorem settles_publishedDirectly :
    Settles outside.Effect (publishedDirectly repository requested) before
      (if before.archive.Complete repository requested then some requested
        else none) before := by
  refine settles_bind (settles_revisionIsPublished repository requested) ?_
  by_cases complete : before.archive.Complete repository requested
  · simp [complete]
  · simp [complete]

theorem settles_publishedCommit :
    Settles outside.Effect (publishedCommit repository requested) before
      (before.archive.publishedCommit repository requested) before := by
  refine settles_bind (settles_resolveRef repository requested) ?_
  unfold Archive.publishedCommit Archive.readyTarget
  cases before.archive.resolveRef repository requested with
  | error error => exact settles_publishedDirectly repository
  | ok commit =>
      refine settles_bind (settles_revisionIsPublished repository commit) ?_
      by_cases complete : before.archive.Complete repository commit
      · simp [complete, Archive.Ready]
      · simpa [complete, Archive.Ready] using
          settles_publishedDirectly repository

end looks

/-! ## Staging -/

theorem returns_acquireStaging
    {selection : List String}
    {result : Except PullThroughError FetchStaging} :
    Returns outside.Effect (acquireStaging repository requested selection)
        before result after ↔
      ∃ answer staging, result = answer.mapError fetchStagingFailure ∧
        Returns Staging.Effect (Staging.acquireFetchStaging
          ⟨repository.repoType, repository.repoId, requested, selection⟩)
          before.staging answer staging ∧
        after = before.withStaging staging := by
  unfold acquireStaging
  rw [returns_reporting]
  constructor
  · rintro ⟨answer, rfl, issued⟩
    obtain ⟨staging, acquired, rfl⟩ := runs_perform.mp issued
    exact ⟨answer, staging, rfl, acquired, rfl⟩
  · rintro ⟨answer, staging, rfl, acquired, rfl⟩
    exact ⟨answer, rfl, runs_perform.mpr ⟨staging, acquired, rfl⟩⟩

theorem runs_dropStaging
    {staging : EntryName}
    {answer : Unit} :
    (dropStaging staging).Runs outside.Effect before answer after ↔
      ∃ outcome area, Returns Staging.Effect (Staging.removeDirAll staging)
          before.staging outcome area ∧
        after = before.withStaging area := by
  unfold dropStaging
  rw [runs_bind]
  constructor
  · rintro ⟨outcome, middle, issued, _, rfl⟩
    obtain ⟨area, removed, rfl⟩ := runs_perform.mp issued
    exact ⟨outcome, area, removed, rfl⟩
  · rintro ⟨outcome, area, removed, rfl⟩
    exact ⟨outcome, _, runs_perform.mpr ⟨area, removed, rfl⟩, rfl, rfl⟩

theorem aside_dropStaging
    {staging : EntryName}
    {answer : Unit}
    (run : (dropStaging staging).Runs outside.Effect before answer after) :
    before.Aside after := by
  obtain ⟨_, area, _, rfl⟩ := runs_dropStaging.mp run
  exact ⟨area, rfl⟩

/-- A failed transfer touches nothing but its staging. -/
theorem aside_handleFetchFailure
    {staging : EntryName}
    {error : UpstreamError}
    {answer : Unit}
    (run : (handleFetchFailure staging error).Runs outside.Effect before
      answer after) :
    before.Aside after := by
  unfold handleFetchFailure at run
  split at run
  · obtain ⟨preserved, middle, kept, remaining⟩ := (runs_bind ..).mp run
    obtain ⟨area, _, rfl⟩ := runs_perform.mp kept
    have aside : before.Aside (before.withStaging area) := ⟨area, rfl⟩
    split at remaining
    · obtain ⟨_, rfl⟩ := remaining
      exact aside
    · exact aside.trans (aside_dropStaging remaining)
  · exact aside_dropStaging run

/-- A transfer that fails is handled; one that succeeds goes on. -/
theorem returns_fetchInto
    {staging : EntryName}
    {request : FetchRequest}
    {result : Except PullThroughError FetchedRevision} :
    Returns outside.Effect (fetchInto staging request) before result after ↔
      (∃ fetched,
        outside.transfer.outcome request.resumeCommit = .ok fetched ∧
        result = .ok fetched ∧
        after = before.transfer outside.transfer request) ∨
      ∃ error,
        outside.transfer.outcome request.resumeCommit = .error error ∧
        result = .error (.ofUpstream error) ∧
        (handleFetchFailure staging error).Runs outside.Effect
          (before.transfer outside.transfer request) () after := by
  have fetches : Settles outside.Effect (perform (.fetch request)) before
      (outside.transfer.outcome request.resumeCommit)
      (before.transfer outside.transfer request) :=
    settles_perform fun _ _ => Iff.rfl
  unfold fetchInto
  rw [returns_always_of fetches]
  cases outside.transfer.outcome request.resumeCommit with
  | ok fetched => simp [returns_check]
  | error error =>
      dsimp only
      rw [returns_always_bind]
      constructor
      · rintro ⟨⟨⟩, middle, handled, rfl, rfl⟩
        exact Or.inr ⟨error, rfl, rfl, handled⟩
      · rintro (⟨_, same, _⟩ | ⟨_, same, rfl, handled⟩)
        · cases same
        · cases same
          exact ⟨(), after, handled, rfl, rfl⟩

/-- A claim that comes too late leaves staging aside. -/
theorem returns_claimPublication
    {staging : EntryName}
    {result : Except PullThroughError Unit}
    (run : Returns outside.Effect (claimPublication staging) before result
      after) :
    (result = .ok () ∧ after = before) ∨
      result = .error .cancelled ∧ before.Aside after := by
  unfold claimPublication at run
  obtain ⟨claimed, middle, commits, remaining⟩ := returns_always_bind.mp run
  obtain rfl : middle = before := runs_perform.mp commits
  cases claimed with
  | true =>
      obtain ⟨rfl, rfl⟩ := returns_check.mp remaining
      exact Or.inl ⟨rfl, rfl⟩
  | false =>
      obtain ⟨_, later, kept, last⟩ := returns_always_bind.mp remaining
      obtain ⟨area, _, rfl⟩ := runs_perform.mp kept
      obtain ⟨rfl, rfl⟩ := returns_check.mp last
      exact Or.inr ⟨rfl, area, rfl⟩

/-! ## Storing -/

/-- How the archive takes up what was fetched: as a revision of its own, or as
an extension of the one that is there. -/
inductive Stores (outside : Outside) (repository : Repository)
    (requested : String) (fetched : FetchedRevision)
    (staged : Option StagingDir) (archive : Archive) :
    AcquisitionOutcome → Archive → Prop
  | published
      {fate : Archive.StagingFate}
      {later : Archive}
      (incomplete : ¬archive.Complete repository fetched.commit)
      (published : archive.publish outside.sha256 repository
        ⟨requested, fetched.commit, fetched.files⟩ staged =
          (.ok (), later, fate)) :
      Stores outside repository requested fetched staged archive
        .published later
  | extended
      {extension : RevisionExtension}
      {later : Archive}
      (complete : archive.Complete repository fetched.commit)
      (extended : archive.extend outside.sha256 repository fetched.commit
        fetched.files staged = (.ok extension, later)) :
      Stores outside repository requested fetched staged archive
        (if extension.added = [] then .alreadyArchived else .extended) later

theorem Stores.reference
    {fetched : FetchedRevision}
    {staged : Option StagingDir}
    {outcome : AcquisitionOutcome}
    {archive later : Archive}
    (stores : Stores outside repository requested fetched staged archive
      outcome later) :
    later.reference = archive.reference := by
  cases stores with
  | published _ published =>
      obtain ⟨_, _, _, _, _, _, _, _, same, _⟩ :=
        Archive.publish_eq_ok published
      exact same
  | extended _ extended => exact Archive.extend_reference extended

theorem returns_extend
    {fetched : FetchedRevision}
    {staging : EntryName}
    {result : Except PullThroughError AcquisitionOutcome}
    (complete : before.archive.Complete repository fetched.commit)
    (run : Returns outside.Effect
      (extendPublishedRevision repository fetched staging) before result
      after) :
    (∃ error, result = .error error ∧
      after.archive.reference = before.archive.reference) ∨
    ∃ outcome, result = .ok outcome ∧
      Stores outside repository requested fetched (before.staged staging)
        before.archive outcome after.archive := by
  unfold extendPublishedRevision at run
  have answers : ∀ answer middle, (perform (.extend repository
      fetched.commit fetched.files staging)).Runs outside.Effect before
        answer middle → before.archive.extend outside.sha256 repository
          fetched.commit fetched.files (before.staged staging) =
            (answer, middle.archive) := by
    intro answer middle issued
    cases runs_perform.mp issued
    rfl
  rcases returns_bind.mp run with
    ⟨error, rfl, failed⟩ | ⟨extension, middle, succeeded, last⟩
  · obtain ⟨answer, _, issued⟩ := returns_reporting.mp failed
    exact Or.inl ⟨error, rfl,
      Archive.extend_reference (answers _ _ issued)⟩
  · obtain ⟨answer, same, issued⟩ := returns_reporting.mp succeeded
    obtain ⟨rfl, rfl⟩ := returns_check.mp last
    cases answer with
    | error error => cases same
    | ok found =>
        cases same
        exact Or.inr ⟨_, rfl, .extended complete (answers _ _ issued)⟩

/-- A commit that is not complete is published or nothing is stored. -/
theorem returns_publish
    {fetched : FetchedRevision}
    {staging : EntryName}
    {result : Except PullThroughError α}
    {published : Action α}
    {conflict : String → Action α}
    (incomplete : ¬before.archive.Complete repository fetched.commit)
    (conflicts : ∀ commit middle result after,
      middle.archive = before.archive →
        Returns outside.Effect (conflict commit) middle result after →
          (∃ error, result = .error error) ∧
            after.archive = before.archive)
    (run : Returns outside.Effect (do
      match ← always (perform (.publish repository
          ⟨requested, fetched.commit, fetched.files⟩ staging)) with
      | .ok () => published
      | .error (.alreadyPublished commit) => conflict commit
      | .error error => check (.error (.ofArchive error))) before result
      after) :
    (∃ error, result = .error error ∧
      after.archive = before.archive) ∨
    ∃ middle, Stores outside repository requested fetched
        (before.staged staging) before.archive .published middle.archive ∧
      Returns outside.Effect published middle result after := by
  obtain ⟨answer, middle, issued, remaining⟩ := returns_always_bind.mp run
  have publishes : before.archive.publish outside.sha256 repository
      ⟨requested, fetched.commit, fetched.files⟩ (before.staged staging) =
        (answer, middle.archive, (before.archive.publish outside.sha256
          repository ⟨requested, fetched.commit, fetched.files⟩
          (before.staged staging)).2.2) := by
    cases runs_perform.mp issued
    rw [Site.archive_consume]
    rfl
  match answer, remaining with
  | .ok (), remaining =>
      exact Or.inr ⟨middle, .published incomplete publishes, remaining⟩
  | .error error, remaining =>
      have same := Archive.publish_eq_error publishes
      left
      split at remaining
      · next caught => cases caught
      · obtain ⟨⟨failure, rfl⟩, kept⟩ := conflicts _ _ _ _ same remaining
        exact ⟨failure, rfl, kept⟩
      · obtain ⟨rfl, rfl⟩ := returns_check.mp remaining
        exact ⟨_, rfl, same⟩

theorem returns_storeFetched
    {fetched : FetchedRevision}
    {staging : EntryName}
    {result : Except PullThroughError AcquisitionOutcome}
    (run : Returns outside.Effect
      (storeFetched repository requested fetched staging) before result
      after) :
    (∃ error, result = .error error ∧
      after.archive.reference = before.archive.reference) ∨
    ∃ outcome, result = .ok outcome ∧
      Stores outside repository requested fetched (before.staged staging)
        before.archive outcome after.archive := by
  unfold storeFetched at run
  rw [returns_always_of
    (settles_revisionIsPublished repository fetched.commit)] at run
  by_cases complete : before.archive.Complete repository fetched.commit
  · rw [decide_eq_true complete] at run
    exact returns_extend complete run
  rw [decide_eq_false complete] at run
  refine (returns_publish complete ?_ run).elim ?_ ?_
  · -- The archive did not change, so the second look is like the first.
    intro commit middle result after same run
    rw [returns_always_of
      (settles_revisionIsPublished repository fetched.commit), same,
      decide_eq_false complete] at run
    obtain ⟨rfl, rfl⟩ := returns_check.mp run
    exact ⟨⟨_, rfl⟩, same⟩
  · rintro ⟨error, rfl, same⟩
    exact Or.inl ⟨error, rfl, by rw [same]⟩
  · rintro ⟨middle, stores, last⟩
    obtain ⟨rfl, rfl⟩ := returns_check.mp last
    exact Or.inr ⟨.published, rfl, stores⟩

/-! ## Naming -/

theorem runs_recordUpstreamFiles
    {commit : String}
    {files : List String}
    {answer : Unit}
    (run : (recordUpstreamFiles repository commit files).Runs outside.Effect
      before answer after) :
    after.archive.reference = before.archive.reference ∧
      before.archive.SameContent after.archive := by
  unfold recordUpstreamFiles at run
  split at run
  · obtain ⟨_, rfl⟩ := run
    exact ⟨rfl, Archive.SameContent.refl _⟩
  · obtain ⟨outcome, middle, issued, _, rfl⟩ := (runs_bind ..).mp run
    cases runs_perform.mp issued
    exact Archive.sameContent_record rfl

theorem returns_nameRef
    {reference commit : String}
    {result : Except PullThroughError Unit}
    (run : Returns outside.Effect (nameRef repository reference commit)
      before result after) :
    (∃ error, result = .error error ∧ after.archive = before.archive) ∨
    result = .ok () ∧ before.archive.updateRef repository reference commit =
      (.ok (), after.archive) := by
  obtain ⟨outcome, rfl, issued⟩ := returns_reporting.mp run
  have updates : before.archive.updateRef repository reference commit =
      (outcome, after.archive) := by
    cases runs_perform.mp issued
    rfl
  cases outcome with
  | error error =>
      exact Or.inl ⟨_, rfl, Archive.updateRef_eq_error updates⟩
  | ok => exact Or.inr ⟨rfl, updates⟩

/-- Adoption makes refs and moves none. -/
theorem runs_adoptRefs
    {commit : String}
    {references : List String}
    {answer : Unit}
    (run : (adoptRefs repository commit references).Runs outside.Effect
      before answer after) :
    before.archive.SameContent after.archive ∧
      before.archive.KeepsRefs after.archive := by
  induction references generalizing before with
  | nil =>
      obtain ⟨_, rfl⟩ := run
      exact ⟨Archive.SameContent.refl _, fun _ _ _ resolved => resolved⟩
  | cons reference rest inductionHypothesis =>
      unfold adoptRefs at run
      obtain ⟨target, middle, looked, remaining⟩ := (runs_bind ..).mp run
      obtain ⟨rfl, rfl⟩ :=
        (settles_resolveRef repository reference _ _).mp looked
      split at remaining
      · exact inductionHypothesis remaining
      · next error missing =>
          obtain ⟨outcome, later, issued, last⟩ :=
            (runs_bind ..).mp remaining
          have updates : middle.archive.updateRef repository reference
              commit = (outcome, later.archive) := by
            cases runs_perform.mp issued
            rfl
          obtain ⟨content, kept⟩ := inductionHypothesis last
          refine ⟨(Archive.sameContent_updateRef updates).trans content, ?_⟩
          intro other name resolvedTo resolved
          apply kept
          refine Archive.keepsRefs_updateRef updates ?_ _ _ _ resolved
          intro target resolvedToo
          rw [missing] at resolvedToo
          cases resolvedToo

theorem runs_adoptResolvedRefs
    {commit : String}
    {answer : Unit}
    (run : (adoptResolvedRefs repository commit).Runs outside.Effect before
      answer after) :
    before.archive.SameContent after.archive ∧
      before.archive.KeepsRefs after.archive := by
  unfold adoptResolvedRefs at run
  obtain ⟨references, middle, issued, remaining⟩ := (runs_bind ..).mp run
  obtain ⟨rfl, _⟩ := runs_perform.mp issued
  exact runs_adoptRefs remaining

/-- The refs that follow what was stored: the requested one, unless it is a
commit, and names that were missing. -/
inductive Names (repository : Repository) (requested commit : String)
    (stored : Archive) : Archive → Prop
  | commit
      {later : Archive}
      (hfCommit : isHfCommit requested = true)
      (content : stored.SameContent later)
      (kept : stored.KeepsRefs later) :
      Names repository requested commit stored later
  | ref
      {recorded named later : Archive}
      (mutable : isHfCommit requested = false)
      (same : recorded.reference = stored.reference)
      (updated : recorded.updateRef repository requested commit =
        (.ok (), named))
      (content : stored.SameContent later)
      (kept : named.KeepsRefs later) :
      Names repository requested commit stored later

theorem Names.content
    {commit : String}
    {stored later : Archive}
    (names : Names repository requested commit stored later) :
    stored.SameContent later := by
  cases names with
  | commit _ content => exact content
  | ref _ _ _ content => exact content

theorem returns_nameRequested
    {commit : String}
    {stored : Archive}
    {rest : Action α}
    {result : Except PullThroughError α}
    (recorded : before.archive.reference = stored.reference)
    (content : stored.SameContent before.archive)
    (run : Returns outside.Effect (do
      nameRequested repository requested commit
      always (adoptResolvedRefs repository commit)
      rest) before result after) :
    (∃ error, result = .error error ∧
      after.archive.reference = stored.reference) ∨
    ∃ middle, Names repository requested commit stored middle.archive ∧
      Returns outside.Effect rest middle result after := by
  rcases returns_bind.mp run with
    ⟨error, rfl, failed⟩ | ⟨⟨⟩, middle, named, remaining⟩
  · left
    refine ⟨error, rfl, ?_⟩
    unfold nameRequested at failed
    split at failed
    · cases (returns_check.mp failed).1
    · rcases returns_nameRef failed with ⟨_, _, same⟩ | ⟨same, _⟩
      · rw [same, recorded]
      · cases same
  · right
    obtain ⟨⟨⟩, later, adopts, last⟩ := returns_always_bind.mp remaining
    obtain ⟨adopted, kept⟩ := runs_adoptResolvedRefs adopts
    refine ⟨later, ?_, last⟩
    unfold nameRequested at named
    split at named
    · next hfCommit =>
        obtain ⟨_, rfl⟩ := returns_check.mp named
        refine .commit hfCommit (content.trans adopted) ?_
        intro other name target resolved
        apply kept
        rw [Archive.resolveRef_congr recorded]
        exact resolved
    · next mutable =>
        rcases returns_nameRef named with ⟨_, same, _⟩ | ⟨_, updated⟩
        · cases same
        · exact .ref (eq_false_of_ne_true mutable) recorded updated
            ((content.trans (Archive.sameContent_updateRef updated)).trans
              adopted) kept

/-! ## Transfers -/

/-- Staging holds what the transfer left there. -/
theorem payload_transfer
    {transfer : Transfer}
    {request : FetchRequest}
    {dir : StagingDir}
    (staged : (before.transfer transfer request).staged request.staging =
      some dir) :
    dir.payload = transfer.payload := by
  have changed : ∀ (change : StagingDir → StagingDir) (area : TemporaryArea)
      (found : AreaEntry),
      (area.update request.staging change).entry request.staging =
        some found →
      ∃ old, area.entry request.staging = some old ∧
        found.dir = change old.dir := by
    intro change area found stands
    rw [TemporaryArea.entry_update, Option.map_eq_some_iff] at stands
    obtain ⟨old, present, rfl⟩ := stands
    exact ⟨old, present, by rw [if_pos rfl]⟩
  obtain ⟨found, stands, rfl⟩ := Option.map_eq_some_iff.mp staged
  unfold Site.transfer at stands
  dsimp only at stands
  split at stands
  · obtain ⟨old, _, same⟩ :=
      changed transfer.fill before.staging.area _ stands
    rw [same]
    rfl
  · next commit resolved =>
      have records := Staging.returns_record (runs_run
        Staging.effect_respond (Staging.recordFetchResolvedCommit
          request.staging request.stagingRequest commit).run
        (before.moved transfer request))
      rcases records with same | ⟨metadata, _, same⟩
      · rw [same] at stands
        obtain ⟨old, _, same⟩ :=
          changed transfer.fill before.staging.area _ stands
        rw [same]
        rfl
      · rw [same] at stands
        obtain ⟨old, standsOld, same⟩ := changed (fun dir => { dir with
          identity := .decoded { metadata with
            resolvedCommit := some commit } }) _ _ stands
        obtain ⟨older, _, sameOld⟩ :=
          changed transfer.fill before.staging.area _ standsOld
        rw [same, sameOld]
        rfl

theorem returns_storeAndName
    {fetched : FetchedRevision}
    {staging : EntryName}
    {result : Except PullThroughError AcquisitionResult}
    (run : Returns outside.Effect
      (storeAndName repository requested fetched staging) before result
      after) :
    (∃ error, result = .error error ∧
      after.archive.reference = before.archive.reference) ∨
    ∃ outcome stored, result = .ok ⟨fetched.commit, outcome⟩ ∧
      Stores outside repository requested fetched (before.staged staging)
        before.archive outcome stored ∧
      Names repository requested fetched.commit stored after.archive := by
  unfold storeAndName at run
  rw [returns_always_of (settles_perform fun _ _ => Iff.rfl)] at run
  rcases returns_bind.mp run with
    ⟨error, rfl, failed⟩ | ⟨⟨⟩, claimed, claims, remaining⟩
  · rcases returns_claimPublication failed with ⟨same, _⟩ | ⟨_, aside⟩
    · cases same
    · left
      refine ⟨error, rfl, ?_⟩
      rw [aside.archive]
      rfl
  obtain ⟨_, rfl⟩ | ⟨same, _⟩ := returns_claimPublication claims
  swap
  · cases same
  obtain ⟨answer, middle, storing, remaining⟩ :=
    returns_always_bind.mp remaining
  obtain ⟨⟨⟩, dropped, drops, remaining⟩ := returns_always_bind.mp remaining
  have aside := (aside_dropStaging drops).archive
  rcases returns_storeFetched storing with
    ⟨error, rfl, same⟩ | ⟨outcome, rfl, stores⟩
  · obtain ⟨rfl, rfl⟩ := returns_check_error.mp remaining
    exact Or.inl ⟨error, rfl, by rw [aside, same]⟩
  rw [returns_check_bind] at remaining
  obtain ⟨⟨⟩, noted, notes, remaining⟩ := returns_always_bind.mp remaining
  obtain ⟨reference, content⟩ := runs_recordUpstreamFiles notes
  rw [aside] at reference content
  rcases returns_nameRequested reference content remaining with
    ⟨error, rfl, same⟩ | ⟨named, names, last⟩
  · exact Or.inl ⟨error, rfl, same.trans stores.reference⟩
  · obtain ⟨rfl, rfl⟩ := returns_check.mp last
    exact Or.inr ⟨outcome, _, rfl, stores, names⟩

/-- A transfer that does not succeed moves no ref; one that does stores what
was fetched and names it. -/
inductive Transfers (outside : Outside) (repository : Repository)
    (requested : String) (archive : Archive) :
    Except PullThroughError AcquisitionResult → Archive → Prop
  | failed
      {error : PullThroughError}
      {later : Archive}
      (same : later.reference = archive.reference) :
      Transfers outside repository requested archive (.error error) later
  | stored
      {resume : Option String}
      {fetched : FetchedRevision}
      {staged : Option StagingDir}
      {outcome : AcquisitionOutcome}
      {stored later : Archive}
      (fetches : outside.transfer.outcome resume = .ok fetched)
      (payload : ∀ dir, staged = some dir →
        dir.payload = outside.transfer.payload)
      (stores : Stores outside repository requested fetched staged archive
        outcome stored)
      (names : Names repository requested fetched.commit stored later) :
      Transfers outside repository requested archive
        (.ok ⟨fetched.commit, outcome⟩) later

theorem returns_transferSelection
    {selection : FileSelection}
    {result : Except PullThroughError AcquisitionResult}
    (run : Returns outside.Effect
      (transferSelection repository requested selection) before result
      after) :
    Transfers outside repository requested before.archive result
      after.archive := by
  unfold transferSelection at run
  rcases returns_bind.mp run with
    ⟨error, rfl, failed⟩ | ⟨staging, acquired, acquires, remaining⟩
  · obtain ⟨_, area, _, _, rfl⟩ := returns_acquireStaging.mp failed
    exact .failed rfl
  obtain ⟨_, area, _, _, rfl⟩ := returns_acquireStaging.mp acquires
  rcases returns_bind.mp remaining with
    ⟨error, rfl, failed⟩ | ⟨fetched, moved, fetches, last⟩
  · rcases returns_fetchInto.mp failed with
      ⟨_, _, same, _⟩ | ⟨_, _, _, handled⟩
    · cases same
    · apply Transfers.failed
      rw [(aside_handleFetchFailure handled).archive]
      rfl
  rcases returns_fetchInto.mp fetches with
    ⟨_, succeeded, same, rfl⟩ | ⟨_, _, same, _⟩
  swap
  · cases same
  cases same
  rcases returns_storeAndName last with
    ⟨error, rfl, same⟩ | ⟨outcome, stored, rfl, stores, names⟩
  · exact .failed same
  · exact .stored succeeded (fun _ staged => payload_transfer staged) stores
      names

/-! ## Pull-through -/

theorem returns_gate
    {result : Except PullThroughError Bool} :
    Returns outside.Effect (attempt (perform .enterTransferGate)) before
        result after ↔
      result = outside.slot.map Option.isSome ∧
        after = outside.arrive before := by
  have gate : Settles outside.Effect (perform .enterTransferGate) before
      (outside.slot.map Option.isSome) (outside.arrive before) :=
    settles_perform fun _ _ => Iff.rfl
  exact gate result after

/-- An acquisition that does not look again transfers once it has its slot. -/
theorem returns_fetchAndPublishSelection
    {selection : FileSelection}
    {result : Except PullThroughError AcquisitionResult}
    (run : Returns outside.Effect
      (fetchAndPublishSelection repository requested false selection) before
      result after) :
    (∃ commit, before.archive.readyTarget repository requested
        selection.requiredPaths = some commit ∧
      result = .ok ⟨commit, .alreadyArchived⟩ ∧ after = before) ∨
    before.archive.readyTarget repository requested
        selection.requiredPaths = none ∧
      Transfers outside repository requested (outside.arrive before).archive
        result after.archive := by
  unfold fetchAndPublishSelection at run
  rw [returns_always_of
    (settles_readyRef repository selection.requiredPaths)] at run
  cases target : before.archive.readyTarget repository requested
      selection.requiredPaths with
  | some commit =>
      rw [target] at run
      obtain ⟨rfl, rfl⟩ := returns_check.mp run
      exact Or.inl ⟨commit, rfl, rfl, rfl⟩
  | none =>
      rw [target] at run
      refine Or.inr ⟨rfl, ?_⟩
      unfold fetchAndPublishWaiting at run
      rcases returns_bind.mp run with
        ⟨error, rfl, failed⟩ | ⟨waited, arrived, enters, remaining⟩
      · obtain ⟨_, rfl⟩ := returns_gate.mp failed
        exact .failed rfl
      obtain ⟨_, rfl⟩ := returns_gate.mp enters
      obtain ⟨cancelled, middle, looks, last⟩ :=
        returns_always_bind.mp remaining
      obtain rfl : middle = outside.arrive before := runs_perform.mp looks
      cases cancelled with
      | true =>
          obtain ⟨rfl, rfl⟩ := returns_check.mp last
          exact .failed rfl
      | false =>
          unfold transferRemaining at last
          rw [Bool.false_and, if_neg Bool.false_ne_true] at last
          exact returns_transferSelection last

end PullThrough
end ModelKeep
