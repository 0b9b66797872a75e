import ModelKeep.Concurrency.Simulation
import ModelKeep.PullThrough.Parts
import ModelKeep.PullThrough.Refresh

/-!
# Dry runs

A dry run of a refresh acquires and transfers like a real one and then drops
what it has.  It is compared with the real one from the same state, handed the
same staging and told the same by the fetcher.
-/

namespace ModelKeep
namespace PullThrough

open Concurrency Program

/-- The calls of a refresh that is handed this staging. -/
def Handed (outside : Outside) (staging : FetchStaging)
    (area : Staging.World) : Semantics interface Site
  | .acquireStaging request, before, reply, after =>
      outside.Effect (.acquireStaging request) before reply after ∧
        reply = .ok staging ∧ after = before.withStaging area
  | op, before, reply, after => outside.Effect op before reply after

variable
  {α : Type}
  {outside : Outside}
  {staging : FetchStaging}
  {area : Staging.World}
  {repository : Repository}
  {reference : String}
  {before after : Site}

/-! ## Runs with given staging -/

/-- Nothing but the staging is fixed. -/
theorem effect_of_handed
    {op : Op}
    {reply : op.Reply}
    (issued : Handed outside staging area op before reply after) :
    outside.Effect op before reply after := by
  cases op with
  | acquireStaging request => exact issued.1
  | _ => exact issued

theorem handed_of_quiet
    {op : Op}
    (quiet : op.Quiet)
    {reply : op.Reply}
    (issued : outside.Effect op before reply after) :
    Handed outside staging area op before reply after := by
  cases op with
  | acquireStaging request => exact absurd quiet id
  | _ => exact issued

/-- What asks for no staging runs as ever. -/
theorem runs_handed_of_quiet
    {program : Program interface α}
    (only : Only Op.Quiet program)
    {outcome : α} :
    program.Runs (Handed outside staging area) before outcome after ↔
      program.Runs outside.Effect before outcome after := by
  induction program generalizing before with
  | done value => rfl
  | call op next inductionHypothesis =>
      constructor
      · rintro ⟨reply, middle, issued, run⟩
        exact ⟨reply, middle, effect_of_handed issued,
          (inductionHypothesis reply (only.2 reply)).mp run⟩
      · rintro ⟨reply, middle, issued, run⟩
        exact ⟨reply, middle, handed_of_quiet only.1 issued,
          (inductionHypothesis reply (only.2 reply)).mpr run⟩

/-- What is asked of the fetcher. -/
def refreshRequest (repository : Repository) (reference : String)
    (staging : FetchStaging) : FetchRequest :=
  ⟨repository.repoType, repository.repoId, reference, [], [], staging.path,
    staging.resolvedCommit⟩

/-- Where a refresh stands once it has fetched. -/
def fetchedSite (outside : Outside) (repository : Repository)
    (reference : String) (staging : FetchStaging) (area : Staging.World)
    (before : Site) : Site :=
  ((outside.arrive before).withStaging area).transfer outside.transfer
    (refreshRequest repository reference staging)

/-- A refresh that succeeds came to its end with what was fetched. -/
theorem returns_refreshOnce_handed
    {dryRun : Bool}
    {result : RefreshResult} :
    (∃ after, Returns (Handed outside staging area)
      (refreshOnce repository reference dryRun) before (.ok result) after) ↔
    ∃ waited fetched recorded, outside.slot = .ok waited ∧
      Returns Staging.Effect (Staging.acquireFetchStaging
        ⟨repository.repoType, repository.repoId, reference, []⟩)
        (outside.arrive before).staging (.ok staging) area ∧
      outside.transfer.outcome staging.resolvedCommit = .ok fetched ∧
      recorded = stagedUpstreamFiles
        ((fetchedSite outside repository reference staging area
          before).staged staging.path) repository.repoType fetched.commit ∧
      ∃ after, Returns outside.Effect
        (finishRefresh repository reference dryRun
          (before.archive.resolveRef repository reference).toOption fetched
          staging.path recorded)
        (fetchedSite outside repository reference staging area before)
        (.ok result) after := by
  have toEffect : ∀ {op : Op} {reply : op.Reply} {start finish : Site},
      (perform op).Runs (Handed outside staging area) start reply finish →
        outside.Effect op start reply finish := fun run =>
    effect_of_handed (Program.runs_perform.mp run)
  constructor
  · rintro ⟨after, run⟩
    unfold refreshOnce at run
    obtain ⟨previous, middle, looks, run⟩ := returns_always_bind.mp run
    have looked : (before.archive.resolveRef repository reference, before) =
        (previous, middle) := toEffect looks
    cases looked
    obtain ⟨waited, arrived, enters, run⟩ := returns_bind_ok.mp run
    have entered : (outside.slot.map Option.isSome, outside.arrive before) =
        (.ok waited, arrived) := toEffect enters
    rw [Prod.mk.injEq] at entered
    obtain ⟨granted, rfl⟩ := entered
    obtain ⟨cancelled, middle, asks, run⟩ := returns_always_bind.mp run
    obtain rfl : middle = outside.arrive before := toEffect asks
    cases cancelled with
    | true => cases (returns_check.mp run).1
    | false =>
        change Returns _ (refreshFetched repository reference dryRun _) _ _ _
          at run
        unfold refreshFetched at run
        obtain ⟨handed, acquired, acquires, run⟩ := returns_bind_ok.mp run
        obtain ⟨answer, later, issued, ended, rfl⟩ :=
          (runs_bind ..).mp acquires
        obtain ⟨⟨found, acquisition, placed⟩, rfl, rfl⟩ :=
          Program.runs_perform.mp issued
        cases ended
        obtain rfl : area = found := congrArg Site.staging placed
        obtain ⟨fetched, moved, fetches, run⟩ := returns_bind_ok.mp run
        replace fetches := (runs_handed_of_quiet only_fetchInto).mp fetches
        rcases returns_fetchInto.mp fetches with
          ⟨_, succeeded, same, rfl⟩ | ⟨_, _, same, _⟩
        swap
        · cases same
        cases same
        obtain ⟨recorded, moved, reads, run⟩ := returns_always_bind.mp run
        have told : (stagedUpstreamFiles ((fetchedSite outside repository
            reference staging area before).staged staging.path)
            repository.repoType fetched.commit, fetchedSite outside repository
              reference staging area before) = (recorded, moved) :=
          toEffect reads
        cases told
        obtain ⟨⟨⟩, claimed, claims, run⟩ := returns_bind_ok.mp run
        replace claims := (runs_handed_of_quiet only_claimPublication).mp claims
        rcases returns_claimPublication claims with ⟨_, rfl⟩ | ⟨failed, _⟩
        swap
        · cases failed
        cases slot : outside.slot with
        | error error =>
            rw [slot] at granted
            cases granted
        | ok waited =>
            exact ⟨waited, fetched, _, rfl, acquisition, succeeded, rfl, after,
              (runs_handed_of_quiet only_finishRefresh).mp run⟩
  · rintro ⟨waited, fetched, recorded, slot, acquisition, succeeded, rfl,
      after, run⟩
    refine ⟨after, ?_⟩
    have ofEffect : ∀ {op : Op} {reply : op.Reply} {start finish : Site},
        op.Quiet ∨ op = .enterTransferGate →
          outside.Effect op start reply finish →
            (perform op).Runs (Handed outside staging area) start reply
              finish := by
      rintro op reply start finish (quiet | rfl) issued
      · exact Program.runs_perform.mpr (handed_of_quiet quiet issued)
      · exact Program.runs_perform.mpr issued
    unfold refreshOnce
    refine returns_always_bind.mpr ⟨_, before, ofEffect (Or.inl trivial) rfl, ?_⟩
    refine returns_bind_ok.mpr ⟨waited.isSome, outside.arrive before,
      ofEffect (Or.inr rfl) ?_, ?_⟩
    · change (outside.slot.map Option.isSome, _) = _
      rw [slot]
      rfl
    refine returns_always_bind.mpr ⟨false, outside.arrive before,
      ofEffect (Or.inl trivial) rfl, ?_⟩
    change Returns _ (refreshFetched repository reference dryRun _) _ _ _
    unfold refreshFetched
    refine returns_bind_ok.mpr ⟨staging,
      (outside.arrive before).withStaging area, ?_, ?_⟩
    · exact (runs_bind ..).mpr ⟨.ok staging, _, Program.runs_perform.mpr
        ⟨⟨area, acquisition, rfl⟩, rfl, rfl⟩, rfl, rfl⟩
    refine returns_bind_ok.mpr ⟨fetched, fetchedSite outside repository
      reference staging area before, ?_, ?_⟩
    · exact (runs_handed_of_quiet only_fetchInto).mpr
        (returns_fetchInto.mpr (Or.inl ⟨fetched, succeeded, rfl, rfl⟩))
    refine returns_always_bind.mpr ⟨_, _, ofEffect (Or.inl trivial) rfl, ?_⟩
    refine returns_bind_ok.mpr ⟨(), _, ?_,
      (runs_handed_of_quiet only_finishRefresh).mpr run⟩
    exact returns_always_bind.mpr ⟨true, _, ofEffect (Or.inl trivial) rfl,
      returns_check.mpr ⟨rfl, rfl⟩⟩

/-! ## Publishing what was fetched -/

/-- What a publication asks of the reported files. -/
structure Publishable (payload : FileTree Bytes) (files : List String) :
    Prop where
  filled : files ≠ []
  distinct : files.Nodup
  valid : ∀ path ∈ files, validateRelativeFilePath path = .ok ()
  isFile : ∀ path ∈ files, ∃ content,
    payload.lstat (splitPath path) = some (.file content)

/-- A publication lists the paths that are files, once each. -/
theorem exists_sourceEntries_iff
    {sha256 : Bytes → String}
    {payload : FileTree Bytes}
    {files archived : List String} :
    (∃ entries, Archive.sourceEntries sha256 payload files archived =
        .ok entries) ↔
      files.Nodup ∧ (∀ path ∈ files, path ∉ archived) ∧
        (∀ path ∈ files, validateRelativeFilePath path = .ok ()) ∧
        ∀ path ∈ files, ∃ content,
          payload.lstat (splitPath path) = some (.file content) := by
  induction files generalizing archived with
  | nil => simp [Archive.sourceEntries]
  | cons path rest inductionHypothesis =>
      have step : (∃ entries, Archive.sourceEntries sha256 payload
          (path :: rest) archived = .ok entries) ↔
            validateRelativeFilePath path = .ok () ∧ path ∉ archived ∧
              (∃ content, payload.lstat (splitPath path) =
                some (.file content)) ∧
              ∃ entries, Archive.sourceEntries sha256 payload rest
                (path :: archived) = .ok entries := by
        constructor
        · rintro ⟨entries, made⟩
          rw [Archive.sourceEntries] at made
          obtain ⟨_, valid, made⟩ := bind_eq_ok.mp made
          split at made
          · cases made
          · next new =>
              split at made
              · cases made
              · next content stands =>
                  obtain ⟨others, madeOthers, _⟩ := bind_eq_ok.mp made
                  exact ⟨valid, new, ⟨content, stands⟩, others, madeOthers⟩
              · cases made
        · rintro ⟨valid, new, ⟨content, stands⟩, others, madeOthers⟩
          refine ⟨⟨path, content.length, sha256 content⟩ :: others, ?_⟩
          rw [Archive.sourceEntries]
          refine bind_eq_ok.mpr ⟨(), valid, ?_⟩
          rw [if_neg new, stands]
          exact bind_eq_ok.mpr ⟨others, madeOthers, rfl⟩
      rw [step, inductionHypothesis]
      simp only [List.nodup_cons, List.mem_cons, forall_eq_or_imp, not_or]
      constructor
      · rintro ⟨valid, new, isFile, distinct, others, valids, files⟩
        exact ⟨⟨fun member => (others path member).1 rfl, distinct⟩,
          ⟨new, fun other member => (others other member).2⟩,
          ⟨valid, valids⟩, isFile, files⟩
      · rintro ⟨⟨once, distinct⟩, ⟨new, others⟩, ⟨valid, valids⟩, isFile,
          files⟩
        exact ⟨valid, new, isFile, distinct,
          fun other member => ⟨fun same => once (same ▸ member),
            others other member⟩, valids, files⟩

/-- When a publication of staging succeeds. -/
theorem publish_isOk_iff
    {sha256 : Bytes → String}
    {archive : Archive}
    {request : Archive.SourcePublishRequest}
    {dir : StagingDir} :
    (∃ later fate, archive.publish sha256 repository request (some dir) =
        (.ok (), later, fate)) ↔
      (∃ parts, validateRepoId repository.repoId = .ok parts) ∧
        validateComponent request.requestedRevision = .ok () ∧
        validateRevision request.commit = .ok () ∧
        archive.revision repository request.commit = none ∧
        Publishable dir.payload request.files := by
  constructor
  · rintro ⟨later, fate, published⟩
    unfold Archive.publish at published
    dsimp only at published
    split at published
    · cases published
    · cases published
    · next staged checked same =>
        cases same
        obtain ⟨parts, repo, checked⟩ := bind_eq_ok.mp checked
        obtain ⟨_, named, checked⟩ := bind_eq_ok.mp checked
        obtain ⟨_, valid, checked⟩ := bind_eq_ok.mp checked
        split at checked
        · cases checked
        · next filled =>
            split at published
            · cases published
            · next absent =>
                split at published
                · cases published
                · next entries made =>
                    obtain ⟨distinct, _, valids, isFile⟩ :=
                      exists_sourceEntries_iff.mp ⟨entries, made⟩
                    exact ⟨⟨parts, repo⟩, named, valid, absent, filled,
                      distinct, valids, isFile⟩
  · rintro ⟨⟨parts, repo⟩, named, valid, absent, publishable⟩
    obtain ⟨entries, made⟩ := (@exists_sourceEntries_iff sha256
      dir.payload request.files []).mpr ⟨publishable.distinct, by simp,
        publishable.valid, publishable.isFile⟩
    refine ⟨archive.setRevision repository request.commit
      (Archive.sourceRevision repository request dir.payload entries)
      (FileTree.linkless_prune _ _), .consumed, ?_⟩
    unfold Archive.publish
    rw [repo, named, valid, if_neg publishable.filled]
    dsimp only [Bind.bind, Except.bind]
    rw [absent]
    dsimp only
    rw [made]

/-- A commit that a refresh can let the ref name: it is complete already, or
it is a new one and its files can be published. -/
def Refreshable (archive : Archive) (repository : Repository)
    (payload : FileTree Bytes) (fetched : FetchedRevision) : Prop :=
  archive.Complete repository fetched.commit ∨
    validateRevision fetched.commit = .ok () ∧
      archive.revision repository fetched.commit = none ∧
      Publishable payload fetched.files

/-! ## The two ends of a refresh -/

/-- A dry run has nothing left that can fail. -/
theorem returns_finishRefresh_dry
    {previous : Option String}
    {fetched : FetchedRevision}
    {path : EntryName}
    {recorded : List String}
    {outcome : Except PullThroughError RefreshResult}
    (run : Returns outside.Effect (finishRefresh repository reference true
      previous fetched path recorded) before outcome after) :
    outcome = .ok ⟨previous, fetched.commit, false⟩ ∧ before.Aside after := by
  unfold finishRefresh at run
  rw [if_pos rfl] at run
  obtain ⟨⟨⟩, middle, drops, last⟩ := returns_always_bind.mp run
  obtain ⟨rfl, rfl⟩ := returns_check.mp last
  exact ⟨rfl, aside_dropStaging drops⟩

/-- What cannot be refreshed is not published. -/
theorem refreshable_of_refreshes
    {fetched : FetchedRevision}
    {dir : StagingDir}
    {archive later : Archive}
    (refreshes : Refreshes outside repository reference fetched (some dir)
      archive later) :
    Refreshable archive repository dir.payload fetched := by
  cases refreshes with
  | complete complete => exact Or.inl complete
  | published incomplete stores =>
      generalize outcome : AcquisitionOutcome.published = stored at stores
      cases stores with
      | extended complete => exact absurd complete incomplete
      | published _ published =>
          obtain ⟨_, _, valid, absent, publishable⟩ :=
            publish_isOk_iff.mp ⟨_, _, published⟩
          exact Or.inr ⟨valid, absent, publishable⟩

/-- What can be refreshed is published, and the ref can name it then. -/
theorem returns_publishUnready_of_refreshable
    {parts : String × String}
    (repo : validateRepoId repository.repoId = .ok parts)
    (named : validateComponent reference = .ok ())
    {fetched : FetchedRevision}
    {path : EntryName}
    {dir : StagingDir}
    (staged : before.staged path = some dir)
    (refreshable : Refreshable before.archive repository dir.payload
      fetched) :
    validateRevision fetched.commit = .ok () ∧
      ∃ after, Returns outside.Effect
          (publishUnready repository reference fetched path) before (.ok ())
          after ∧
        after.archive.revision repository fetched.commit ≠ none := by
  have ready := @settles_revisionIsReady outside repository before
    fetched.commit []
  simp only [ready_nil] at ready
  unfold publishUnready
  by_cases complete : before.archive.Complete repository fetched.commit
  · obtain ⟨_, valid, revision, _, stands, _⟩ :=
      Archive.complete_iff.mp complete
    rw [decide_eq_true complete] at ready
    refine ⟨valid, before, ?_, ?_⟩
    · rw [returns_always_of ready]
      exact returns_check.mpr ⟨rfl, rfl⟩
    · rw [stands]
      exact Option.some_ne_none _
  · rw [decide_eq_false complete] at ready
    obtain ⟨valid, absent, publishable⟩ := refreshable.resolve_left complete
    refine ⟨valid, ?_⟩
    obtain ⟨later, fate, published⟩ := (@publish_isOk_iff repository
      outside.sha256 before.archive
      ⟨reference, fetched.commit, fetched.files⟩ dir).mpr
        ⟨⟨parts, repo⟩, named, valid, absent, publishable⟩
    have answered : outside.Effect (.publish repository
        ⟨reference, fetched.commit, fetched.files⟩ path) before (.ok ())
        ((before.withArchive later).consume path fate) := by
      change ((before.archive.publish outside.sha256 repository _ _).1, _) =
        _
      rw [staged, published]
    refine ⟨(before.withArchive later).consume path fate, ?_, ?_⟩
    · rw [returns_always_of ready]
      exact returns_always_bind.mpr ⟨_, _, Program.runs_perform.mpr answered,
        returns_check.mpr ⟨rfl, rfl⟩⟩
    obtain ⟨_, _, _, _, _, entries, _, _, _, revisions⟩ :=
      Archive.publish_eq_ok published
    rw [Site.archive_consume]
    change later.revision repository fetched.commit ≠ none
    rw [revisions, if_pos ⟨rfl, rfl⟩]
    exact Option.some_ne_none _

/-- A ref can name a revision that is there. -/
theorem exists_updateRef
    {archive : Archive}
    {parts : String × String}
    {commit : String}
    (repo : validateRepoId repository.repoId = .ok parts)
    (named : validateComponent reference = .ok ())
    (valid : validateRevision commit = .ok ())
    (stands : archive.revision repository commit ≠ none) :
    ∃ later, archive.updateRef repository reference commit =
      (.ok (), later) := by
  obtain ⟨revision, stands⟩ := Option.ne_none_iff_exists'.mp stands
  unfold Archive.updateRef
  rw [repo, named, valid, stands]
  exact ⟨_, rfl⟩

/-- The real run ends well exactly when the fetched commit can be
refreshed. -/
theorem returns_finishRefresh_iff
    {parts : String × String}
    (repo : validateRepoId repository.repoId = .ok parts)
    (named : validateComponent reference = .ok ())
    {previous : Option String}
    {fetched : FetchedRevision}
    {path : EntryName}
    {recorded : List String}
    {dir : StagingDir}
    {result : RefreshResult}
    (staged : before.staged path = some dir) :
    (∃ after, Returns outside.Effect (finishRefresh repository reference
        false previous fetched path recorded) before (.ok result) after) ↔
      result = ⟨previous, fetched.commit, true⟩ ∧
        Refreshable before.archive repository dir.payload fetched := by
  constructor
  · rintro ⟨after, run⟩
    obtain ⟨same, stored, refreshes, _⟩ := returns_finishRefresh run
    rw [staged] at refreshes
    exact ⟨same, refreshable_of_refreshes refreshes⟩
  · rintro ⟨rfl, refreshable⟩
    obtain ⟨valid, middle, published, stands⟩ :=
      @returns_publishUnready_of_refreshable outside repository reference
        before parts repo named fetched path dir staged refreshable
    -- Recording and dropping always end somewhere.
    have records := runs_run outside.effect_respond
      (recordUpstreamFiles repository fetched.commit recorded) middle
    have content := (runs_recordUpstreamFiles records).2
    have drops := runs_run outside.effect_respond (dropStaging path)
      ((recordUpstreamFiles repository fetched.commit recorded).run
        outside.respond middle).2
    generalize ((recordUpstreamFiles repository fetched.commit recorded).run
      outside.respond middle).2 = noted at records drops content
    generalize ((dropStaging path).run outside.respond noted).2 = dropped
      at drops
    have still : dropped.archive.revision repository fetched.commit ≠
        none := by
      rw [(aside_dropStaging drops).archive]
      intro missing
      have same := content repository fetched.commit
      rw [missing, Option.map_none] at same
      exact stands (Option.map_eq_none_iff.mp same.symm)
    obtain ⟨later, updated⟩ := exists_updateRef repo named valid still
    have names : Returns outside.Effect
        (nameRef repository reference fetched.commit) dropped (.ok ())
        (dropped.withArchive later) := by
      refine returns_reporting.mpr ⟨.ok (), rfl, runs_perform.mpr ?_⟩
      change ((dropped.archive.updateRef repository reference
        fetched.commit).1, _) = _
      rw [updated]
    unfold finishRefresh
    rw [if_neg Bool.false_ne_true]
    exact ⟨_, returns_bind_ok.mpr ⟨(), middle, published,
      returns_always_bind.mpr ⟨_, noted, records,
        returns_always_bind.mpr ⟨_, dropped, drops,
          returns_bind_ok.mpr ⟨(), _, names,
            returns_check.mpr ⟨rfl, rfl⟩⟩⟩⟩⟩⟩


/-! ## What a refresh finds in staging -/

/-- Staging that was handed out stands under its name, and its target can be
named. -/
theorem stands_of_acquire
    {request : StagingRequest}
    {world later : Staging.World}
    (run : Returns Staging.Effect (Staging.acquireFetchStaging request) world
      (.ok staging) later) :
    Staging.validateRequest request = .ok () ∧
      ∃ found, later.area.entry staging.path = some found := by
  generalize handed : (.ok staging : Except FetchStagingError FetchStaging) =
    outcome at run
  cases Staging.returns_acquire run with
  | invalid => cases handed
  | refused => cases handed
  | adopted valid adoptable claims =>
      cases handed
      obtain ⟨found, _, stands, recorded, _⟩ := adoptable.recorded
      obtain ⟨_, _, same, replaced⟩ :=
        Staging.returns_claim stands recorded claims
      cases same
      exact ⟨valid, _, replaced.entry_new⟩
  | created valid _ creates =>
      obtain ⟨_, _, _, rfl, replaced⟩ :=
        Staging.returns_createFetchStaging creates
      cases handed
      exact ⟨valid, _, replaced.entry_new⟩

/-- A transfer leaves its files in the directory it was given. -/
theorem staged_transfer
    {transfer : Transfer}
    {request : FetchRequest}
    {found : AreaEntry}
    (stands : before.staging.area.entry request.staging = some found) :
    ∃ dir,
      (before.transfer transfer request).staged request.staging = some dir ∧
        dir.payload = transfer.payload := by
  have moved : ∃ entry, (before.moved transfer request).area.entry
      request.staging = some entry :=
    ⟨_, before.staging.area.entry_update_self stands transfer.fill⟩
  obtain ⟨entry, standsMoved⟩ := moved
  have present : ∃ entry, (before.transfer transfer request).staging.area.entry
      request.staging = some entry := by
    unfold Site.transfer
    dsimp only
    split
    · exact ⟨entry, standsMoved⟩
    · next commit resolved =>
        rcases Staging.returns_record (runs_run Staging.effect_respond
          (Staging.recordFetchResolvedCommit request.staging
            request.stagingRequest commit).run
          (before.moved transfer request)) with same | ⟨metadata, _, same⟩
        · rw [same]
          exact ⟨entry, standsMoved⟩
        · rw [same]
          exact ⟨_, Staging.entry_change_self standsMoved _⟩
  obtain ⟨last, standsLast⟩ := present
  have staged : (before.transfer transfer request).staged request.staging =
      some last.dir := by
    unfold Site.staged
    rw [standsLast]
    rfl
  exact ⟨last.dir, staged, payload_transfer staged⟩

/-! ## What a dry run predicts -/

/-- A refresh in this state can be handed this staging, and upstream gives it
this. -/
structure Fetches (outside : Outside) (repository : Repository)
    (reference : String) (staging : FetchStaging) (area : Staging.World)
    (before : Site) (fetched : FetchedRevision) : Prop where
  admitted : ∃ waited, outside.slot = .ok waited
  handed : Returns Staging.Effect (Staging.acquireFetchStaging
    ⟨repository.repoType, repository.repoId, reference, []⟩)
    (outside.arrive before).staging (.ok staging) area
  fetched : outside.transfer.outcome staging.resolvedCommit = .ok fetched

/-- The call succeeds and proposes a commit in place of the previous one. -/
def Proposes (outside : Outside) (repository : Repository)
    (reference : String) (staging : FetchStaging) (area : Staging.World)
    (before : Site) (dryRun : Bool) (previous : Option String)
    (proposed : String) : Prop :=
  ∃ result after, Returns (Handed outside staging area)
      (refreshOnce repository reference dryRun) before (.ok result) after ∧
    result.previous = previous ∧ result.proposed = proposed

/-- The dry run succeeds as the real run does, and the archive is afterwards
as it was when its turn came. -/
structure Predicts (outside : Outside) (repository : Repository)
    (reference : String) (staging : FetchStaging) (area : Staging.World)
    (before : Site) : Prop where
  same : ∀ previous proposed,
    Proposes outside repository reference staging area before true previous
        proposed ↔
      Proposes outside repository reference staging area before false previous
        proposed
  nothing : ∀ outcome after,
    Returns (Handed outside staging area)
      (refreshOnce repository reference true) before outcome after →
    after.archive = (outside.arrive before).archive

/-- Whatever becomes of a dry run, it writes nothing to the archive. -/
theorem archive_refreshFetched_dry
    {previous : Option String}
    {outcome : Except PullThroughError RefreshResult}
    (run : Returns outside.Effect
      (refreshFetched repository reference true previous) before outcome
      after) :
    after.archive = before.archive := by
  unfold refreshFetched at run
  rcases returns_bind.mp run with
    ⟨_, _, failed⟩ | ⟨staging, acquired, acquires, remaining⟩
  · obtain ⟨_, area, _, _, rfl⟩ := returns_acquireStaging.mp failed
    rfl
  obtain ⟨_, area, _, _, rfl⟩ := returns_acquireStaging.mp acquires
  rcases returns_bind.mp remaining with
    ⟨_, _, failed⟩ | ⟨fetched, moved, fetches, remaining⟩
  · rcases returns_fetchInto.mp failed with
      ⟨_, _, _, rfl⟩ | ⟨_, _, _, handled⟩
    · rfl
    · exact (aside_handleFetchFailure handled).archive
  rcases returns_fetchInto.mp fetches with
    ⟨_, _, _, rfl⟩ | ⟨_, _, impossible, _⟩
  swap
  · cases impossible
  rw [returns_always_of (settles_perform fun _ _ => Iff.rfl)] at remaining
  rcases returns_bind.mp remaining with
    ⟨_, _, failed⟩ | ⟨⟨⟩, claimed, claims, last⟩
  · rcases returns_claimPublication failed with ⟨_, rfl⟩ | ⟨_, aside⟩
    · rfl
    · exact aside.archive
  have still : claimed.archive = before.archive := by
    rcases returns_claimPublication claims with ⟨_, rfl⟩ | ⟨_, aside⟩
    · rfl
    · exact aside.archive
  exact (returns_finishRefresh_dry last).2.archive.trans still

theorem archive_refreshOnce_dry
    {outcome : Except PullThroughError RefreshResult}
    (run : Returns outside.Effect (refreshOnce repository reference true)
      before outcome after) :
    after.archive = (outside.arrive before).archive := by
  unfold refreshOnce at run
  rw [returns_always_of (settles_resolveRef repository reference)] at run
  rcases returns_bind.mp run with
    ⟨_, _, failed⟩ | ⟨waited, arrived, enters, remaining⟩
  · obtain ⟨_, rfl⟩ := returns_gate.mp failed
    rfl
  obtain ⟨_, rfl⟩ := returns_gate.mp enters
  obtain ⟨cancelled, middle, looks, last⟩ := returns_always_bind.mp remaining
  obtain rfl : middle = outside.arrive before := runs_perform.mp looks
  cases cancelled with
  | true =>
      obtain ⟨_, rfl⟩ := returns_check.mp last
      rfl
  | false => exact archive_refreshFetched_dry last

/-- A call that is handed staging may be any call. -/
theorem returns_of_handed
    {program : Action α}
    {outcome : Except PullThroughError α}
    (run : Returns (Handed outside staging area) program before outcome
      after) :
    Returns outside.Effect program before outcome after :=
  Program.Runs.mono (fun _ _ _ _ issued => effect_of_handed issued) run

/-- What either call needs to succeed: only the real one asks whether the
commit can be published. -/
theorem proposes_iff
    {dryRun : Bool}
    {previous : Option String}
    {proposed : String} :
    Proposes outside repository reference staging area before dryRun previous
        proposed ↔
      ∃ fetched,
        Fetches outside repository reference staging area before fetched ∧
          previous =
            (before.archive.resolveRef repository reference).toOption ∧
          proposed = fetched.commit ∧
          (dryRun = false → Refreshable (outside.arrive before).archive
            repository outside.transfer.payload fetched) := by
  have ended : ∀ fetched,
      Fetches outside repository reference staging area before fetched →
      ∀ recorded result,
        (∃ after, Returns outside.Effect
          (finishRefresh repository reference dryRun
            (before.archive.resolveRef repository reference).toOption fetched
            staging.path recorded)
          (fetchedSite outside repository reference staging area before)
          (.ok result) after) ↔
        result = ⟨(before.archive.resolveRef repository reference).toOption,
            fetched.commit, !dryRun⟩ ∧
          (dryRun = false → Refreshable (outside.arrive before).archive
            repository outside.transfer.payload fetched) := by
    intro fetched fetches recorded result
    obtain ⟨valid, found, stands⟩ := stands_of_acquire fetches.handed
    obtain ⟨⟨owner, name⟩, repo, valid⟩ := bind_eq_ok.mp valid
    obtain ⟨_, named, _⟩ := bind_eq_ok.mp valid
    obtain ⟨dir, staged, payload⟩ := @staged_transfer
      ((outside.arrive before).withStaging area) outside.transfer
      (refreshRequest repository reference staging) found stands
    cases dryRun with
    | true =>
        rw [Bool.not_true]
        constructor
        · rintro ⟨after, run⟩
          have same := (returns_finishRefresh_dry run).1
          exact ⟨Except.ok.inj same, by simp⟩
        · rintro ⟨rfl, _⟩
          have run := outside.returns_respond (finishRefresh repository
            reference true
            (before.archive.resolveRef repository reference).toOption fetched
            staging.path recorded)
            (fetchedSite outside repository reference staging area before)
          rw [(returns_finishRefresh_dry run).1] at run
          exact ⟨_, run⟩
    | false =>
        have published := @returns_finishRefresh_iff outside repository
          reference (fetchedSite outside repository reference staging area
            before) (owner, name) repo named
          (before.archive.resolveRef repository reference).toOption fetched
          staging.path recorded dir result staged
        rw [payload] at published
        rw [published, Bool.not_false, imp_iff_right rfl]
        rfl
  unfold Proposes
  constructor
  · rintro ⟨result, after, run, rfl, rfl⟩
    obtain ⟨waited, fetched, recorded, slot, handed, succeeded, _, run⟩ :=
      returns_refreshOnce_handed.mp ⟨after, run⟩
    have fetches : Fetches outside repository reference staging area before
        fetched := ⟨⟨waited, slot⟩, handed, succeeded⟩
    obtain ⟨rfl, refreshable⟩ := (ended fetched fetches _ _).mp run
    exact ⟨fetched, fetches, rfl, rfl, refreshable⟩
  · rintro ⟨fetched, fetches, rfl, rfl, refreshable⟩
    obtain ⟨waited, slot⟩ := fetches.admitted
    obtain ⟨after, run⟩ := returns_refreshOnce_handed.mpr
      ⟨waited, fetched, _, slot, fetches.handed, fetches.fetched, rfl,
        (ended fetched fetches _ _).mpr ⟨rfl, refreshable⟩⟩
    exact ⟨_, after, run, rfl, rfl⟩

/-- The dry run predicts the real run exactly when all that can be fetched
can be published, or is complete already. -/
theorem dry_run_predicts_iff :
    Predicts outside repository reference staging area before ↔
      ∀ fetched,
        Fetches outside repository reference staging area before fetched →
        Refreshable (outside.arrive before).archive repository
          outside.transfer.payload fetched := by
  constructor
  · rintro ⟨same, _⟩ fetched fetches
    obtain ⟨other, fetchesToo, _, _, refreshable⟩ := proposes_iff.mp
      ((same _ _).mp (proposes_iff.mpr ⟨fetched, fetches, rfl, rfl, nofun⟩))
    obtain rfl : fetched = other :=
      Except.ok.inj (fetches.fetched.symm.trans fetchesToo.fetched)
    exact refreshable rfl
  · intro refreshable
    refine ⟨?_, fun outcome after run =>
      archive_refreshOnce_dry (returns_of_handed run)⟩
    intro previous proposed
    rw [proposes_iff, proposes_iff]
    apply exists_congr
    intro fetched
    apply and_congr_right
    intro fetches
    apply and_congr_right
    intro _
    apply and_congr_right
    intro _
    exact iff_of_true nofun fun _ => refreshable fetched fetches


/-- A report that names one file twice can be dropped, and not published. -/
theorem dry_run_accepts_more :
    ¬∀ (outside : Outside) (repository : Repository) (reference : String)
      (staging : FetchStaging) (area : Staging.World) (before : Site),
      Predicts outside repository reference staging area before := by
  intro predicts
  let outside := Sample.outside (Sample.transfer Sample.older ["a", "a"])
  let site := Sample.site .empty
  let request : StagingRequest := ⟨.model, "org/model", "main", []⟩
  let staging : FetchStaging := ⟨.active "f", false, none⟩
  let acquired := (Staging.acquireFetchStaging request).run.run
    Staging.respond (outside.arrive site).staging
  have succeeds : acquired.1 = .ok staging := by decide +kernel
  have handed : Returns Staging.Effect _ _ acquired.1 acquired.2 :=
    runs_run Staging.effect_respond (Staging.acquireFetchStaging request).run
      (outside.arrive site).staging
  rw [succeeds] at handed
  have fetches : Fetches outside Sample.repository "main" staging acquired.2
      site ⟨Sample.older, ["a", "a"]⟩ := ⟨⟨none, rfl⟩, handed, rfl⟩
  have same := (predicts outside Sample.repository "main" staging acquired.2
    site).same
  obtain ⟨fetched, fetchesToo, _, _, refreshable⟩ := proposes_iff.mp
    ((same _ _).mp (proposes_iff.mpr ⟨_, fetches, rfl, rfl, nofun⟩))
  obtain rfl : ⟨Sample.older, ["a", "a"]⟩ = fetched :=
    Except.ok.inj fetchesToo.fetched
  rcases refreshable rfl with complete | ⟨_, _, publishable⟩
  · have incomplete : ¬(outside.arrive site).archive.Complete
        Sample.repository Sample.older := by decide +kernel
    exact incomplete complete
  · exact absurd publishable.distinct (by decide)

end PullThrough
end ModelKeep
