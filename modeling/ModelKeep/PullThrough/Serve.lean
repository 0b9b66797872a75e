import ModelKeep.PullThrough.Refresh

/-!
# Acquisitions for requests that are served

A request that the archive cannot serve starts an acquisition.  The commit it
is answered with serves what looks like a concrete path, and the ref that was
asked for follows whatever was fetched.
-/

namespace ModelKeep
namespace PullThrough

open Concurrency Program

variable
  {α : Type}
  {outside : Outside}
  {repository : Repository}
  {requested : String}
  {before after : Site}

/-! ## Which refs a request moves -/

/-- What was requested is a commit, or a ref that does not stand for another
commit than this one. -/
def Unmoved (archive : Archive) (repository : Repository)
    (requested commit : String) : Prop :=
  isHfCommit requested = false → ∀ target,
    archive.resolveRef repository requested = .ok target → target = commit

/-- Naming moves no ref but the requested one. -/
theorem names_keepsRefs_iff
    {archive stored later : Archive}
    {commit : String}
    (others : archive.KeepsRefs stored)
    (names : Names repository requested commit stored later) :
    archive.KeepsRefs later ↔
      Unmoved archive repository requested commit := by
  cases names with
  | commit hfCommit content kept =>
      constructor
      · intro _ mutable
        rw [hfCommit] at mutable
        cases mutable
      · intro _ other name target resolved
        exact kept _ _ _ (others _ _ _ resolved)
  | @ref recorded named _ mutable same updated content kept =>
      constructor
      · intro keeps _ target resolved
        have still := keeps _ _ _ resolved
        have moved := kept _ _ _ (Archive.resolveRef_updateRef updated)
        rw [moved] at still
        exact (Except.ok.inj still).symm
      · intro unmoved other name target resolved
        apply kept
        by_cases asked : other = repository ∧ name = requested
        · obtain ⟨rfl, rfl⟩ := asked
          rw [unmoved mutable target resolved]
          exact Archive.resolveRef_updateRef updated
        · rw [Archive.resolveRef_updateRef_of_ne updated asked,
            Archive.resolveRef_congr same]
          exact others _ _ _ resolved

theorem keepsRefs_of_transfers
    {archive stored later : Archive}
    {commit : String}
    {result : Except PullThroughError AcquisitionResult}
    (fetches : ∀ resume fetched,
      outside.transfer.outcome resume = .ok fetched →
        fetched.commit = commit)
    (others : archive.KeepsRefs stored)
    (transfers : Transfers outside repository requested stored result
      later) :
    (∀ error, result = .error error → archive.KeepsRefs later) ∧
      ∀ answer, result = .ok answer →
        (archive.KeepsRefs later ↔
          Unmoved archive repository requested commit) := by
  cases transfers with
  | failed same =>
      refine ⟨?_, fun _ succeeded => by cases succeeded⟩
      rintro _ - other name target resolved
      rw [Archive.resolveRef_congr same]
      exact others _ _ _ resolved
  | stored fetched payload stores names =>
      refine ⟨fun _ failed => (by cases failed), ?_⟩
      rintro _ -
      rw [fetches _ _ fetched] at names
      apply names_keepsRefs_iff _ names
      intro other name target resolved
      rw [Archive.resolveRef_congr stores.reference]
      exact others _ _ _ resolved

/-- What a flight that a request has started leaves of the refs. -/
theorem flight_keepsRefs
    {commit : String}
    {selection : FileSelection}
    {result : Except PullThroughError AcquisitionResult}
    (fetches : ∀ resume fetched,
      outside.transfer.outcome resume = .ok fetched →
        fetched.commit = commit)
    (others : before.archive.KeepsRefs (outside.arrive before).archive)
    (run : Returns outside.Effect
      (acquisition repository requested false selection) before result
      after) :
    (∀ error, result = .error error →
        before.archive.KeepsRefs after.archive) ∧
      ∀ answer, result = .ok answer →
        (before.archive.KeepsRefs after.archive ↔
          (before.archive.readyTarget repository requested
              selection.requiredPaths).isSome ∨
            Unmoved before.archive repository requested commit) := by
  unfold acquisition at run
  rw [if_neg Bool.false_ne_true] at run
  rcases returns_fetchAndPublishSelection run with
    ⟨target, found, rfl, rfl⟩ | ⟨missing, transfers⟩
  · refine ⟨fun _ failed => (by cases failed), ?_⟩
    rintro _ -
    rw [found]
    exact iff_of_true (fun _ _ _ resolved => resolved) (Or.inl rfl)
  · rw [missing]
    simpa using keepsRefs_of_transfers fetches others transfers

/-- How a request is answered: from the archive under its ref, from the
archive under its commit, or by a flight. -/
inductive Answers (outside : Outside) (repository : Repository)
    (requested : String) (selection : FileSelection) (before after : Site) :
    Except PullThroughError (Option String) → Prop
  | warm
      {commit : String}
      (target : before.archive.readyTarget repository requested
        selection.requiredPaths = some commit)
      (same : after = before) :
      Answers outside repository requested selection before after
        (.ok (some commit))
  | pinned
      (missing : before.archive.readyTarget repository requested
        selection.requiredPaths = none)
      (ready : before.archive.Ready repository requested
        selection.requiredPaths)
      (same : after = before) :
      Answers outside repository requested selection before after
        (.ok (some requested))
  | pending
      (same : after = before) :
      Answers outside repository requested selection before after (.ok none)
  | flown
      {result : Except PullThroughError AcquisitionResult}
      (missing : before.archive.readyTarget repository requested
        selection.requiredPaths = none)
      (unready : ¬before.archive.Ready repository requested
        selection.requiredPaths)
      (run : Returns outside.Effect
        (acquisition repository requested false selection) before result
        after) :
      Answers outside repository requested selection before after
        (result.map fun answer => some answer.commit)

theorem returns_ensureBounded
    {inTime : Bool}
    {files : List String}
    {selection : FileSelection}
    {result : Except PullThroughError (Option String)}
    (selects : FileSelection.fromPaths files = some selection)
    (run : Returns outside.Effect
      (ensureBounded repository requested inTime files) before result
      after) :
    Answers outside repository requested selection before after result ∧
      (inTime = false → after = before) := by
  unfold ensureBounded at run
  rw [selects] at run
  dsimp only at run
  rw [returns_always_of
    (settles_readyRef repository selection.requiredPaths)] at run
  cases target : before.archive.readyTarget repository requested
      selection.requiredPaths with
  | some commit =>
      rw [target] at run
      obtain ⟨rfl, rfl⟩ := returns_check.mp run
      exact ⟨.warm target rfl, fun _ => rfl⟩
  | none =>
      rw [target] at run
      dsimp only at run
      rw [returns_always_of (settles_revisionIsReady repository requested
        selection.requiredPaths)] at run
      by_cases ready : before.archive.Ready repository requested
          selection.requiredPaths
      · rw [decide_eq_true ready] at run
        obtain ⟨rfl, rfl⟩ := returns_check.mp run
        exact ⟨.pinned target ready rfl, fun _ => rfl⟩
      · rw [decide_eq_false ready] at run
        unfold runAcquisition at run
        cases inTime with
        | false =>
            rw [if_neg Bool.false_ne_true] at run
            obtain ⟨rfl, rfl⟩ := returns_check.mp run
            exact ⟨.pending rfl, fun _ => rfl⟩
        | true =>
            rw [if_pos rfl] at run
            rcases returns_bind.mp run with
              ⟨error, rfl, failed⟩ | ⟨answer, middle, flown, last⟩
            · exact ⟨.flown target ready failed, fun late => by cases late⟩
            · obtain ⟨rfl, rfl⟩ := returns_check.mp last
              exact ⟨.flown target ready flown, fun late => by cases late⟩

/-- A request that is refused before anything is looked at. -/
theorem returns_ensureBounded_unsafe
    {inTime : Bool}
    {files : List String}
    {result : Except PullThroughError (Option String)}
    (selects : FileSelection.fromPaths files = none)
    (run : Returns outside.Effect
      (ensureBounded repository requested inTime files) before result
      after) :
    result = .error .unsafePath ∧ after = before := by
  unfold ensureBounded at run
  rw [selects] at run
  exact returns_check.mp run

/-! ## Metadata -/

/-- Asking upstream for metadata makes refs that were missing and moves
none. -/
theorem upstreamMetadata_keepsRefs
    {result : Except PullThroughError (Option UpstreamRepositoryFiles)}
    (run : Returns outside.Effect (upstreamMetadata repository requested)
      before result after) :
    before.archive.KeepsRefs after.archive := by
  have asks : ∀ answer middle,
      Returns outside.Effect (reporting PullThroughError.ofUpstream (perform
        (.repositoryFiles ⟨repository.repoType, repository.repoId, requested,
          [], []⟩))) before answer middle → middle = before := by
    intro answer middle asked
    obtain ⟨_, _, issued⟩ := returns_reporting.mp asked
    cases runs_perform.mp issued
    rfl
  unfold upstreamMetadata at run
  rcases returns_bind.mp run with
    ⟨_, _, failed⟩ | ⟨reported, middle, asked, remaining⟩
  · rw [asks _ _ failed]
    exact fun _ _ _ resolved => resolved
  obtain rfl := asks _ _ asked
  split at remaining
  · obtain ⟨_, rfl⟩ := returns_check.mp remaining
    exact fun _ _ _ resolved => resolved
  · split at remaining
    · obtain ⟨_, rfl⟩ := returns_check.mp remaining
      exact fun _ _ _ resolved => resolved
    · obtain ⟨⟨⟩, noted, notes, adopting⟩ := returns_always_bind.mp remaining
      cases runs_perform.mp notes
      obtain ⟨⟨⟩, adopted, adopts, last⟩ := returns_always_bind.mp adopting
      obtain ⟨_, rfl⟩ := returns_check.mp last
      exact (runs_adoptResolvedRefs adopts).2

/-! ## Refs and requests -/

/-- The archive can answer a request for these files. -/
def Warm (archive : Archive) (repository : Repository) (requested : String)
    (files : List String) : Prop :=
  ∃ selection, FileSelection.fromPaths files = some selection ∧
    ((archive.readyTarget repository requested
        selection.requiredPaths).isSome ∨
      archive.Ready repository requested selection.requiredPaths)

/-- A request for files of `main` that nobody cancels. -/
def sampleServe (outside : Outside) (files : List String) (site : Site) :
    Except PullThroughError (Option String) × Site :=
  (ensureBounded Sample.repository "main" true files).run.run
    outside.respond site

/-- `main` was archived at the older commit with one file, and upstream has
moved on. -/
def advancedOutside : Outside :=
  Sample.outside (Sample.transfer Sample.newer ["b"])

def advancedSite : Site := Sample.site (Sample.archive Sample.older ["a"])

theorem advanced_serves :
    Returns advancedOutside.Effect
      (ensureBounded Sample.repository "main" true ["b"]) advancedSite
      (.ok (some Sample.newer))
      (sampleServe advancedOutside ["b"] advancedSite).2 := by
  have succeeds : (sampleServe advancedOutside ["b"] advancedSite).1 =
      .ok (some Sample.newer) := by
    decide +kernel
  rw [← succeeds]
  exact advancedOutside.returns_respond _ _

end PullThrough
end ModelKeep
