import ModelKeep.PullThrough.Reconcile
import ModelKeep.PullThrough.Serve

/-!
# What a served request finds at its commit

The looks at the archive pass over the files that are spelled like patterns,
so a request for such files may be answered with a commit that lacks them.  A
transfer adds what upstream has, but nothing that the manifest lists already.
-/

namespace ModelKeep
namespace PullThrough

open Concurrency Program

variable
  {outside : Outside}
  {repository : Repository}
  {requested : String}
  {before after : Site}
  {upstream : String → List String}
  {files : List String}
  {selection : FileSelection}

/-! ## What an archive serves -/

/-- Nothing is served under the spelling of a directory. -/
theorem not_holds_of_slash
    {archive : Archive}
    {commit path : String}
    (slash : endsWithSlash path = true) :
    ¬archive.Holds repository commit path := by
  intro holds
  obtain ⟨_, _, revision, stands, _, found⟩ := Archive.holds_iff.mp holds
  obtain ⟨_, _, _, place, content, _, _, _, leads, file, _⟩ :=
    RevisionDir.resolveFile_eq_ok.mp found
  have final : (splitPath path).getLast? = some "" := by
    rw [splitPath_of_endsWithSlash slash]
    simp
  have linkless : revision.tree.Linkless := archive.linkless _ _ _ stands
  have directory := linkless.isDirectory_of_walk final leads
  rw [FileTree.isDirectory_iff, file] at directory
  cases directory

/-- An incomplete commit that can be published lists nothing. -/
theorem not_lists_of_missing
    {archive : Archive}
    {commit path : String}
    (missing : archive.revision repository commit = none) :
    ¬archive.Lists repository commit path := by
  rintro ⟨_, read, _⟩
  obtain ⟨_, _, _, _, stands, _⟩ := Archive.manifestPaths_eq_ok.mp read
  rw [missing] at stands
  cases stands

/-- What an extension adds to what is served. -/
theorem holds_extend_iff
    {archive later : Archive}
    {sha256 : Bytes → String}
    {commit path : String}
    {reported : List String}
    {staged : Option StagingDir}
    {extension : RevisionExtension}
    (canonical : CanonicalPath path)
    (plain : ∀ file ∈ reported, CanonicalPath file)
    (extended : archive.extend sha256 repository commit reported staged =
      (.ok extension, later)) :
    later.Holds repository commit path ↔
      archive.Holds repository commit path ∨
        path ∈ reported ∧ ¬archive.Lists repository commit path := by
  obtain ⟨repo, valid, _, revision, larger, manifest, moved, stands, others,
    _, extendedBy⟩ := Archive.extend_eq_ok extended
  have standsLater := others repository commit
  rw [if_pos ⟨rfl, rfl⟩] at standsLater
  have lists : archive.Lists repository commit path ↔
      path ∈ manifest.paths := by
    constructor
    · rintro ⟨paths, read, listed⟩
      obtain ⟨_, _, other, decoded, standsToo, readToo, rfl⟩ :=
        Archive.manifestPaths_eq_ok.mp read
      rw [stands] at standsToo
      cases standsToo
      rw [extendedBy.read] at readToo
      cases readToo
      exact listed
    · intro listed
      exact ⟨_, Archive.manifestPaths_eq_ok.mpr
        ⟨repo, valid, revision, manifest, stands, extendedBy.read, rfl⟩,
        listed⟩
  have resolves := extendedBy.resolves_iff
    (archive.linkless _ _ _ stands) (later.linkless _ _ _ standsLater) plain
    canonical
  rw [lists, Archive.holds_iff, Archive.holds_iff, standsLater, stands]
  constructor
  · rintro ⟨_, _, _, same, found⟩
    cases same
    rcases resolves.mp found with earlier | added
    · exact Or.inl ⟨repo, valid, revision, rfl, earlier⟩
    · exact Or.inr added
  · intro served
    refine ⟨repo, valid, larger, rfl, resolves.mpr ?_⟩
    rcases served with ⟨_, _, _, same, found⟩ | added
    · cases same
      exact Or.inl found
    · exact Or.inr added

/-! ## Fetchers that go by name -/

/-- A fetcher that reports, of what upstream has at a commit, exactly the
files whose names were asked for. -/
structure FetchesByName (outside : Outside) (upstream : String → List String)
    (files : List String) : Prop where
  reported : ∀ resume fetched,
    outside.transfer.outcome resume = .ok fetched →
      ∀ path, path ∈ fetched.files ↔
        path ∈ upstream fetched.commit ∧ path ∈ files
  staged : ∀ resume fetched,
    outside.transfer.outcome resume = .ok fetched →
      ∀ path ∈ fetched.files,
        outside.transfer.payload.isFile (plainComponents path) = true
  unslashed : ∀ commit, ∀ path ∈ upstream commit, endsWithSlash path = false

/-- A path is served at the commit, or upstream has it there and the manifest
does not list it. -/
def Obtains (archive : Archive) (repository : Repository)
    (upstream : String → List String) (commit path : String) : Prop :=
  archive.Holds repository commit path ∨
    path ∈ upstream commit ∧ ¬archive.Lists repository commit path

/-- A selection of paths names each file in its plain spelling, or as a
directory. -/
theorem canonical_of_fromPaths
    {path : String}
    (selects : FileSelection.fromPaths files = some selection)
    (member : path ∈ files)
    (unslashed : endsWithSlash path = false) :
    CanonicalPath path :=
  canonicalPath_of_safe ((fromPaths_eq_some selects).1 path member) unslashed

theorem holds_of_stores_iff
    {fetched : FetchedRevision}
    {resume : Option String}
    {staged : Option StagingDir}
    {outcome : AcquisitionOutcome}
    {archive stored : Archive}
    {path : String}
    (selects : FileSelection.fromPaths files = some selection)
    (byName : FetchesByName outside upstream files)
    (fetches : outside.transfer.outcome resume = .ok fetched)
    (payload : ∀ dir, staged = some dir →
      dir.payload = outside.transfer.payload)
    (stores : Stores outside repository requested fetched staged archive
      outcome stored)
    (member : path ∈ files) :
    stored.Holds repository fetched.commit path ↔
      Obtains archive repository upstream fetched.commit path := by
  have reported := byName.reported _ _ fetches
  unfold Obtains
  cases slash : endsWithSlash path with
  | true =>
      have absent : path ∉ upstream fetched.commit := by
        intro present
        have unslashed := byName.unslashed _ path present
        rw [slash] at unslashed
        cases unslashed
      simp [not_holds_of_slash slash, absent]
  | false =>
      have canonical := canonical_of_fromPaths selects member slash
      have asked : path ∈ fetched.files ↔ path ∈ upstream fetched.commit := by
        rw [reported]
        exact and_iff_left member
      cases stores with
      | extended complete extended =>
          have plain : ∀ file ∈ fetched.files, CanonicalPath file := by
            intro file listed
            have present := (reported file).mp listed
            exact canonical_of_fromPaths selects present.2
              (byName.unslashed _ file present.1)
          rw [holds_extend_iff canonical plain extended, asked]
      | published incomplete published =>
          obtain ⟨_, _, _, missing, dir, _, rfl, _⟩ :=
            Archive.publish_eq_ok published
          have nothing : ¬archive.Holds repository fetched.commit path :=
            fun holds => incomplete holds.complete
          have unlisted : ¬archive.Lists repository fetched.commit path :=
            not_lists_of_missing missing
          rw [or_iff_right nothing, and_iff_left unlisted, ← asked]
          constructor
          · exact Archive.mem_of_holds_publish published
          · intro listed
            apply (Archive.holds_publish published listed).mpr
            rw [payload dir rfl, canonical.plainComponents_eq,
              joinPath_splitPath]
            refine ⟨?_, listed⟩
            rw [← canonical.plainComponents_eq]
            exact byName.staged _ _ fetches path listed

/-! ## What a flight was handed -/

/-- A transfer that succeeds was handed staging, and fetched what the commit
of that staging stands for. -/
theorem returns_transferSelection_ok
    {result : AcquisitionResult}
    (run : Returns outside.Effect
      (transferSelection repository requested selection) before (.ok result)
      after) :
    ∃ resume fetched staged stored,
      before.staging.Offers ⟨repository.repoType, repository.repoId,
        requested, selection.identity⟩ resume ∧
      outside.transfer.outcome resume = .ok fetched ∧
      result.commit = fetched.commit ∧
      (∀ dir, staged = some dir → dir.payload = outside.transfer.payload) ∧
      Stores outside repository requested fetched staged before.archive
        result.outcome stored ∧
      Names repository requested fetched.commit stored after.archive := by
  unfold transferSelection at run
  obtain ⟨staging, acquired, acquires, remaining⟩ := returns_bind_ok.mp run
  obtain ⟨answer, area, same, handed, rfl⟩ :=
    returns_acquireStaging.mp acquires
  obtain ⟨fetched, moved, fetches, last⟩ := returns_bind_ok.mp remaining
  rcases returns_fetchInto.mp fetches with
    ⟨_, succeeded, sameToo, rfl⟩ | ⟨_, _, failed, _⟩
  swap
  · cases failed
  cases sameToo
  rcases returns_storeAndName last with
    ⟨_, failed, _⟩ | ⟨outcome, stored, ended, stores, names⟩
  · cases failed
  cases ended
  cases answer with
  | error error => cases same
  | ok found =>
      cases same
      exact ⟨_, fetched, _, stored, Staging.offers_of_acquire handed,
        succeeded, rfl, fun _ staged => payload_transfer staged, stores,
        names⟩

theorem returns_fetchAndPublishSelection_ok
    {result : AcquisitionResult}
    (missing : before.archive.readyTarget repository requested
      selection.requiredPaths = none)
    (run : Returns outside.Effect
      (fetchAndPublishSelection repository requested false selection) before
      (.ok result) after) :
    Returns outside.Effect (transferSelection repository requested selection)
      (outside.arrive before) (.ok result) after := by
  unfold fetchAndPublishSelection at run
  rw [returns_always_of
    (settles_readyRef repository selection.requiredPaths), missing] at run
  unfold fetchAndPublishWaiting at run
  obtain ⟨waited, arrived, enters, remaining⟩ := returns_bind_ok.mp run
  obtain ⟨_, rfl⟩ := returns_gate.mp enters
  obtain ⟨cancelled, middle, looks, last⟩ :=
    returns_always_bind.mp remaining
  obtain rfl : middle = outside.arrive before := runs_perform.mp looks
  cases cancelled with
  | true => cases (returns_check.mp last).1
  | false =>
      unfold transferRemaining at last
      rwa [Bool.false_and, if_neg Bool.false_ne_true] at last

/-! ## Answers and files -/

/-- The commit serves the files that are spelled like patterns. -/
def HoldsPatterns (archive : Archive) (repository : Repository)
    (commit : String) (files : List String) : Prop :=
  ∀ path ∈ files, isGlobPattern path = true →
    archive.Holds repository commit path

/-- A warm revision serves what is spelled like a pattern.  A transfer, of the
commit that it resumes or of another one, comes with what is not served. -/
def Answerable (outside : Outside) (upstream : String → List String)
    (repository : Repository) (requested : String) (before : Site)
    (files : List String) (selection : FileSelection)
    (resume : Option String) : Prop :=
  match before.archive.readyTarget repository requested
      selection.requiredPaths with
  | some commit => HoldsPatterns before.archive repository commit files
  | none =>
      if before.archive.Ready repository requested selection.requiredPaths
      then HoldsPatterns before.archive repository requested files
      else ∀ fetched, outside.transfer.outcome resume = .ok fetched →
        ∀ path ∈ files, Obtains (outside.arrive before).archive repository
          upstream fetched.commit path

theorem holds_iff_of_ready
    {archive : Archive}
    {commit : String}
    (selects : FileSelection.fromPaths files = some selection)
    (ready : archive.Ready repository commit selection.requiredPaths) :
    (∀ path ∈ files, archive.Holds repository commit path) ↔
      HoldsPatterns archive repository commit files := by
  constructor
  · exact fun holds path member _ => holds path member
  · intro patterns path member
    cases glob : isGlobPattern path with
    | true => exact patterns path member glob
    | false =>
        apply ready.2
        unfold FileSelection.requiredPaths
        rw [(fromPaths_eq_some selects).2.1, List.mem_filter]
        exact ⟨(mem_orderedPaths _ _).mpr member, by rw [glob]; rfl⟩

/-- `main` was archived with one file, and upstream has another one at its
commit, whose name looks like a pattern. -/
def bracketOutside : Outside :=
  Sample.outside (Sample.transfer Sample.older ["b[1]"])

def bracketSite : Site := Sample.site (Sample.archive Sample.older ["a"])

end PullThrough
end ModelKeep
