import ModelKeep.PullThrough.Answered
import ModelKeep.PullThrough.Interrupted

/-!
# What "already archived" stands for

A flight finds in several places that nothing is missing, and each place
compares other paths: what upstream lists for the selection or for what is
left of it, what the record lists, the concrete paths of the selection, or
what a transfer reports.
-/

namespace ModelKeep
namespace PullThrough

open Concurrency Program

variable
  {outside : Outside}
  {repository : Repository}
  {requested : String}
  {selection : FileSelection}
  {before after : Site}
  {resolves : String → Prop}
  {reports : FileSelection → String → List String}

/-! ## Reconciliations -/

/-- The paths that a reconciliation compares with a manifest. -/
inductive Compares (outside : Outside) (repository : Repository)
    (requested : String) (site : Site) (selection : FileSelection) :
    String → List String → List String → Prop
  | record
      {published : String}
      {recorded archived : List String}
      (answers :
        answersFromRecord requested published selection = true)
      (record : site.archive.upstreamFiles repository published =
        .ok (some recorded))
      (read : site.archive.manifestPaths repository published =
        .ok archived) :
      Compares outside repository requested site selection published
        (coveredByRecord selection recorded) archived
  | inventory
      {inventory : RevisionInventory}
      {archived : List String}
      (asked : outside.inventory site.admitted
        (inventoryRequest repository requested selection) =
          .ok (some inventory))
      (read : site.archive.manifestPaths repository inventory.commit =
        .ok archived) :
      Compares outside repository requested site selection inventory.commit
        inventory.files archived

theorem returns_reporting_ok
    {ε α : Type}
    {report : ε → PullThroughError}
    {program : Program interface (Except ε α)}
    {value : α}
    (run : Returns outside.Effect (reporting report program) before
      (.ok value) after) :
    program.Runs outside.Effect before (.ok value) after := by
  obtain ⟨outcome, same, issued⟩ := returns_reporting.mp run
  cases outcome with
  | error error => cases same
  | ok found =>
      cases same
      exact issued

theorem returns_archivedPaths_ok
    {commit : String}
    {archived : List String}
    (run : Returns outside.Effect (archivedPaths repository commit) before
      (.ok archived) after) :
    before.archive.manifestPaths repository commit = .ok archived ∧
      after = before := by
  have answered : (before.archive.manifestPaths repository commit, before) =
      (.ok archived, after) := runs_perform.mp (returns_reporting_ok run)
  rw [Prod.mk.injEq] at answered
  exact answered.imp_right Eq.symm

theorem returns_reconcileFromRecord_ok
    {published : String}
    {answer : Option Reconciliation}
    (run : Returns outside.Effect
      (reconcileFromRecord repository requested published selection) before
      (.ok answer) after) :
    ∀ reconciliation ∈ answer, ∃ covered archived,
      Compares outside repository requested before selection published covered
        archived ∧
      concludeFrom published covered archived = .ok reconciliation := by
  rintro reconciliation ⟨⟩
  unfold reconcileFromRecord at run
  split at run
  swap
  · cases (returns_check.mp run).1
  next answers =>
    obtain ⟨recorded, middle, looked, remaining⟩ := returns_bind_ok.mp run
    have answered : (before.archive.upstreamFiles repository published,
        before) = (.ok recorded, middle) :=
      runs_perform.mp (returns_reporting_ok looked)
    rw [Prod.mk.injEq] at answered
    obtain ⟨record, rfl⟩ := answered
    cases recorded with
    | none => cases (returns_check.mp remaining).1
    | some recorded =>
        obtain ⟨archived, site, reads, last⟩ := returns_bind_ok.mp remaining
        obtain ⟨read, rfl⟩ := returns_archivedPaths_ok reads
        obtain ⟨concluded, rfl⟩ := returns_check.mp last
        refine ⟨_, archived, .record answers record read, ?_⟩
        cases found : concludeFrom published
            (coveredByRecord selection recorded) archived with
        | error error =>
            rw [found] at concluded
            cases concluded
        | ok other =>
            rw [found] at concluded
            cases concluded
            rfl

theorem returns_reconcileInventory_ok
    {inventory : Option RevisionInventory}
    {reconciliation : Reconciliation}
    (run : Returns outside.Effect (reconcileInventory repository inventory)
      before (.ok reconciliation) after) :
    reconciliation = .notPublished ∨ ∃ listed archived,
      inventory = some listed ∧
      before.archive.manifestPaths repository listed.commit =
        .ok archived ∧
      concludeFrom listed.commit listed.files archived =
        .ok reconciliation := by
  unfold reconcileInventory at run
  cases inventory with
  | none =>
      left
      exact Except.ok.inj (returns_check.mp run).1
  | some listed =>
      dsimp only at run
      rw [returns_always_of
        (settles_revisionIsPublished repository listed.commit)] at run
      by_cases complete : before.archive.Complete repository listed.commit
      · rw [decide_eq_true complete] at run
        obtain ⟨archived, site, reads, last⟩ := returns_bind_ok.mp run
        obtain ⟨read, rfl⟩ := returns_archivedPaths_ok reads
        exact Or.inr ⟨listed, archived, rfl, read,
          (returns_check.mp last).1.symm⟩
      · rw [decide_eq_false complete] at run
        left
        exact Except.ok.inj (returns_check.mp run).1

/-- A reconciliation concludes from what it compares, if there is anything to
compare with. -/
theorem returns_reconcileSelection_ok
    {reconciliation : Reconciliation}
    (run : Returns outside.Effect
      (reconcileSelection repository requested selection) before
      (.ok reconciliation) after) :
    reconciliation = .notPublished ∨ ∃ commit covered archived,
      Compares outside repository requested before selection commit covered
        archived ∧
      concludeFrom commit covered archived = .ok reconciliation := by
  unfold reconcileSelection at run
  rw [returns_always_of (settles_publishedCommit repository)] at run
  generalize before.archive.publishedCommit repository requested = answer
    at run
  cases answer with
  | none =>
      left
      exact Except.ok.inj (returns_check.mp run).1
  | some published =>
      obtain ⟨cancelled, middle, looks, remaining⟩ :=
        returns_always_bind.mp run
      obtain rfl : middle = before := runs_perform.mp looks
      cases cancelled with
      | true => cases (returns_check.mp remaining).1
      | false =>
          obtain ⟨answer, site, fromRecord, remaining⟩ :=
            returns_bind_ok.mp remaining
          obtain rfl := runs_looks only_reconcileFromRecord fromRecord
          cases answer with
          | some found =>
              obtain ⟨same, _⟩ := returns_check.mp remaining
              cases same
              obtain ⟨covered, archived, compares, concluded⟩ :=
                returns_reconcileFromRecord_ok fromRecord _ rfl
              exact Or.inr ⟨_, covered, archived, compares, concluded⟩
          | none =>
              obtain ⟨inventory, later, asked, last⟩ :=
                returns_bind_ok.mp remaining
              have answered : (outside.inventory site.admitted
                  (inventoryRequest repository requested selection), site) =
                    (.ok inventory, later) :=
                runs_perform.mp (returns_reporting_ok asked)
              rw [Prod.mk.injEq] at answered
              obtain ⟨answered, rfl⟩ := answered
              rcases returns_reconcileInventory_ok last with
                none | ⟨listed, archived, rfl, read, concluded⟩
              · exact Or.inl none
              · exact Or.inr ⟨_, _, archived, .inventory answered read,
                  concluded⟩

/-! ## Where a flight finds that nothing is missing -/

/-- What a flight goes on with after its first look: the selection, or what
that look found missing. -/
def Chooses (outside : Outside) (repository : Repository)
    (requested : String) (reconcile : Bool) (selection : FileSelection)
    (before : Site) (chosen : FileSelection) : Prop :=
  chosen = selection ∨ reconcile = true ∧ ∃ commit covered archived,
    Compares outside repository requested before selection commit covered
      archived ∧
    concludeFrom commit covered archived = .ok (.missing chosen)

/-- The commit at which nothing is missing, the paths that were compared to
find so, and the archive at that time.  The first index says whether upstream
was asked about the whole selection. -/
inductive Finds (outside : Outside) (repository : Repository)
    (requested : String) (reconcile : Bool) (selection : FileSelection)
    (before : Site) : Bool → String → List String → Archive → Prop
  | inventory
      {inventory : RevisionInventory}
      (selected : reconcile = true)
      (asked : outside.inventory before.admitted
        (inventoryRequest repository requested selection) =
          .ok (some inventory)) :
      Finds outside repository requested reconcile selection before true
        inventory.commit inventory.files before.archive
  | record
      {published : String}
      {recorded : List String}
      (selected : reconcile = true)
      (answers : answersFromRecord requested published selection = true)
      (record : before.archive.upstreamFiles repository published =
        .ok (some recorded)) :
      Finds outside repository requested reconcile selection before false
        published (coveredByRecord selection recorded) before.archive
  | ready
      {chosen : FileSelection}
      {commit : String}
      (chooses : Chooses outside repository requested reconcile selection
        before chosen)
      (target : before.archive.readyTarget repository requested
        chosen.requiredPaths = some commit) :
      Finds outside repository requested reconcile selection before false
        commit chosen.requiredPaths before.archive
  | remainder
      {chosen : FileSelection}
      {commit : String}
      {covered archived : List String}
      (selected : reconcile = true)
      (chooses : Chooses outside repository requested reconcile selection
        before chosen)
      (compares : Compares outside repository requested
        (outside.arrive before) chosen commit covered archived) :
      Finds outside repository requested reconcile selection before false
        commit covered (outside.arrive before).archive
  | transfer
      {last : FileSelection}
      {resume : Option String}
      {fetched : FetchedRevision}
      (offered : (outside.arrive before).staging.Offers
        ⟨repository.repoType, repository.repoId, requested, last.identity⟩
        resume)
      (fetches : outside.transfer.outcome resume = .ok fetched) :
      Finds outside repository requested reconcile selection before false
        fetched.commit fetched.files (outside.arrive before).archive

/-- Everything that was compared is listed, and is so at the end. -/
structure Settled (archive later : Archive) (repository : Repository)
    (commit : String) (compared : List String) : Prop where
  listed : ∀ path ∈ compared, archive.Lists repository commit path
  same : ∀ path, later.Lists repository commit path ↔
    archive.Lists repository commit path

theorem concludeFrom_satisfied
    {commit : String}
    {covered archived : List String}
    {result : AcquisitionResult}
    (concluded : concludeFrom commit covered archived =
      .ok (.satisfied result)) :
    result = ⟨commit, .alreadyArchived⟩ ∧
      ∀ path ∈ covered, path ∈ archived := by
  unfold concludeFrom at concluded
  dsimp only at concluded
  split at concluded
  · next nothing =>
      cases concluded
      refine ⟨rfl, fun path member => ?_⟩
      by_contra absent
      have missing : path ∈ covered.filter fun path => path ∉ archived := by
        rw [List.mem_filter, decide_eq_true_eq]
        exact ⟨member, absent⟩
      rw [nothing] at missing
      cases missing
  · split at concluded
    · cases concluded
    · cases concluded

theorem settled_of_compares
    {commit : String}
    {covered archived : List String}
    {result : AcquisitionResult}
    (compares : Compares outside repository requested before selection commit
      covered archived)
    (concluded : concludeFrom commit covered archived =
      .ok (.satisfied result)) :
    result.commit = commit ∧
      Settled before.archive before.archive repository commit covered := by
  obtain ⟨rfl, listed⟩ := concludeFrom_satisfied concluded
  have read : before.archive.manifestPaths repository commit =
      .ok archived := by
    cases compares with
    | record _ _ read => exact read
    | inventory _ read => exact read
  exact ⟨rfl, fun path member => ⟨archived, read, listed path member⟩,
    fun _ => Iff.rfl⟩

/-- What is served is listed. -/
theorem lists_of_holds
    {archive : Archive}
    {commit path : String}
    (holds : archive.Holds repository commit path) :
    archive.Lists repository commit path := by
  obtain ⟨repo, valid, revision, stands, _, found⟩ :=
    Archive.holds_iff.mp holds
  obtain ⟨_, manifest, entry, _, _, read, _, listed, _⟩ :=
    RevisionDir.resolveFile_eq_ok.mp found
  obtain ⟨decoded, _⟩ := RevisionDir.readManifestFor_eq_ok.mp read
  refine ⟨manifest.paths, Archive.manifestPaths_eq_ok.mpr
    ⟨repo, valid, revision, manifest, stands, decoded, rfl⟩, ?_⟩
  have samePath : entry.path = path := by
    simpa using List.find?_some listed
  rw [← samePath]
  exact List.mem_map_of_mem (List.mem_of_find?_eq_some listed)

/-- An extension that adds nothing finds every reported file listed, and
leaves the manifest as it is. -/
theorem settled_of_extend
    {archive stored : Archive}
    {fetched : FetchedRevision}
    {staged : Option StagingDir}
    {extension : RevisionExtension}
    (nothing : extension.added = [])
    (extended : archive.extend outside.sha256 repository fetched.commit
      fetched.files staged = (.ok extension, stored)) :
    Settled archive stored repository fetched.commit fetched.files := by
  obtain ⟨repo, valid, _, revision, larger, manifest, moved, stands, others,
    reports, extendedBy⟩ := Archive.extend_eq_ok extended
  have unmoved : moved = [] := by
    unfold Extension.Reports sortPaths at reports
    rw [nothing] at reports
    have none : (moved.map Extension.Staged.path).insertionSort _ = [] :=
      reports.symm
    have length := congrArg List.length none
    simpa using length
  have unchanged := extendedBy.unchanged unmoved
  constructor
  · intro path member
    refine ⟨manifest.paths, Archive.manifestPaths_eq_ok.mpr
      ⟨repo, valid, revision, manifest, stands, extendedBy.read, rfl⟩, ?_⟩
    have paths := extendedBy.paths
    rw [unmoved, List.map_nil] at paths
    by_contra absent
    have missing : path ∈ fetched.files.filter
        fun path => path ∉ manifest.paths := by
      rw [List.mem_filter, decide_eq_true_eq]
      exact ⟨member, absent⟩
    rw [← paths] at missing
    cases missing
  · intro path
    have same : archive.SameContent stored := by
      intro other name
      rw [others, unchanged]
      split
      · next isThis => rw [isThis.1, isThis.2, stands]
      · rfl
    exact same.lists_iff

theorem Stores.added_eq_nil
    {fetched : FetchedRevision}
    {staged : Option StagingDir}
    {outcome : AcquisitionOutcome}
    {archive stored : Archive}
    (stores : Stores outside repository requested fetched staged archive
      outcome stored)
    (already : outcome = .alreadyArchived) :
    ∃ extension, extension.added = [] ∧
      archive.extend outside.sha256 repository fetched.commit fetched.files
        staged = (.ok extension, stored) := by
  cases stores with
  | published => cases already
  | @extended extension _ complete extended =>
      split at already
      · next nothing => exact ⟨extension, nothing, extended⟩
      · cases already

/-- A transfer that ends without adding anything. -/
theorem finds_of_transfer
    {reconcile : Bool}
    {last : FileSelection}
    {commit : String}
    (run : Returns outside.Effect
      (transferSelection repository requested last) (outside.arrive before)
      (.ok ⟨commit, .alreadyArchived⟩) after) :
    ∃ compared archive,
      Finds outside repository requested reconcile selection before false
        commit compared archive ∧
      Settled archive after.archive repository commit compared := by
  obtain ⟨resume, fetched, staged, stored, offered, fetches, same, _, stores,
    names⟩ := returns_transferSelection_ok run
  obtain rfl : commit = fetched.commit := same
  refine ⟨fetched.files, _, .transfer offered fetches, ?_⟩
  obtain ⟨extension, nothing, extended⟩ := stores.added_eq_nil rfl
  have settled := settled_of_extend nothing extended
  exact ⟨settled.listed, fun path =>
    names.content.lists_iff.trans (settled.same path)⟩

theorem finds_of_selection
    {reconcile : Bool}
    {chosen : FileSelection}
    {commit : String}
    (chooses : Chooses outside repository requested reconcile selection before
      chosen)
    (run : Returns outside.Effect (fetchAndPublishSelection repository
      requested reconcile chosen) before (.ok ⟨commit, .alreadyArchived⟩)
      after) :
    ∃ compared archive,
      Finds outside repository requested reconcile selection before false
        commit compared archive ∧
      Settled archive after.archive repository commit compared := by
  unfold fetchAndPublishSelection at run
  rw [returns_always_of
    (settles_readyRef repository chosen.requiredPaths)] at run
  cases target : before.archive.readyTarget repository requested
      chosen.requiredPaths with
  | some found =>
      rw [target] at run
      obtain ⟨same, rfl⟩ := returns_check.mp run
      cases same
      refine ⟨_, _, .ready chooses target, ?_, fun _ => Iff.rfl⟩
      intro path member
      exact lists_of_holds
        ((Archive.readyTarget_eq_some.mp target).2.2 path member)
  | none =>
      rw [target] at run
      unfold fetchAndPublishWaiting at run
      obtain ⟨waited, arrived, enters, remaining⟩ := returns_bind_ok.mp run
      obtain ⟨_, rfl⟩ := returns_gate.mp enters
      obtain ⟨cancelled, middle, looks, last⟩ :=
        returns_always_bind.mp remaining
      obtain rfl : middle = outside.arrive before := runs_perform.mp looks
      cases cancelled with
      | true => cases (returns_check.mp last).1
      | false =>
          unfold transferRemaining at last
          by_cases again : (reconcile && waited) = true
          · rw [if_pos again] at last
            obtain ⟨reconciliation, site, looked, ends⟩ :=
              returns_bind_ok.mp last
            obtain rfl := runs_looks only_reconcileSelection looked
            cases reconciliation with
            | missing remaining => exact finds_of_transfer ends
            | notPublished => exact finds_of_transfer ends
            | satisfied result =>
                obtain ⟨same, rfl⟩ := returns_check.mp ends
                cases same
                rcases returns_reconcileSelection_ok looked with
                  other | ⟨_, covered, archived, compares, concluded⟩
                · cases other
                obtain ⟨same, settled⟩ :=
                  settled_of_compares compares concluded
                dsimp only at same
                subst same
                rw [Bool.and_eq_true] at again
                exact ⟨covered, _, .remainder again.1 chooses compares,
                  settled⟩
          · rw [if_neg again] at last
            exact finds_of_transfer last

/-- Every flight that ends with nothing to do found so in one of these
places. -/
theorem finds_of_alreadyArchived
    {reconcile : Bool}
    {commit : String}
    (run : Returns outside.Effect
      (acquisition repository requested reconcile selection) before
      (.ok ⟨commit, .alreadyArchived⟩) after) :
    ∃ whole compared archive,
      Finds outside repository requested reconcile selection before whole
        commit compared archive ∧
      Settled archive after.archive repository commit compared := by
  unfold acquisition at run
  cases reconcile with
  | false =>
      rw [if_neg Bool.false_ne_true] at run
      exact ⟨false, finds_of_selection (Or.inl rfl) run⟩
  | true =>
      rw [if_pos rfl] at run
      unfold acquireReconciled at run
      obtain ⟨reconciliation, site, looked, ends⟩ := returns_bind_ok.mp run
      obtain rfl := runs_looks only_reconcileSelection looked
      rcases returns_reconcileSelection_ok looked with
        rfl | ⟨found, covered, archived, compares, concluded⟩
      · exact ⟨false, finds_of_selection (Or.inl rfl) ends⟩
      cases reconciliation with
      | notPublished =>
          exact ⟨false, finds_of_selection (Or.inl rfl) ends⟩
      | missing narrowed =>
          exact ⟨false, finds_of_selection
            (Or.inr ⟨rfl, _, _, _, compares, concluded⟩) ends⟩
      | satisfied result =>
          obtain ⟨same, rfl⟩ := returns_check.mp ends
          cases same
          obtain ⟨same, settled⟩ := settled_of_compares compares concluded
          dsimp only at same
          subst same
          cases compares with
          | record answers record read =>
              exact ⟨_, _, _, .record rfl answers record, settled⟩
          | inventory asked read =>
              exact ⟨_, _, _, .inventory rfl asked, settled⟩

/-! ## What upstream says of it -/

/-- What upstream answers is what it holds: the commit is one that the
requested revision resolves to, and the paths are those that it reports for
the selection there. -/
def Honest (outside : Outside) (repository : Repository) (requested : String)
    (resolves : String → Prop)
    (reports : FileSelection → String → List String) : Prop :=
  ∀ admitted chosen inventory,
    outside.inventory admitted (inventoryRequest repository requested chosen) =
      .ok (some inventory) →
    resolves inventory.commit ∧
      ∀ path, path ∈ inventory.files ↔ path ∈ reports chosen inventory.commit

/-- The answer that nothing is missing is right: the revision resolves to the
commit, and all that upstream reports for the selection there is listed. -/
def Right (archive : Archive) (repository : Repository)
    (resolves : String → Prop)
    (reports : FileSelection → String → List String)
    (selection : FileSelection) (commit : String) : Prop :=
  resolves commit ∧ ∀ path ∈ reports selection commit,
    archive.Lists repository commit path

/-- `main` was archived at the older commit, and upstream answers with this
commit and one file. -/
def namingOutside (commit : String) : Outside :=
  { Sample.outside (Sample.transfer commit ["a"]) with
    inventory := fun _ _ => .ok (some ⟨commit, ["a"]⟩) }

/-- The acquisition of all of `main`. -/
def sampleSelected (commit : String) :
    Except PullThroughError AcquisitionResult × Site :=
  (acquisition Sample.repository "main" true .all).run.run
    (namingOutside commit).respond
    (Sample.site (Sample.archive Sample.older ["a"]))

theorem honest_namingOutside (commit : String) :
    Honest (namingOutside commit) Sample.repository "main" (· = commit)
      fun _ _ => ["a"] := by
  rintro admitted chosen inventory ⟨⟩
  exact ⟨rfl, fun _ => Iff.rfl⟩

theorem returns_sampleSelected
    {commit : String}
    (succeeds : (sampleSelected commit).1 =
      .ok ⟨Sample.older, .alreadyArchived⟩) :
    Returns (namingOutside commit).Effect
      (acquisition Sample.repository "main" true .all)
      (Sample.site (Sample.archive Sample.older ["a"]))
      (.ok ⟨Sample.older, .alreadyArchived⟩) (sampleSelected commit).2 := by
  rw [← succeeds]
  exact (namingOutside commit).returns_respond _ _

end PullThrough
end ModelKeep
