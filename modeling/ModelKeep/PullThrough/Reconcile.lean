import ModelKeep.Fetcher.Inventory
import ModelKeep.PullThrough.Steps
import ModelKeep.Staging.Selections

/-!
# Reconciling a selection

A selection is weighed against an archived revision by what upstream holds,
and the list of upstream's files comes from the record of the revision or from
the fetch helper.  Both routes end with the paths that are missing, taken as a
selection of their own, so a path that a selection cannot name ends them both.
-/

namespace ModelKeep
namespace PullThrough

open Concurrency Program

/-! ## Paths as selections -/

/-- A path that stands for itself when it is taken for a pattern: it has no
special character and no mark, and it is in its plain spelling. -/
structure Literal (path : String) : Prop where
  characters : ∀ character ∈ path.toList, character ≠ '\\' ∧
    character ≠ '*' ∧ character ≠ '?' ∧ character ≠ '[' ∧ character ≠ ']'
  unmarked : startsWith path "!" = false
  plain : ∀ component ∈ splitPath path, component ≠ "" ∧ component ≠ "."

instance (path : String) : Decidable (Literal path) :=
  decidable_of_iff
    ((path.toList.all fun character =>
        decide (character ∉ ['\\', '*', '?', '[', ']'])) ∧
      startsWith path "!" = false ∧
      (splitPath path).all fun component =>
        component ≠ "" && component ≠ ".")
    (by
      constructor
      · rintro ⟨characters, unmarked, plain⟩
        exact ⟨by simpa using characters, unmarked, by simpa using plain⟩
      · rintro ⟨characters, unmarked, plain⟩
        exact ⟨by simpa using characters, unmarked, by simpa using plain⟩)

/-- A path that `from_paths` takes for a pattern that names it alone. -/
def Selectable (path : String) : Prop :=
  ∃ selection, FileSelection.fromPaths [path] = some selection ∧
    selection.requiredPaths = [path]

theorem fromPaths_eq_some
    {paths : List String}
    {selection : FileSelection}
    (made : FileSelection.fromPaths paths = some selection) :
    (∀ path ∈ paths, isSafeSelectionPattern path = true) ∧
      selection.included = orderedPaths paths ∧ selection.excluded = [] := by
  unfold FileSelection.fromPaths FileSelection.new at made
  split at made
  · next safe =>
      cases made
      exact ⟨safe.1, rfl, rfl⟩
  · cases made

theorem fromPaths_isSome
    {paths : List String}
    (safe : ∀ path ∈ paths, isSafeSelectionPattern path = true) :
    ∃ selection, FileSelection.fromPaths paths = some selection := by
  unfold FileSelection.fromPaths FileSelection.new
  rw [dif_pos ⟨safe, by simp⟩]
  exact ⟨_, rfl⟩

theorem endsWithSlash_of_plain
    {path : String}
    (plain : ∀ component ∈ splitPath path, component ≠ "" ∧ component ≠ ".") :
    endsWithSlash path = false := by
  rw [Bool.eq_false_iff]
  intro slash
  have last : path.toList.getLast? = some '/' := by
    simpa [endsWithSlash] using slash
  have whole : path.toList = path.toList.dropLast ++ ['/'] :=
    (List.dropLast_append_getLast? '/' last).symm
  have final : "" ∈ splitPath path := by
    unfold splitPath
    rw [whole, List.splitOn_append_cons_self, List.splitOn_nil]
    simp
  exact (plain "" final).1 rfl

theorem literal_of_selectable
    {path : String}
    (safe : isSafeSelectionPattern path = true)
    (concrete : isGlobPattern path = false) :
    Literal path := by
  unfold isGlobPattern at concrete
  rw [Bool.or_eq_false_iff, List.any_eq_false] at concrete
  have canonical := canonicalPath_of_safe safe concrete.1
  refine ⟨?_, unmarked_of_safe safe, canonical.plain⟩
  intro character member
  have ordinary := concrete.2 character member
  simp only [Bool.or_eq_true, decide_eq_true_eq, not_or] at ordinary
  refine ⟨?_, ordinary.1.1.1, ordinary.1.1.2, ordinary.1.2, ordinary.2⟩
  rintro rfl
  unfold isSafeSelectionPattern at safe
  rw [if_pos] at safe
  · cases safe
  · refine Or.inr (Or.inr (Or.inr (Or.inl ?_)))
    rw [List.contains_eq_mem]
    exact decide_eq_true member

theorem safe_of_literal
    {path : String}
    (valid : validateRelativeFilePath path = .ok ())
    (literal : Literal path) :
    isSafeSelectionPattern path = true ∧ isGlobPattern path = false := by
  have concrete := endsWithSlash_of_plain literal.plain
  have whole : withoutFinalSlash path = path := by
    rw [withoutFinalSlash, concrete]
    rfl
  have noBackslash : path.toList.contains '\\' = false := by
    rw [List.contains_eq_mem, decide_eq_false_iff_not]
    intro member
    exact (literal.characters _ member).1 rfl
  unfold validateRelativeFilePath at valid
  split at valid
  · cases valid
  · next fine =>
      simp only [not_or, Bool.not_eq_true] at fine
      obtain ⟨nonempty, relative, external, printable, inside⟩ := fine
      constructor
      · unfold isSafeSelectionPattern
        rw [if_neg, whole]
        · unfold isInternalArchivePath at external
          cases pieces : splitPath path with
          | nil => exact absurd pieces (splitPath_ne_nil path)
          | cons first rest =>
              rw [pieces] at external inside
              have plain := literal.plain
              rw [pieces] at plain
              simp only [Bool.or_eq_false_iff, beq_eq_false_iff_ne,
                List.any_eq_false, beq_iff_eq] at external
              simp only [ne_eq, nonempty, not_false_eq_true, decide_true,
                Bool.true_and, external.1.1, Bool.not_false,
                List.all_eq_true, Bool.not_eq_true']
              intro component member
              have cached : component ≠ ".cache" := by
                rcases List.mem_cons.mp member with rfl | later
                · exact external.1.2
                · exact external.2 component later
              have parent : component ≠ ".." := by
                rintro rfl
                rw [List.contains_eq_mem, decide_eq_false_iff_not] at inside
                exact inside member
              simp [isUnsafeComponent, plain component member, cached, parent]
        · simp only [not_or, Bool.not_eq_true]
          exact ⟨nonempty, literal.unmarked, relative, noBackslash, printable⟩
      · unfold isGlobPattern
        rw [concrete, Bool.false_or, List.any_eq_false]
        intro character member
        have ordinary := literal.characters character member
        simp [ordinary]

theorem selectable_iff
    {path : String}
    (valid : validateRelativeFilePath path = .ok ()) :
    Selectable path ↔ Literal path := by
  have single : orderedPaths [path] = [path] := by
    simp [orderedPaths, sortPaths]
  constructor
  · rintro ⟨selection, made, required⟩
    obtain ⟨safe, included, _⟩ := fromPaths_eq_some made
    unfold FileSelection.requiredPaths at required
    rw [included, single] at required
    apply literal_of_selectable (safe path List.mem_cons_self)
    cases glob : isGlobPattern path with
    | false => rfl
    | true => simp [glob] at required
  · intro literal
    obtain ⟨safe, concrete⟩ := safe_of_literal valid literal
    obtain ⟨selection, made⟩ := @fromPaths_isSome [path]
      (by simpa using safe)
    obtain ⟨_, included, _⟩ := fromPaths_eq_some made
    refine ⟨selection, made, ?_⟩
    unfold FileSelection.requiredPaths
    rw [included, single]
    simp [concrete]

/-- A reconciliation that a path did not end, and that asks for the missing
paths by their names. -/
def AsksByName (outcome : Except PullThroughError Reconciliation) : Prop :=
  outcome ≠ .error .unsafePath ∧
    ∀ narrowed, outcome = .ok (.missing narrowed) →
      narrowed.requiredPaths = narrowed.included

/-- Paths that can be acquired as these paths: one by one, and when a
selection is reconciled against a record or an inventory of them. -/
structure Acquirable (paths : List String) : Prop where
  alone : ∀ path ∈ paths, Selectable path
  recorded : ∀ commit selection archived,
    AsksByName (concludeFrom commit (coveredByRecord selection paths) archived)
  listed : ∀ commit archived, AsksByName (concludeFrom commit paths archived)

theorem asksByName_of_literal
    {covered : List String}
    (valid : ∀ path ∈ covered, validateRelativeFilePath path = .ok ())
    (literal : ∀ path ∈ covered, Literal path)
    (commit : String)
    (archived : List String) :
    AsksByName (concludeFrom commit covered archived) := by
  unfold concludeFrom
  dsimp only
  split
  · constructor
    · simp
    · intro narrowed same
      cases same
  have member : ∀ path ∈ covered.filter (fun path => path ∉ archived),
      path ∈ covered := fun path missing => (List.mem_filter.mp missing).1
  obtain ⟨selection, made⟩ := @fromPaths_isSome
    (covered.filter fun path => path ∉ archived)
    fun path missing => (safe_of_literal (valid path (member path missing))
      (literal path (member path missing))).1
  rw [made]
  constructor
  · simp
  · intro narrowed same
    cases same
    obtain ⟨_, included, _⟩ := fromPaths_eq_some made
    unfold FileSelection.requiredPaths
    rw [List.filter_eq_self]
    intro path present
    rw [included, mem_orderedPaths] at present
    have concrete := (safe_of_literal (valid path (member path present))
      (literal path (member path present))).2
    rw [concrete]
    rfl

theorem mem_of_coveredByRecord
    {selection : FileSelection}
    {recorded : List String}
    {path : String}
    (covered : path ∈ coveredByRecord selection recorded) :
    path ∈ recorded := by
  unfold coveredByRecord at covered
  split at covered
  · exact (mem_orderedPaths _ _).mp covered
  · simpa using (List.mem_filter.mp covered).2

/-- Accepted paths can be acquired as these paths exactly when none of them
means something else as a pattern. -/
theorem acquirable_iff
    {paths : List String}
    (valid : ∀ path ∈ paths, validateRelativeFilePath path = .ok ()) :
    Acquirable paths ↔ ∀ path ∈ paths, Literal path := by
  constructor
  · intro acquirable path member
    exact (selectable_iff (valid path member)).mp
      (acquirable.alone path member)
  · intro literal
    refine ⟨?_, ?_, ?_⟩
    · intro path member
      exact (selectable_iff (valid path member)).mpr (literal path member)
    · intro commit selection archived
      exact asksByName_of_literal
        (fun path covered => valid path (mem_of_coveredByRecord covered))
        (fun path covered => literal path (mem_of_coveredByRecord covered))
        commit archived
    · intro commit archived
      exact asksByName_of_literal valid literal commit archived

theorem acquirable_iff_sample :
    Acquirable ["config.json", "onnx/model.onnx"] := by
  refine (acquirable_iff ?_).mpr ?_
  · decide
  · intro path member
    rcases List.mem_pair.mp member with rfl | rfl
    · decide
    · decide

/-- Accepted paths with a bracket, a backslash, a mark or an empty component
cannot be asked for by their names. -/
theorem accepted_but_not_selectable :
    (∀ path ∈ ["shard[1].bin", "a\\b", "!important.md", "a//b"],
      validateRelativeFilePath path = .ok ()) ∧
    ∀ path ∈ ["shard[1].bin", "a\\b", "!important.md", "a//b"],
      ¬Selectable path := by
  constructor
  · decide +kernel
  · intro path member
    rintro ⟨selection, made, required⟩
    simp only [List.mem_cons, List.not_mem_nil, or_false] at member
    rcases member with rfl | rfl | rfl | rfl
    · cases made
      exact absurd required (by decide +kernel)
    · cases made
    · cases made
    · cases made

/-! ## The two routes -/

section routes

variable
  {outside : Outside}
  {repository : Repository}
  {site : Site}
  {commit : String}
  {selection : FileSelection}
  {covered recorded archived : List String}

/-- A look at the archive that succeeds. -/
theorem settles_reported
    {α : Type}
    {program : Program interface (Except ArchiveError α)}
    {value : α}
    (settled : Settles outside.Effect program site (.ok value) site) :
    Settles outside.Effect (reporting .ofArchive program).run site
      (.ok value) site := by
  intro answer later
  change Returns _ _ _ _ _ ↔ _
  rw [returns_reporting]
  constructor
  · rintro ⟨outcome, rfl, run⟩
    obtain ⟨rfl, rfl⟩ := (settled _ _).mp run
    exact ⟨rfl, rfl⟩
  · rintro ⟨rfl, rfl⟩
    exact ⟨_, rfl, (settled _ _).mpr ⟨rfl, rfl⟩⟩

theorem settles_archivedPaths
    (read : site.archive.manifestPaths repository commit = .ok archived) :
    Settles outside.Effect (archivedPaths repository commit).run site
      (.ok archived) site := by
  apply settles_reported
  rw [← read]
  exact settles_perform fun _ _ => Iff.rfl

theorem settles_recordRoute
    (pinned : isHfCommit commit = true)
    (excluded : selection.excluded = [])
    (concrete : ∀ pattern ∈ selection.included,
      isGlobPattern pattern = false)
    (record :
      site.archive.upstreamFiles repository commit = .ok (some recorded))
    (read : site.archive.manifestPaths repository commit = .ok archived) :
    Settles outside.Effect
      (reconcileFromRecord repository commit commit selection).run site
      ((concludeFrom commit (coveredByRecord selection recorded)
        archived).map some) site := by
  have answers : answersFromRecord commit commit selection = true := by
    have required : selection.requiredPaths = selection.included := by
      unfold FileSelection.requiredPaths
      rw [List.filter_eq_self]
      intro pattern member
      rw [concrete pattern member]
      rfl
    simp [answersFromRecord, pinned, excluded, required]
  have looks : Settles outside.Effect
      (reporting .ofArchive
        (perform (.upstreamFiles repository commit))).run site
      (.ok (some recorded)) site := by
    apply settles_reported
    rw [← record]
    exact settles_perform fun _ _ => Iff.rfl
  intro answer later
  change Returns _ _ _ _ _ ↔ _
  unfold reconcileFromRecord
  rw [if_pos answers, returns_bind_of looks]
  dsimp only
  rw [returns_bind_of (settles_archivedPaths read)]
  exact returns_check

theorem settles_inventoryRoute
    (complete : site.archive.Complete repository commit)
    (read : site.archive.manifestPaths repository commit = .ok archived) :
    Settles outside.Effect
      (reconcileInventory repository (some ⟨commit, covered⟩)).run site
      (concludeFrom commit covered archived) site := by
  have published : Settles outside.Effect
      (revisionIsPublished repository commit) site true site := by
    have settled : Settles outside.Effect _ site _ site :=
      settles_revisionIsPublished repository commit
    rwa [decide_eq_true complete] at settled
  intro answer later
  change Returns _ _ _ _ _ ↔ _
  unfold reconcileInventory
  dsimp only
  rw [returns_always_of published]
  dsimp only
  rw [returns_bind_of (settles_archivedPaths read)]
  exact returns_check

end routes

/-! ## What the routes conclude -/

theorem fromPaths_congr
    {left right : List String}
    (same : ∀ path, path ∈ left ↔ path ∈ right) :
    FileSelection.fromPaths left = FileSelection.fromPaths right := by
  by_cases safe : ∀ path ∈ left, isSafeSelectionPattern path = true
  · obtain ⟨selection, made⟩ := fromPaths_isSome safe
    obtain ⟨other, madeToo⟩ := @fromPaths_isSome right
      fun path member => safe path ((same path).mpr member)
    obtain ⟨_, included, excluded⟩ := fromPaths_eq_some made
    obtain ⟨_, includedToo, excludedToo⟩ := fromPaths_eq_some madeToo
    rw [made, madeToo]
    congr 1
    apply FileSelection.ext
    · rw [included, includedToo, orderedPaths_eq_iff]
      exact same
    · rw [excluded, excludedToo]
  · have refused : ∀ paths : List String,
        ¬(∀ path ∈ paths, isSafeSelectionPattern path = true) →
        FileSelection.fromPaths paths = none := by
      intro paths offending
      cases made : FileSelection.fromPaths paths with
      | none => rfl
      | some selection => exact absurd (fromPaths_eq_some made).1 offending
    rw [refused left safe, refused right]
    intro others
    exact safe fun path member => others path ((same path).mp member)

/-- The set of the missing paths decides. -/
theorem concludeFrom_congr
    {left right archived : List String}
    (same : ∀ path, path ∉ archived → (path ∈ left ↔ path ∈ right))
    (commit : String) :
    concludeFrom commit left archived =
      concludeFrom commit right archived := by
  have missing : ∀ path,
      path ∈ left.filter (fun path => path ∉ archived) ↔
        path ∈ right.filter (fun path => path ∉ archived) := by
    intro path
    simp only [List.mem_filter, decide_eq_true_eq]
    exact and_congr_left (same path)
  have empty : left.filter (fun path => path ∉ archived) = [] ↔
      right.filter (fun path => path ∉ archived) = [] := by
    rw [List.eq_nil_iff_forall_not_mem, List.eq_nil_iff_forall_not_mem]
    exact forall_congr' fun path => not_congr (missing path)
  unfold concludeFrom
  dsimp only
  rw [fromPaths_congr missing]
  by_cases nothing : right.filter (fun path => path ∉ archived) = []
  · rw [if_pos (empty.mpr nothing), if_pos nothing]
  · rw [if_neg (fun none => nothing (empty.mp none)), if_neg nothing]

theorem concludeFrom_isOk
    {covered archived : List String}
    {commit : String} :
    (∃ reconciliation, concludeFrom commit covered archived =
        .ok reconciliation) ↔
      ∀ path ∈ covered, path ∉ archived →
        isSafeSelectionPattern path = true := by
  have member : ∀ path,
      path ∈ covered.filter (fun path => path ∉ archived) ↔
        path ∈ covered ∧ path ∉ archived := by simp
  unfold concludeFrom
  dsimp only
  split
  · next nothing =>
      refine iff_of_true ⟨_, rfl⟩ ?_
      intro path covers absent
      have present := (member path).mpr ⟨covers, absent⟩
      rw [nothing] at present
      cases present
  · cases made : FileSelection.fromPaths
        (covered.filter fun path => path ∉ archived) with
    | none =>
        refine iff_of_false (by simp) ?_
        intro safe
        obtain ⟨_, some⟩ := @fromPaths_isSome
          (covered.filter fun path => path ∉ archived)
          fun path present => safe path ((member path).mp present).1
            ((member path).mp present).2
        rw [made] at some
        cases some
    | some narrowed =>
        refine iff_of_true ⟨_, rfl⟩ ?_
        intro path covers absent
        exact (fromPaths_eq_some made).1 path
          ((member path).mpr ⟨covers, absent⟩)

/-- The record answers, and the inventory of what upstream lists gives the
same answer. -/
def AnswersAlike (outside : Outside) (repository : Repository) (site : Site)
    (commit : String) (selection : FileSelection) (siblings : List String) :
    Prop :=
  ∃ reconciliation inventory,
    Settles outside.Effect
        (reconcileFromRecord repository commit commit selection).run site
        (.ok (some reconciliation)) site ∧
      Fetcher.inventory commit siblings
        (inventoryRequest repository commit selection) = some inventory ∧
      Settles outside.Effect
        (reconcileInventory repository (some inventory)).run site
        (.ok reconciliation) site

/-- What both routes take alike: missing paths that can be named when
everything is asked for, and otherwise no missing path that is an included one
but for its separators. -/
def Comparable (selection : FileSelection) (recorded archived : List String) :
    Prop :=
  (selection.included = [] → ∀ path ∈ recorded, path ∉ archived →
    isSafeSelectionPattern path = true) ∧
  (selection.included ≠ [] → ∀ path ∈ recorded, '\\' ∈ path.toList →
    Fetcher.withSlashes path ∈ selection.included → path ∈ archived)

theorem backslash_of_safe
    {pattern : String}
    (safe : isSafeSelectionPattern pattern = true) :
    '\\' ∉ pattern.toList := by
  intro member
  unfold isSafeSelectionPattern at safe
  rw [if_pos] at safe
  · cases safe
  · refine Or.inr (Or.inr (Or.inr (Or.inl ?_)))
    rw [List.contains_eq_mem]
    exact decide_eq_true member

/-- Which of the listed paths the helper finds covered. -/
theorem selected_iff
    {selection : FileSelection}
    (concrete : ∀ pattern ∈ selection.included,
      isGlobPattern pattern = false)
    (path : String) :
    Fetcher.selected path selection.included [] = true ↔
      selection.included = [] ∨
        Fetcher.withSlashes path ∈ selection.included := by
  by_cases nothing : selection.included = []
  · rw [nothing]
    simp [Fetcher.selected_all]
  · rw [or_iff_right nothing]
    apply Fetcher.selected_of_plain nothing
    · intro pattern member character present
      have literal := literal_of_selectable
        (selection.includedSafe pattern member) (concrete pattern member)
      obtain ⟨backslash, star, mark, opened, _⟩ :=
        literal.characters character present
      exact ⟨star, mark, opened, backslash⟩
    · intro pattern member slash
      have glob := concrete pattern member
      unfold isGlobPattern endsWithSlash at glob
      rw [slash] at glob
      simp at glob

theorem mem_coveredByRecord
    {selection : FileSelection}
    {recorded : List String}
    (excluded : selection.excluded = [])
    (path : String) :
    path ∈ coveredByRecord selection recorded ↔
      path ∈ recorded ∧
        (selection.included = [] ∨ path ∈ selection.included) := by
  unfold coveredByRecord
  split
  · next all =>
      have nothing : selection.included = [] := by
        simpa [FileSelection.isUnrestricted, excluded] using all
      simp [nothing]
  · next some =>
      have something : selection.included ≠ [] := by
        simpa [FileSelection.isUnrestricted, excluded] using some
      simp [something, and_comm]

/-- The covered paths that are missing are the same on both routes. -/
theorem covered_iff
    {selection : FileSelection}
    {recorded archived : List String}
    (excluded : selection.excluded = [])
    (comparable : Comparable selection recorded archived)
    {path : String}
    (absent : path ∉ archived) :
    path ∈ coveredByRecord selection recorded ↔
      path ∈ recorded ∧ (selection.included = [] ∨
        Fetcher.withSlashes path ∈ selection.included) := by
  rw [mem_coveredByRecord excluded]
  apply and_congr_right
  intro member
  by_cases nothing : selection.included = []
  · simp [nothing]
  · rw [or_iff_right nothing, or_iff_right nothing]
    constructor
    · intro included
      have plain := backslash_of_safe (selection.includedSafe path included)
      rwa [Fetcher.withSlashes_of_plain plain]
    · intro included
      by_cases backslash : '\\' ∈ path.toList
      · exact absurd (comparable.2 nothing path member backslash included)
          absent
      · rwa [Fetcher.withSlashes_of_plain backslash] at included

/-- Answering from the record equals asking upstream exactly when the missing
paths can be named and no listed path turns into another one when its
separators are normalized. -/
theorem record_answers_like_inventory
    {outside : Outside}
    {repository : Repository}
    {site : Site}
    {commit : String}
    {selection : FileSelection}
    {siblings listed recorded archived : List String}
    (pinned : isHfCommit commit = true)
    (complete : site.archive.Complete repository commit)
    (read : site.archive.manifestPaths repository commit = .ok archived)
    (record :
      site.archive.upstreamFiles repository commit = .ok (some recorded))
    (upstream : Fetcher.repositoryFileMetadata siblings = some listed)
    (same : ∀ path, path ∈ recorded ↔ path ∈ listed)
    (excluded : selection.excluded = [])
    (concrete : ∀ pattern ∈ selection.included,
      isGlobPattern pattern = false) :
    AnswersAlike outside repository site commit selection siblings ↔
      Comparable selection recorded archived := by
  have fromRecord : Settles outside.Effect _ site _ site :=
    settles_recordRoute pinned excluded concrete record read
  have helper : Fetcher.inventory commit siblings
      (inventoryRequest repository commit selection) = some ⟨commit,
        listed.filter fun path =>
          Fetcher.selected path selection.included []⟩ := by
    unfold Fetcher.inventory Fetcher.expectedFiles inventoryRequest
    rw [upstream, excluded]
    rfl
  have asked : ∀ covered, Settles outside.Effect
      (reconcileInventory repository (some ⟨commit, covered⟩)).run site
      (concludeFrom commit covered archived) site :=
    fun covered => settles_inventoryRoute complete read
  have covers : ∀ path,
      path ∈ listed.filter (fun path =>
          Fetcher.selected path selection.included []) ↔
        path ∈ recorded ∧ (selection.included = [] ∨
          Fetcher.withSlashes path ∈ selection.included) := by
    intro path
    rw [List.mem_filter, selected_iff concrete, same]
  constructor
  · rintro ⟨reconciliation, inventory, first, made, second⟩
    rw [helper] at made
    cases made
    -- Both conclusions are answers, so every missing path can be named.
    have concluded := (second _ _).mp ((asked _ _ _).mpr ⟨rfl, rfl⟩)
    have safe := concludeFrom_isOk.mp ⟨_, concluded.1⟩
    constructor
    · intro nothing path member absent
      exact safe path ((covers path).mpr ⟨member, Or.inl nothing⟩) absent
    · intro something path member backslash included
      by_contra absent
      exact backslash_of_safe (safe path
        ((covers path).mpr ⟨member, Or.inr included⟩) absent) backslash
  · intro comparable
    have alike : concludeFrom commit (coveredByRecord selection recorded)
          archived =
        concludeFrom commit (listed.filter fun path =>
          Fetcher.selected path selection.included []) archived := by
      apply concludeFrom_congr
      intro path absent
      rw [covers, covered_iff excluded comparable absent]
    have answered : ∃ reconciliation,
        concludeFrom commit (coveredByRecord selection recorded) archived =
          .ok reconciliation := by
      apply concludeFrom_isOk.mpr
      intro path member absent
      obtain ⟨present, nothing | included⟩ :=
        (mem_coveredByRecord excluded path).mp member
      · exact comparable.1 nothing path present absent
      · exact selection.includedSafe path included
    obtain ⟨reconciliation, concluded⟩ := answered
    rw [concluded] at fromRecord
    have second := asked (listed.filter fun path =>
      Fetcher.selected path selection.included [])
    rw [← alike, concluded] at second
    exact ⟨reconciliation, _, fromRecord, helper, second⟩

/-- One archived file, and a record of these upstream files. -/
def recordedSite (files : List String) : Site :=
  Sample.site ((Sample.archive Sample.older ["a"]).recordUpstreamFiles
    Sample.repository Sample.older files).2

/-- The selection of these paths. -/
def selectionOf (paths : List String) : FileSelection :=
  (FileSelection.fromPaths paths).getD .all

theorem record_answers_like_inventory_sample :
    AnswersAlike (Sample.outside (Sample.transfer Sample.newer []))
      Sample.repository (recordedSite ["a", "b.bin"]) Sample.older
      (selectionOf ["b.bin", "c.bin"]) ["b.bin", "a"] := by
  have read : (recordedSite ["a", "b.bin"]).archive.manifestPaths
      Sample.repository Sample.older = .ok ["a"] := by decide +kernel
  have record : (recordedSite ["a", "b.bin"]).archive.upstreamFiles
      Sample.repository Sample.older = .ok (some ["a", "b.bin"]) := by
    decide +kernel
  have upstream : Fetcher.repositoryFileMetadata ["b.bin", "a"] =
      some ["a", "b.bin"] := by decide +kernel
  refine (record_answers_like_inventory (by decide) (by decide +kernel) read
    record upstream (by simp) (by decide +kernel)
    (by decide +kernel)).mpr ⟨?_, ?_⟩
  · decide +kernel
  · decide +kernel

/-- Upstream has a file with a backslash in its name and the path with a slash
in its place is asked for: the record finds the path nowhere and is satisfied,
and the helper finds the file, which cannot be named. -/
theorem record_answers_differently :
    isHfCommit Sample.older = true ∧
      (recordedSite ["a", "sub\\b.bin"]).archive.Complete Sample.repository
        Sample.older ∧
      (recordedSite ["a", "sub\\b.bin"]).archive.upstreamFiles
          Sample.repository Sample.older = .ok (some ["a", "sub\\b.bin"]) ∧
      Fetcher.repositoryFileMetadata ["a", "sub\\b.bin"] =
        some ["a", "sub\\b.bin"] ∧
      (selectionOf ["sub/b.bin"]).requiredPaths = ["sub/b.bin"] ∧
      ¬AnswersAlike (Sample.outside (Sample.transfer Sample.newer []))
        Sample.repository (recordedSite ["a", "sub\\b.bin"]) Sample.older
        (selectionOf ["sub/b.bin"]) ["a", "sub\\b.bin"] := by
  have complete : (recordedSite ["a", "sub\\b.bin"]).archive.Complete
      Sample.repository Sample.older := by decide +kernel
  have read : (recordedSite ["a", "sub\\b.bin"]).archive.manifestPaths
      Sample.repository Sample.older = .ok ["a"] := by decide +kernel
  refine ⟨by decide, complete, by decide +kernel, by decide +kernel,
    by decide +kernel, ?_⟩
  rintro ⟨reconciliation, inventory, _, made, second⟩
  have helper : Fetcher.inventory Sample.older ["a", "sub\\b.bin"]
      (inventoryRequest Sample.repository Sample.older
        (selectionOf ["sub/b.bin"])) =
      some ⟨Sample.older, ["sub\\b.bin"]⟩ := by rfl
  rw [helper] at made
  cases made
  have concluded := ((second _ _).mp
    ((settles_inventoryRoute complete read _ _).mpr ⟨rfl, rfl⟩)).1
  have refused : concludeFrom Sample.older ["sub\\b.bin"] ["a"] =
      .error .unsafePath := by rfl
  rw [refused] at concluded
  cases concluded

end PullThrough
end ModelKeep
