import ModelKeep.Extension

/-!
# What an acquisition selects

A selection is two sorted lists of patterns that were checked one by one, so
the structure carries the fact that no pattern can leave the archive root or
make two selections look alike.  Patterns are matched by the upstream client;
here they are only told apart from concrete paths.
-/

namespace ModelKeep

/-- `value.ends_with('/')`. -/
def endsWithSlash (value : String) : Bool :=
  value.toList.getLast? = some '/'

/-- `value.strip_suffix('/')`, or the value itself. -/
def withoutFinalSlash (value : String) : String :=
  if endsWithSlash value then String.ofList value.toList.dropLast else value

/-- Names no component of a pattern may have. -/
def isUnsafeComponent (component : String) : Bool :=
  component = "" || component = "." || component = ".." ||
    component = ".cache"

/-- `is_safe_selection_pattern`. -/
def isSafeSelectionPattern (pattern : String) : Bool :=
  if pattern = "" ∨ startsWith pattern "!" ∨ startsWith pattern "/" ∨
      pattern.toList.contains '\\' ∨ pattern.toList.any isControl then
    false
  else
    match splitPath (withoutFinalSlash pattern) with
    | [] => false
    | first :: rest =>
        withoutFinalSlash pattern ≠ "" &&
          !startsWith first ".modelkeep-" &&
          (first :: rest).all fun component => !isUnsafeComponent component

/-- `is_glob_pattern`. -/
def isGlobPattern (value : String) : Bool :=
  endsWithSlash value ||
    value.toList.any fun character =>
      character = '*' || character = '?' || character = '[' ||
        character = ']'

/-- The paths of a `BTreeSet`. -/
def orderedPaths (paths : List String) : List String :=
  sortPaths paths.dedup

@[simp] theorem mem_orderedPaths (paths : List String) (path : String) :
    path ∈ orderedPaths paths ↔ path ∈ paths := by
  unfold orderedPaths sortPaths
  rw [List.mem_insertionSort, List.mem_dedup]

/-- `selection_identity`: excluded patterns are marked. -/
def selectionIdentity (included excluded : List String) : List String :=
  if excluded = [] then included
  else included ++ excluded.map fun pattern => "!" ++ pattern

/-- A checked include and exclude selection. -/
structure FileSelection where
  included : List String
  excluded : List String
  includedSafe : ∀ pattern ∈ included, isSafeSelectionPattern pattern = true
  excludedSafe : ∀ pattern ∈ excluded, isSafeSelectionPattern pattern = true

namespace FileSelection

@[ext] theorem ext
    {left right : FileSelection}
    (included : left.included = right.included)
    (excluded : left.excluded = right.excluded) :
    left = right := by
  cases left
  cases right
  cases included
  cases excluded
  rfl

instance : DecidableEq FileSelection := fun left right =>
  decidable_of_iff (left.included = right.included ∧
      left.excluded = right.excluded)
    ⟨fun same => ext same.1 same.2, fun same => same ▸ ⟨rfl, rfl⟩⟩

/-- The whole repository. -/
def all : FileSelection := ⟨[], [], by simp, by simp⟩

/-- `FileSelection::new`; the refusal does not name the pattern. -/
def new (included excluded : List String) : Option FileSelection :=
  if safe : (∀ pattern ∈ included, isSafeSelectionPattern pattern = true) ∧
      ∀ pattern ∈ excluded, isSafeSelectionPattern pattern = true then
    some {
      included := orderedPaths included
      excluded := orderedPaths excluded
      includedSafe := fun pattern member =>
        safe.1 pattern ((mem_orderedPaths _ _).mp member)
      excludedSafe := fun pattern member =>
        safe.2 pattern ((mem_orderedPaths _ _).mp member) }
  else
    none

/-- `FileSelection::from_paths`. -/
def fromPaths (paths : List String) : Option FileSelection := new paths []

/-- `is_unrestricted`. -/
def isUnrestricted (selection : FileSelection) : Bool :=
  selection.included = [] && selection.excluded = []

/-- `required_paths`: the entries that name one concrete path. -/
def requiredPaths (selection : FileSelection) : List String :=
  selection.included.filter fun pattern => !isGlobPattern pattern

/-- The identity staging is recorded under. -/
def identity (selection : FileSelection) : List String :=
  selectionIdentity selection.included selection.excluded

end FileSelection

/-- Acquisitions with one key share one flight. -/
structure FlightKey where
  repoType : RepositoryType
  repoId : String
  requestedRevision : String
  selection : String
  deriving DecidableEq

/-- The key of an acquisition; the identity is joined by line breaks. -/
def flightKey (repoType : RepositoryType) (repoId requestedRevision : String)
    (selection : FileSelection) : FlightKey :=
  ⟨repoType, repoId, requestedRevision,
    String.ofList (['\n'].intercalate
      (selection.identity.map String.toList))⟩

/-! ## Safe patterns -/

section safe

variable {pattern : String}

theorem safe_characters (safe : isSafeSelectionPattern pattern = true) :
    pattern ≠ "" ∧ startsWith pattern "!" = false ∧
      startsWith pattern "/" = false ∧
      pattern.toList.any isControl = false := by
  unfold isSafeSelectionPattern at safe
  split at safe
  · cases safe
  · next plain =>
      simp only [not_or, Bool.not_eq_true] at plain
      exact ⟨plain.1, plain.2.1, plain.2.2.1, plain.2.2.2.2⟩

theorem safe_components
    (safe : isSafeSelectionPattern pattern = true) :
    (∀ component ∈ splitPath (withoutFinalSlash pattern),
        isUnsafeComponent component = false) ∧
      ∀ first, (splitPath (withoutFinalSlash pattern)).head? = some first →
        startsWith first ".modelkeep-" = false := by
  unfold isSafeSelectionPattern at safe
  split at safe
  · cases safe
  · split at safe
    · cases safe
    · next first rest pieces =>
        simp only [Bool.and_eq_true, Bool.not_eq_true', List.all_eq_true]
          at safe
        rw [pieces]
        refine ⟨fun component member => safe.2 component member, ?_⟩
        intro other same
        cases same
        exact safe.1.2

/-- A pattern that names one path names it in its plain spelling. -/
theorem canonicalPath_of_safe
    (safe : isSafeSelectionPattern pattern = true)
    (concrete : endsWithSlash pattern = false) :
    CanonicalPath pattern := by
  obtain ⟨nonempty, _, rooted, printable⟩ := safe_characters safe
  obtain ⟨components, first⟩ := safe_components safe
  have whole : withoutFinalSlash pattern = pattern := by
    rw [withoutFinalSlash, concrete]
    rfl
  rw [whole] at components first
  have named : ∀ component ∈ splitPath pattern,
      component ≠ "" ∧ component ≠ "." ∧ component ≠ ".." ∧
        component ≠ ".cache" := by
    intro component member
    have fine := components component member
    simp only [isUnsafeComponent, Bool.or_eq_false_iff,
      decide_eq_false_iff_not] at fine
    exact ⟨fine.1.1.1, fine.1.1.2, fine.1.2, fine.2⟩
  refine ⟨?_, fun component member =>
    ⟨(named component member).1, (named component member).2.1⟩⟩
  have external : isInternalArchivePath pattern = false := by
    unfold isInternalArchivePath
    cases pieces : splitPath pattern with
    | nil => rfl
    | cons head rest =>
        rw [pieces] at named first
        simp only [Bool.or_eq_false_iff, List.any_eq_false, beq_iff_eq]
        refine ⟨⟨first head rfl, ?_⟩, ?_⟩
        · simpa using (named head (by simp)).2.2.2
        · intro component member
          exact (named component (by simp [member])).2.2.2
  unfold validateRelativeFilePath
  rw [if_neg]
  simp only [not_or, Bool.not_eq_true]
  refine ⟨nonempty, rooted, external, printable, ?_⟩
  rw [List.contains_eq_mem, decide_eq_false_iff_not]
  intro member
  exact (named ".." member).2.2.1 rfl

theorem newline_not_mem_of_safe
    (safe : isSafeSelectionPattern pattern = true) :
    '\n' ∉ pattern.toList := by
  intro member
  have printable := (safe_characters safe).2.2.2
  rw [List.any_eq_false] at printable
  exact printable '\n' member (by decide)

end safe

/-! ## Identities and keys -/

theorem startsWith_mark (pattern : String) :
    startsWith ("!" ++ pattern) "!" = true := by
  simp [startsWith]

theorem unmarked_of_safe
    {pattern : String}
    (safe : isSafeSelectionPattern pattern = true) :
    startsWith pattern "!" = false :=
  (safe_characters safe).2.1

/-- What of an identity was included. -/
theorem filter_identity (selection : FileSelection) :
    selection.identity.filter (fun entry => !startsWith entry "!") =
        selection.included ∧
      selection.identity.filter (fun entry => startsWith entry "!") =
        selection.excluded.map fun pattern => "!" ++ pattern := by
  have included : ∀ entry ∈ selection.included,
      startsWith entry "!" = false := fun entry member =>
    unmarked_of_safe (selection.includedSafe entry member)
  unfold FileSelection.identity selectionIdentity
  split
  · next nothing =>
      rw [nothing, List.map_nil]
      constructor
      · apply List.filter_eq_self.mpr
        intro entry member
        simp [included entry member]
      · apply List.filter_eq_nil_iff.mpr
        intro entry member
        simp [included entry member]
  · rw [List.filter_append, List.filter_append]
    constructor
    · rw [List.filter_eq_self.mpr, List.filter_eq_nil_iff.mpr,
        List.append_nil]
      · intro entry member
        obtain ⟨pattern, _, rfl⟩ := List.mem_map.mp member
        simp [startsWith_mark]
      · intro entry member
        simp [included entry member]
    · rw [List.filter_eq_nil_iff.mpr, List.filter_eq_self.mpr,
        List.nil_append]
      · intro entry member
        obtain ⟨pattern, _, rfl⟩ := List.mem_map.mp member
        exact startsWith_mark pattern
      · intro entry member
        simp [included entry member]

/-- A marked pattern cannot be taken for an included one. -/
theorem FileSelection.identity_injective :
    Function.Injective FileSelection.identity := by
  intro left right same
  have leftParts := filter_identity left
  have rightParts := filter_identity right
  rw [same] at leftParts
  have included := leftParts.1.symm.trans rightParts.1
  have marked := leftParts.2.symm.trans rightParts.2
  have markInjective : Function.Injective fun pattern : String =>
      "!" ++ pattern := by
    intro first second equal
    have characters := congrArg String.toList equal
    apply String.toList_inj.mp
    simpa using characters
  exact FileSelection.ext included
    (List.map_injective_iff.mpr markInjective marked)

/-- No entry of an identity is empty or breaks a line. -/
theorem identity_entries
    (selection : FileSelection)
    {entry : String}
    (member : entry ∈ selection.identity) :
    entry ≠ "" ∧ '\n' ∉ entry.toList := by
  have safe : ∀ pattern, isSafeSelectionPattern pattern = true →
      pattern ≠ "" ∧ '\n' ∉ pattern.toList := fun pattern safe =>
    ⟨(safe_characters safe).1, newline_not_mem_of_safe safe⟩
  have split : entry ∈ selection.included ∨
      entry ∈ selection.excluded.map fun pattern => "!" ++ pattern := by
    unfold FileSelection.identity selectionIdentity at member
    split at member
    · exact Or.inl member
    · exact List.mem_append.mp member
  rcases split with included | excluded
  · exact safe entry (selection.includedSafe entry included)
  · obtain ⟨pattern, inExcluded, rfl⟩ := List.mem_map.mp excluded
    have fine := safe pattern (selection.excludedSafe pattern inExcluded)
    refine ⟨?_, ?_⟩
    · intro empty
      have characters := congrArg String.toList empty
      simp at characters
    · simpa using fine.2

/-- Two identities with one joined text are the same. -/
theorem joined_injective
    {left right : List String}
    (leftEntries : ∀ entry ∈ left, entry ≠ "" ∧ '\n' ∉ entry.toList)
    (rightEntries : ∀ entry ∈ right, entry ≠ "" ∧ '\n' ∉ entry.toList)
    (same : ['\n'].intercalate (left.map String.toList) =
      ['\n'].intercalate (right.map String.toList)) :
    left = right := by
  have split : ∀ entries : List String, entries ≠ [] →
      (∀ entry ∈ entries, entry ≠ "" ∧ '\n' ∉ entry.toList) →
      (['\n'].intercalate (entries.map String.toList)).splitOn '\n' =
        entries.map String.toList := by
    intro entries nonempty separate
    apply List.splitOn_intercalate
    · intro characters member
      obtain ⟨entry, present, rfl⟩ := List.mem_map.mp member
      exact (separate entry present).2
    · simpa using nonempty
  -- Only the empty identity has the empty text.
  have blank : ∀ entries : List String,
      (∀ entry ∈ entries, entry ≠ "" ∧ '\n' ∉ entry.toList) →
      ['\n'].intercalate (entries.map String.toList) = [] →
      entries = [] := by
    intro entries separate empty
    cases entries with
    | nil => rfl
    | cons first rest =>
        have pieces := split (first :: rest) (by simp) separate
        rw [empty, List.splitOn_nil, List.map_cons, List.cons.injEq]
          at pieces
        exact absurd (String.toList_eq_nil_iff.mp pieces.1.symm)
          (separate first List.mem_cons_self).1
  by_cases leftEmpty : left = []
  · subst leftEmpty
    exact (blank right rightEntries same.symm).symm
  · by_cases rightEmpty : right = []
    · subst rightEmpty
      exact blank left leftEntries same
    · have pieces := (split left leftEmpty leftEntries).symm.trans
        ((congrArg (List.splitOn '\n') same).trans
          (split right rightEmpty rightEntries))
      exact List.map_injective_iff.mpr
        (fun _ _ equal => String.toList_inj.mp equal) pieces

/-- Acquisitions that share a flight ask for the same. -/
theorem flightKey_eq
    {repoType otherType : RepositoryType}
    {repoId otherId revision otherRevision : String}
    {selection otherSelection : FileSelection}
    (same : flightKey repoType repoId revision selection =
      flightKey otherType otherId otherRevision otherSelection) :
    repoType = otherType ∧ repoId = otherId ∧ revision = otherRevision ∧
      selection = otherSelection := by
  unfold flightKey at same
  rw [FlightKey.mk.injEq] at same
  obtain ⟨types, ids, revisions, texts⟩ := same
  refine ⟨types, ids, revisions, ?_⟩
  apply FileSelection.identity_injective
  apply joined_injective (fun _ => identity_entries selection)
    (fun _ => identity_entries otherSelection)
  simpa using congrArg String.toList texts

end ModelKeep
