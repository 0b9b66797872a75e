import ModelKeep.Archive
import ModelKeep.Selection
import ModelKeep.Staging.Scan

/-!
# Selections as identities

Staging is recorded under the identity of a selection and flights are shared
under its joined text.  Both tell selections apart exactly by the sets of
patterns they were made from, and an identity passes the checks that staging
makes on the files it records.
-/

namespace ModelKeep

/-! ## Sets of patterns -/

/-- A `BTreeSet` is told by its members. -/
theorem orderedPaths_eq_iff (left right : List String) :
    orderedPaths left = orderedPaths right ↔
      ∀ path, path ∈ left ↔ path ∈ right := by
  constructor
  · intro same path
    rw [← mem_orderedPaths left, same, mem_orderedPaths]
  · intro same
    unfold orderedPaths sortPaths
    refine List.Perm.eq_of_pairwise' (List.pairwise_insertionSort _ _)
      (List.pairwise_insertionSort _ _) ?_
    refine (List.perm_insertionSort _ _).trans (List.Perm.trans ?_
      (List.perm_insertionSort _ _).symm)
    rw [List.perm_ext_iff_of_nodup left.nodup_dedup right.nodup_dedup]
    intro path
    rw [List.mem_dedup, List.mem_dedup]
    exact same path

theorem orderedPaths_eq_nil (paths : List String) :
    orderedPaths paths = [] ↔ paths = [] := by
  rw [List.eq_nil_iff_forall_not_mem, List.eq_nil_iff_forall_not_mem]
  simp only [mem_orderedPaths]

namespace FileSelection

theorem new_eq_some
    {included excluded : List String}
    {selection : FileSelection}
    (made : new included excluded = some selection) :
    selection.included = orderedPaths included ∧
      selection.excluded = orderedPaths excluded := by
  unfold new at made
  split at made
  · cases made
    exact ⟨rfl, rfl⟩
  · cases made

theorem identity_eq_iff
    {left right : FileSelection} :
    left.identity = right.identity ↔
      left.included = right.included ∧ left.excluded = right.excluded := by
  constructor
  · intro same
    cases identity_injective same
    exact ⟨rfl, rfl⟩
  · rintro ⟨included, excluded⟩
    unfold identity
    rw [included, excluded]

theorem identity_eq_nil (selection : FileSelection) :
    selection.identity = [] ↔ selection.isUnrestricted = true := by
  unfold identity selectionIdentity isUnrestricted
  by_cases nothing : selection.excluded = []
  · simp [nothing]
  · simp [nothing]

end FileSelection

/-! ## Identities as recorded files -/

theorem validateRelativeFilePath_eq_ok
    {value : String}
    (nonempty : value ≠ "")
    (relative : startsWith value "/" = false)
    (printable : value.toList.any isControl = false)
    (components : ∀ component ∈ splitPath value,
      component ≠ ".." ∧ component ≠ ".cache")
    (external : ∀ first, (splitPath value).head? = some first →
      startsWith first ".modelkeep-" = false) :
    validateRelativeFilePath value = .ok () := by
  have notInternal : isInternalArchivePath value = false := by
    unfold isInternalArchivePath
    cases pieces : splitPath value with
    | nil => rfl
    | cons first rest =>
        rw [pieces] at components external
        simp only [Bool.or_eq_false_iff, List.any_eq_false, beq_iff_eq]
        refine ⟨⟨external first rfl, ?_⟩, ?_⟩
        · simpa using (components first List.mem_cons_self).2
        · intro component member
          exact (components component (List.mem_cons_of_mem _ member)).2
  unfold validateRelativeFilePath
  rw [if_neg]
  simp only [not_or, Bool.not_eq_true]
  refine ⟨nonempty, relative, notInternal, printable, ?_⟩
  rw [List.contains_eq_mem, decide_eq_false_iff_not]
  intro member
  exact (components ".." member).1 rfl

/-- The directory form of a pattern has one more component, and it is
empty. -/
theorem splitPath_of_endsWithSlash
    {pattern : String}
    (slash : endsWithSlash pattern = true) :
    splitPath pattern = splitPath (withoutFinalSlash pattern) ++ [""] := by
  have last : pattern.toList.getLast? = some '/' := by
    simpa [endsWithSlash] using slash
  have whole : pattern.toList =
      (withoutFinalSlash pattern).toList ++ ['/'] := by
    rw [withoutFinalSlash, if_pos slash, String.toList_ofList]
    exact (List.dropLast_append_getLast? '/' last).symm
  unfold splitPath
  rw [whole, List.splitOn_append_cons_self, List.splitOn_nil]
  simp

theorem components_of_safe
    {pattern : String}
    (safe : isSafeSelectionPattern pattern = true) :
    (∀ component ∈ splitPath pattern,
        component ≠ ".." ∧ component ≠ ".cache") ∧
      ∀ first, (splitPath pattern).head? = some first →
        startsWith first ".modelkeep-" = false := by
  obtain ⟨components, first⟩ := safe_components safe
  have named : ∀ component ∈ splitPath (withoutFinalSlash pattern),
      component ≠ ".." ∧ component ≠ ".cache" := by
    intro component member
    have fine := components component member
    simp only [isUnsafeComponent, Bool.or_eq_false_iff,
      decide_eq_false_iff_not] at fine
    exact ⟨fine.1.2, fine.2⟩
  by_cases slash : endsWithSlash pattern = true
  · rw [splitPath_of_endsWithSlash slash]
    constructor
    · intro component member
      rcases List.mem_append.mp member with body | final
      · exact named component body
      · rw [List.mem_singleton] at final
        subst final
        decide
    · intro head same
      apply first head
      rwa [List.head?_append_of_ne_nil _ (splitPath_ne_nil _)] at same
  · have whole : withoutFinalSlash pattern = pattern :=
      if_neg slash
    rw [whole] at named first
    exact ⟨named, first⟩

theorem valid_of_safe
    {pattern : String}
    (safe : isSafeSelectionPattern pattern = true) :
    validateRelativeFilePath pattern = .ok () := by
  obtain ⟨nonempty, _, relative, printable⟩ := safe_characters safe
  obtain ⟨components, external⟩ := components_of_safe safe
  exact validateRelativeFilePath_eq_ok nonempty relative printable components
    external

/-- The mark becomes part of the first component. -/
theorem splitPath_marked (pattern : String) :
    splitPath ("!" ++ pattern) =
      (splitPath pattern).modifyHead ("!" ++ ·) := by
  have marked : ("!" ++ pattern).toList = '!' :: pattern.toList := by simp
  unfold splitPath
  rw [marked, List.splitOn_cons_eq_if_modifyHead, if_neg (by decide)]
  cases pattern.toList.splitOn '/' with
  | nil => rfl
  | cons first rest =>
      rw [List.modifyHead_cons, List.map_cons, List.map_cons,
        List.modifyHead_cons, List.cons.injEq]
      refine ⟨?_, rfl⟩
      apply String.toList_inj.mp
      simp

theorem marked_ne
    {pattern name : String}
    (unmarked : startsWith name "!" = false) :
    "!" ++ pattern ≠ name := by
  rintro rfl
  rw [startsWith_mark] at unmarked
  cases unmarked

theorem valid_marked
    {pattern : String}
    (safe : isSafeSelectionPattern pattern = true) :
    validateRelativeFilePath ("!" ++ pattern) = .ok () := by
  obtain ⟨_, _, _, printable⟩ := safe_characters safe
  obtain ⟨components, _⟩ := components_of_safe safe
  have pieces := splitPath_marked pattern
  cases body : splitPath pattern with
  | nil => exact absurd body (splitPath_ne_nil pattern)
  | cons first rest =>
      rw [body] at pieces components
      rw [List.modifyHead_cons] at pieces
      apply validateRelativeFilePath_eq_ok
      · exact marked_ne (by decide)
      · simp [startsWith, List.isPrefixOf]
      · have marked : ("!" ++ pattern).toList = '!' :: pattern.toList := by
          simp
        rw [marked, List.any_cons, printable]
        decide
      · intro component member
        rw [pieces] at member
        rcases List.mem_cons.mp member with rfl | later
        · exact ⟨marked_ne (by decide), marked_ne (by decide)⟩
        · exact components component (List.mem_cons_of_mem _ later)
      · intro head same
        rw [pieces] at same
        cases same
        simp [startsWith, List.isPrefixOf]

theorem valid_identity
    (selection : FileSelection)
    {entry : String}
    (member : entry ∈ selection.identity) :
    validateRelativeFilePath entry = .ok () := by
  unfold FileSelection.identity selectionIdentity at member
  split at member
  · exact valid_of_safe (selection.includedSafe entry member)
  · rcases List.mem_append.mp member with included | marked
    · exact valid_of_safe (selection.includedSafe entry included)
    · obtain ⟨pattern, excluded, rfl⟩ := List.mem_map.mp marked
      exact valid_marked (selection.excludedSafe pattern excluded)

namespace Staging

open Concurrency Program

variable {before after : World}

/-- The request of an acquisition with a selection. -/
def selectionRequest (repository : Repository) (requestedRevision : String)
    (selection : FileSelection) : StagingRequest :=
  ⟨repository.repoType, repository.repoId, requestedRevision,
    selection.identity⟩

variable
  {repository : Repository}
  {requestedRevision : String}
  {selection : FileSelection}

theorem forM_identity :
    selection.identity.forM validateRelativeFilePath = .ok () := by
  have valid : ∀ entries : List String,
      (∀ entry ∈ entries, validateRelativeFilePath entry = .ok ()) →
      entries.forM validateRelativeFilePath = .ok () := by
    intro entries valid
    induction entries with
    | nil => rfl
    | cons entry rest inductionHypothesis =>
        obtain ⟨first, others⟩ := List.forall_mem_cons.mp valid
        change (validateRelativeFilePath entry >>= fun _ =>
          rest.forM validateRelativeFilePath) = _
        rw [first]
        exact inductionHypothesis others
  exact valid _ fun _ => valid_identity selection

/-- What is checked of a request besides its selection. -/
def validateTarget (repository : Repository) (requestedRevision : String) :
    Except ArchiveError Unit := do
  let _ ← validateRepoId repository.repoId
  validateComponent requestedRevision

theorem validateRequest_selection :
    validateRequest
        (selectionRequest repository requestedRevision selection) =
      validateTarget repository requestedRevision := by
  unfold validateRequest validateTarget selectionRequest
  cases validateRepoId repository.repoId with
  | error error => rfl
  | ok pair =>
      change (validateComponent requestedRevision >>= fun _ =>
        selection.identity.forM validateRelativeFilePath) =
          validateComponent requestedRevision
      rw [forM_identity]
      cases validateComponent requestedRevision <;> rfl

theorem checkMetadata_selection
    {metadata : FetchStagingMetadata}
    (target : validateTarget repository requestedRevision = .ok ())
    (version : metadata.version = 1)
    (repoId : metadata.repoId = repository.repoId)
    (revision : metadata.requestedRevision = requestedRevision)
    (files : metadata.files = selection.identity)
    (commit : metadata.resolvedCommit.all isHfCommit = true) :
    checkMetadata metadata = .ok metadata := by
  obtain ⟨pair, repo, component⟩ := bind_eq_ok.mp target
  unfold checkMetadata
  rw [if_neg, repoId, repo, revision, files, forM_identity]
  · change (validateComponent requestedRevision >>= fun _ => _) = _
    rw [component]
    rfl
  · rintro (other | malformed)
    · exact other version
    · cases resolved : metadata.resolvedCommit with
      | none =>
          rw [resolved] at malformed
          cases malformed
      | some value =>
          rw [resolved] at malformed commit
          simp_all

/-- A lease that cannot be read is no invalid path. -/
theorem refuse_of_weigh
    {world : World}
    {name : EntryName}
    {now : Nat}
    {alive expired : Verdict}
    {error : FetchStagingError}
    (weighed : world.weigh name now alive expired = .refuse error) :
    (∃ kind, error = .archive (.io kind)) ∨
      (∃ message, error = .archive (.integrityMismatch message)) ∨
      alive = .refuse error ∨ expired = .refuse error := by
  unfold World.weigh at weighed
  split at weighed
  · next failure told =>
      split at weighed
      · cases weighed
      · cases weighed
        cases stands : world.area.entry name with
        | none =>
            rw [told_none stands] at told
            cases told
            exact Or.inl ⟨_, rfl⟩
        | some found =>
            rw [told_some stands] at told
            unfold Lease.expiry at told
            split at told
            · cases told
              exact Or.inl ⟨_, rfl⟩
            · cases told
              exact Or.inl ⟨_, rfl⟩
            · cases told
              exact Or.inr (Or.inl ⟨_, rfl⟩)
            · cases told
  · split at weighed
    · exact Or.inr (Or.inr (Or.inl weighed))
    · exact Or.inr (Or.inr (Or.inr weighed))

theorem refuse_ne_invalidPath
    {request : StagingRequest}
    {now : Nat}
    {name : EntryName}
    {isDirectory : Bool}
    {path : String} :
    before.judgeAbandoned request now (.ok (name, isDirectory)) ≠
        .refuse (.archive (.invalidPath path)) ∧
      before.judgeActive request now (.ok (name, isDirectory)) ≠
        .refuse (.archive (.invalidPath path)) := by
  constructor
  · intro judged
    unfold World.judgeAbandoned at judged
    split at judged
    · next same => cases same
    · split at judged
      · cases judged
      · split at judged
        · rcases refuse_of_weigh judged with
            ⟨_, same⟩ | ⟨_, same⟩ | same | same
          · cases same
          · cases same
          · cases same
          · cases same
        · cases judged
    · cases judged
  · intro judged
    unfold World.judgeActive at judged
    split at judged
    · next same => cases same
    · split at judged
      · cases judged
      · split at judged
        · rcases refuse_of_weigh judged with
            ⟨_, same⟩ | ⟨_, same⟩ | same | same
          · cases same
          · cases same
          · split at same
            · cases same
            · cases same
          · split at same
            · cases same
            · cases same
        · cases judged
    · cases judged

/-- A selection is never the reason to turn a request down. -/
theorem invalidPath_of_selection
    {path : String}
    (run : Returns Effect (acquireFetchStaging
      (selectionRequest repository requestedRevision selection)) before
      (.error (.archive (.invalidPath path))) after) :
    validateTarget repository requestedRevision =
      .error (.invalidPath path) := by
  generalize ended : (.error (.archive (.invalidPath path)) :
    Except FetchStagingError FetchStaging) = outcome at run
  cases returns_acquire run with
  | invalid invalid =>
      cases ended
      rwa [validateRequest_selection] at invalid
  | refused refuses =>
      cases ended
      rcases refuses with abandoned | active
      · exact absurd abandoned refuse_ne_invalidPath.1
      · exact absurd active refuse_ne_invalidPath.2
  | adopted => cases ended
  | created valid passes creates =>
      obtain ⟨_, _, _, rfl, _⟩ := returns_createFetchStaging creates
      cases ended

/-- What an acquisition records, a reader accepts. -/
theorem recorded_of_acquire
    {staging : FetchStaging}
    (run : Returns Effect (acquireFetchStaging
      (selectionRequest repository requestedRevision selection)) before
      (.ok staging) after) :
    ∃ metadata, after.identity staging.path = .ok metadata ∧
      metadata.files = selection.identity := by
  generalize ended : (.ok staging : Except FetchStagingError FetchStaging) =
    outcome at run
  cases returns_acquire run with
  | invalid => cases ended
  | refused => cases ended
  | adopted valid adoptable claims =>
      cases ended
      rw [validateRequest_selection] at valid
      obtain ⟨found, _, stands, recorded, _⟩ := adoptable.recorded
      obtain ⟨id, _, same, replaced⟩ := returns_claim stands recorded claims
      cases same
      refine ⟨_, identity_eq_ok.mpr ⟨_, replaced.entry_new, rfl, ?_⟩, rfl⟩
      have sameRevision := adoptable.sameRevision
      simp only [namesSameRevision, Bool.and_eq_true, decide_eq_true_eq]
        at sameRevision
      have read := adoptable.valid
      unfold checkMetadata at read
      split at read
      · cases read
      · next fine =>
          rw [not_or, not_not] at fine
          refine checkMetadata_selection valid fine.1 sameRevision.1.2
            sameRevision.2 rfl ?_
          obtain ⟨commit, resolved⟩ := Option.isSome_iff_exists.mp
            adoptable.commit
          have proper := fine.2
          rw [resolved] at proper ⊢
          simpa using proper
  | created valid passes creates =>
      rw [validateRequest_selection] at valid
      obtain ⟨id, inode, _, same, replaced⟩ :=
        returns_createFetchStaging creates
      subst same
      cases ended
      refine ⟨_, identity_eq_ok.mpr ⟨_, replaced.entry_new, rfl, ?_⟩, rfl⟩
      exact checkMetadata_selection valid rfl rfl rfl rfl rfl

/-- The identities and the flight keys of two selections agree exactly when
the selections were made from the same sets; only the unrestricted one has no
identity; and no identity is refused by staging, at once or when it is read
back. -/
theorem selection_identity_faithful
    {included excluded includedToo excludedToo : List String}
    {selection other : FileSelection}
    (made : FileSelection.new included excluded = some selection)
    (madeToo : FileSelection.new includedToo excludedToo = some other)
    (repository : Repository)
    (requestedRevision : String) :
    (selection.identity = other.identity ↔
        (∀ pattern, pattern ∈ included ↔ pattern ∈ includedToo) ∧
          ∀ pattern, pattern ∈ excluded ↔ pattern ∈ excludedToo) ∧
      (flightKey repository.repoType repository.repoId requestedRevision
            selection =
          flightKey repository.repoType repository.repoId requestedRevision
            other ↔
        (∀ pattern, pattern ∈ included ↔ pattern ∈ includedToo) ∧
          ∀ pattern, pattern ∈ excluded ↔ pattern ∈ excludedToo) ∧
      (selection.identity = [] ↔ included = [] ∧ excluded = []) ∧
      (∀ (before after : World) (path : String),
        Returns Effect (acquireFetchStaging
            (selectionRequest repository requestedRevision selection))
            before (.error (.archive (.invalidPath path))) after →
          validateTarget repository requestedRevision =
            .error (.invalidPath path)) ∧
      ∀ (before after : World) (staging : FetchStaging),
        Returns Effect (acquireFetchStaging
            (selectionRequest repository requestedRevision selection))
            before (.ok staging) after →
          ∃ metadata, metadata.files = selection.identity ∧
            Returns Effect
              (readFetchStagingMetadata staging.path) after
              (.ok metadata) after := by
  obtain ⟨first, second⟩ := FileSelection.new_eq_some made
  obtain ⟨firstToo, secondToo⟩ := FileSelection.new_eq_some madeToo
  have identities : selection.identity = other.identity ↔
      (∀ pattern, pattern ∈ included ↔ pattern ∈ includedToo) ∧
        ∀ pattern, pattern ∈ excluded ↔ pattern ∈ excludedToo := by
    rw [FileSelection.identity_eq_iff, first, second, firstToo, secondToo,
      orderedPaths_eq_iff, orderedPaths_eq_iff]
  refine ⟨identities, ?_, ?_, ?_, ?_⟩
  · rw [← identities]
    constructor
    · intro same
      rw [(flightKey_eq same).2.2.2]
    · intro same
      unfold flightKey
      rw [same]
  · rw [FileSelection.identity_eq_nil]
    unfold FileSelection.isUnrestricted
    rw [first, second]
    simp [orderedPaths_eq_nil]
  · intro before after path run
    exact invalidPath_of_selection run
  · intro before after staging run
    obtain ⟨metadata, read, files⟩ := recorded_of_acquire run
    refine ⟨metadata, files, ?_⟩
    exact (returns_readMetadata _ _ _).mpr ⟨read.symm, rfl⟩

/-- Two spellings of one selection, in another order and with a repetition. -/
theorem selection_identity_faithful_sample :
    ∃ selection other : FileSelection,
      selection.identity = other.identity ∧
      selection.identity = ["a[1].bin", "b/", "!*.md"] := by
  obtain ⟨selection, made⟩ : ∃ selection,
      FileSelection.new ["b/", "a[1].bin"] ["*.md"] = some selection :=
    ⟨_, rfl⟩
  obtain ⟨other, madeToo⟩ : ∃ other,
      FileSelection.new ["a[1].bin", "b/", "b/"] ["*.md"] = some other :=
    ⟨_, rfl⟩
  have faithful :=
    selection_identity_faithful made madeToo ⟨.model, "public/model"⟩ "main"
  refine ⟨selection, other, faithful.1.mpr (by simp; tauto), ?_⟩
  obtain ⟨included, excluded⟩ := FileSelection.new_eq_some made
  unfold FileSelection.identity
  rw [included, excluded]
  decide

end Staging
end ModelKeep
