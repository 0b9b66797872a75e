import Mathlib.Data.Prod.Lex
import ModelKeep.Http.Ranges
import ModelKeep.Jobs.Pages
import ModelKeep.Refs.Inventory

/-!
# Pages of the repositories

The route that lists the repositories page by page, and how its cursors are
written and read back.
-/

namespace ModelKeep

open Concurrency Program

structure PageQuery where
  limit : Option Nat
  cursor : Option String

structure RepositoryPage where
  items : List RepositorySummary
  nextCursor : Option String

/-- What the route answers. -/
inductive RepositoriesResponse
  | unauthorized
  | badRequest (error : String)
  | archiveError (error : ArchiveError)
  | page (page : RepositoryPage)

def repositoryCursor (repository : RepositorySummary) : String :=
  repository.repoType.display ++ ":" ++ repository.repoId

/-- The repository type of a cursor. -/
def cursorType : String → Option RepositoryType
  | "model" => some .model
  | "dataset" => some .dataset
  | _ => none

def parseRepositoryCursor (cursor : String) :
    Option (RepositoryType × String) := do
  let (repoType, repoId) ← Http.splitOnce ':' cursor.toList
  let repoType ← cursorType (String.ofList repoType)
  if (validateRepoId (String.ofList repoId)).isOk then
    some (repoType, String.ofList repoId)
  else
    none

/-- `(repo_type, repo_id) > cursor`. -/
def RepositorySummary.isAfter
    (repository : RepositorySummary)
    (cursor : RepositoryType × String) :
    Bool :=
  cursor.1.rank < repository.repoType.rank ∨
    cursor.1 = repository.repoType ∧ cursor.2 < repository.repoId

/-- `limit.unwrap_or(50).clamp(1, 200)`. -/
def pageLimit (limit : Option Nat) : Nat := min (max (limit.getD 50) 1) 200

/-- `repositories`; one more than the limit is looked at. -/
def repositories (authorized : Bool) (root : ArchiveRoot) (query : PageQuery) :
    RepositoriesResponse :=
  if authorized = false then
    .unauthorized
  else
    let limit := pageLimit query.limit
    match query.cursor.map parseRepositoryCursor with
    | some none => .badRequest "invalid_cursor"
    | cursor =>
        match listRepositories root with
        | .error error => .archiveError error
        | .ok repositories =>
            let filtered := (repositories.filter fun repository =>
              cursor.join.all repository.isAfter).take (limit + 1)
            .page {
              items := filtered.take limit
              nextCursor :=
                if limit < filtered.length then
                  (filtered[limit - 1]?).map repositoryCursor
                else
                  none }

/-! ## Cursors -/

theorem not_mem_of_validateComponent
    {value : String}
    (valid : validateComponent value = .ok ()) :
    '/' ∉ value.toList := by
  unfold validateComponent at valid
  split at valid
  · cases valid
  · next fine =>
      intro member
      exact fine (Or.inr (Or.inr (Or.inr (Or.inl
        (List.contains_iff_mem.mpr member)))))

/-- Every cursor of a repository with a valid id is accepted back. -/
theorem parse_repositoryCursor
    {repository : RepositorySummary}
    (valid : (validateRepoId repository.repoId).isOk = true) :
    parseRepositoryCursor (repositoryCursor repository) =
      some (repository.repoType, repository.repoId) := by
  have split : Http.splitOnce ':' (repositoryCursor repository).toList =
      some (repository.repoType.display.toList, repository.repoId.toList) := by
    refine Http.splitOnce_eq_some.mpr ⟨?_, ?_⟩
    · rw [repositoryCursor, String.toList_append, String.toList_append,
        List.append_assoc]
      rfl
    · cases repository.repoType <;> decide
  have named : cursorType repository.repoType.display =
      some repository.repoType := by
    cases repository.repoType <;> rfl
  unfold parseRepositoryCursor
  rw [split, Option.bind_eq_bind, Option.bind_some]
  dsimp only
  rw [String.ofList_toList, String.ofList_toList, named,
    Option.bind_eq_bind, Option.bind_some, if_pos valid]

/-! ## The list of repositories -/

/-- A listing names every entry once. -/
structure ArchiveRoot.Listing (root : ArchiveRoot) : Prop where
  namespaces : ∀ repoType, ((root.namespaces repoType).map Prod.fst).Nodup
  names : ∀ repoType, ∀ entry ∈ root.namespaces repoType, entry.2.Nodup

/-- Where a repository stands in the list. -/
def RepositorySummary.place (repository : RepositorySummary) : Nat ×ₗ String :=
  toLex (repository.repoType.rank, repository.repoId)

theorem RepositorySummary.isAfter_iff
    {repository final : RepositorySummary} :
    repository.isAfter (final.repoType, final.repoId) = true ↔
      final.place < repository.place := by
  have same : final.repoType = repository.repoType ↔
      final.repoType.rank = repository.repoType.rank := by
    cases final.repoType <;> cases repository.repoType <;> decide
  rw [isAfter, decide_eq_true_eq, place, place, Prod.Lex.lt_iff, same]
  rfl

section listing

variable {root : ArchiveRoot} {summaries : List RepositorySummary}

/-- The type and id of every repository below the root, as they are read. -/
def ArchiveRoot.ids (root : ArchiveRoot) : List (RepositoryType × String) :=
  [RepositoryType.model, .dataset].flatMap fun repoType =>
    (root.namespaces repoType).flatMap fun entry =>
      entry.2.map fun name => (repoType, entry.1 ++ "/" ++ name)

/-- Every visited item has its result, and the results are these. -/
theorem mapM_map
    {α β γ : Type}
    {visit : α → Except ArchiveError β}
    {items : List α}
    {results : List β}
    (label : α → γ)
    (read : β → γ)
    (agree : ∀ item ∈ items, ∀ result, visit item = .ok result →
      read result = label item)
    (visited : items.mapM visit = .ok results) :
    results.map read = items.map label := by
  induction items generalizing results with
  | nil =>
      cases visited
      rfl
  | cons first rest inductionHypothesis =>
      rw [List.mapM_cons] at visited
      obtain ⟨result, here, visited⟩ := bind_eq_ok.mp visited
      obtain ⟨others, later, same⟩ := bind_eq_ok.mp visited
      cases same
      rw [List.map_cons, List.map_cons,
        agree first (List.mem_cons_self ..) result here,
        inductionHypothesis (fun item member =>
          agree item (List.mem_cons_of_mem _ member)) later]

theorem mapM_visits
    {α β : Type}
    {visit : α → Except ArchiveError β}
    {items : List α}
    {results : List β}
    (visited : items.mapM visit = .ok results) :
    ∀ item ∈ items, ∃ result, visit item = .ok result := by
  induction items generalizing results with
  | nil => exact nofun
  | cons first rest inductionHypothesis =>
      rw [List.mapM_cons] at visited
      obtain ⟨result, here, visited⟩ := bind_eq_ok.mp visited
      obtain ⟨others, later, _⟩ := bind_eq_ok.mp visited
      intro item member
      rcases List.mem_cons.mp member with rfl | inside
      · exact ⟨result, here⟩
      · exact inductionHypothesis later item inside

/-- What reading one repository says of it. -/
theorem summarizeRepository_id
    {repoType : RepositoryType}
    {namespaceName name : String}
    {summary : RepositorySummary}
    (summed : summarizeRepository root repoType namespaceName name =
      .ok summary) :
    (summary.repoType, summary.repoId) =
        (repoType, namespaceName ++ "/" ++ name) ∧
      (validateRepoId summary.repoId).isOk = true := by
  obtain ⟨_, inventory, found, rfl⟩ := summarizeRepository_eq_ok.mp summed
  obtain ⟨_, valid, _⟩ := bind_eq_ok.mp found
  exact ⟨rfl, by rw [valid]; rfl⟩

theorem summarizeNamespace_ids
    {repoType : RepositoryType}
    {entry : String × List String}
    {group : List RepositorySummary}
    (summed : summarizeNamespace root repoType entry = .ok group) :
    validateComponent entry.1 = .ok () ∧
      (∀ name ∈ entry.2,
        (validateRepoId (entry.1 ++ "/" ++ name)).isOk = true) ∧
      group.map (fun summary => (summary.repoType, summary.repoId)) =
        entry.2.map fun name => (repoType, entry.1 ++ "/" ++ name) := by
  obtain ⟨_, valid, read⟩ := bind_eq_ok.mp summed
  refine ⟨valid, ?_, mapM_map _ _ (fun _ _ _ found =>
    (summarizeRepository_id found).1) read⟩
  intro name member
  obtain ⟨summary, found⟩ := mapM_visits read name member
  obtain ⟨same, fine⟩ := summarizeRepository_id found
  rw [(Prod.mk.inj same).2] at fine
  exact fine

/-- What the list is sorted from. -/
theorem listRepositories_found
    (listed : listRepositories root = .ok summaries) :
    ∃ found : List RepositorySummary,
      summaries = found.insertionSort (fun left right =>
        left.repoType.rank < right.repoType.rank ∨
          left.repoType = right.repoType ∧ left.repoId ≤ right.repoId) ∧
      found.map (fun summary => (summary.repoType, summary.repoId)) =
        root.ids ∧
      ∀ repoType, ∀ entry ∈ root.namespaces repoType,
        validateComponent entry.1 = .ok () ∧ ∀ name ∈ entry.2,
          (validateRepoId (entry.1 ++ "/" ++ name)).isOk = true := by
  obtain ⟨groups, visited, same⟩ := bind_eq_ok.mp listed
  cases same
  have inner : ∀ repoType (group : List (List RepositorySummary)),
      (root.namespaces repoType).mapM (summarizeNamespace root repoType) =
        .ok group →
      group.flatten.map (fun summary => (summary.repoType, summary.repoId)) =
        (root.namespaces repoType).flatMap fun entry =>
          entry.2.map fun name => (repoType, entry.1 ++ "/" ++ name) := by
    intro repoType group read
    have labels := mapM_map
      (fun entry => entry.2.map fun name =>
        (repoType, entry.1 ++ "/" ++ name))
      (fun group : List RepositorySummary => group.map
        fun summary => (summary.repoType, summary.repoId))
      (fun entry _ group found => (summarizeNamespace_ids found).2.2) read
    rw [List.map_flatten, labels]
    rfl
  refine ⟨groups.flatten.flatten, rfl, ?_, ?_⟩
  · have labels := mapM_map _
      (fun group : List (List RepositorySummary) => group.flatten.map
        fun summary => (summary.repoType, summary.repoId))
      (fun repoType _ group read => inner repoType group read) visited
    rw [ArchiveRoot.ids, List.flatMap, ← labels, List.flatten_flatten,
      List.map_flatten, List.map_map]
    rfl
  · intro repoType entry member
    have among : repoType ∈ [RepositoryType.model, .dataset] := by
      cases repoType <;> simp
    obtain ⟨group, read⟩ := mapM_visits visited repoType among
    obtain ⟨_, found⟩ := mapM_visits read entry member
    have ids := summarizeNamespace_ids found
    exact ⟨ids.1, ids.2.1⟩

/-- No two repositories have one type and one id. -/
theorem ArchiveRoot.Listing.nodup_ids
    (listing : root.Listing)
    (valid : ∀ repoType, ∀ entry ∈ root.namespaces repoType,
      validateComponent entry.1 = .ok ()) :
    root.ids.Nodup := by
  have halves : ∀ {first second one two : String}, '/' ∉ first.toList →
      '/' ∉ second.toList → first ++ "/" ++ one = second ++ "/" ++ two →
        first = second ∧ one = two := by
    intro first second one two absent absentToo same
    have text : first.toList ++ '/' :: one.toList =
        second.toList ++ '/' :: two.toList := by
      have letters := congrArg String.toList same
      simpa using letters
    have split := (Http.splitOnce_eq_some.mpr ⟨text, absentToo⟩).symm.trans
      (Http.splitOnce_eq_some.mpr ⟨rfl, absent⟩)
    obtain ⟨left, right⟩ := Prod.mk.inj (Option.some.inj split)
    exact ⟨(String.toList_injective left).symm,
      (String.toList_injective right).symm⟩
  have below : ∀ repoType, ((root.namespaces repoType).flatMap fun entry =>
      entry.2.map fun name => (repoType, entry.1 ++ "/" ++ name)).Nodup := by
    intro repoType
    refine List.nodup_flatMap.mpr ⟨?_, ?_⟩
    · intro entry member
      have absent := not_mem_of_validateComponent (valid repoType entry member)
      refine (listing.names repoType entry member).map_on ?_
      intro one _ two _ same
      exact (halves absent absent (Prod.mk.inj same).2).2
    · have distinct := List.pairwise_map.mp (listing.namespaces repoType)
      refine distinct.imp_of_mem fun {one two} member memberToo different => ?_
      intro pair inside insideToo
      obtain ⟨name, _, rfl⟩ := List.mem_map.mp inside
      obtain ⟨nameToo, _, same⟩ := List.mem_map.mp insideToo
      exact different (halves
        (not_mem_of_validateComponent (valid repoType two memberToo))
        (not_mem_of_validateComponent (valid repoType one member))
        (Prod.mk.inj same).2).1.symm
  refine List.nodup_flatMap.mpr ⟨fun repoType _ => below repoType, ?_⟩
  refine List.Pairwise.cons ?_ (List.pairwise_singleton ..)
  intro other member pair inside insideToo
  rw [List.mem_singleton] at member
  subst member
  simp only [List.mem_flatMap, List.mem_map] at inside insideToo
  obtain ⟨_, _, _, _, rfl⟩ := inside
  obtain ⟨_, _, _, _, same⟩ := insideToo
  cases (Prod.mk.inj same).1

/-- The list is in the order of the types and then of the ids, names every
repository below the root once, and every id in it is valid. -/
theorem sorted_listRepositories
    (listing : root.Listing)
    (listed : listRepositories root = .ok summaries) :
    summaries.Pairwise (fun one other => one.place < other.place) ∧
      (summaries.map fun summary => (summary.repoType, summary.repoId)).Perm
        root.ids ∧
      ∀ summary ∈ summaries,
        (validateRepoId summary.repoId).isOk = true := by
  obtain ⟨found, same, ids, valid⟩ := listRepositories_found listed
  have ordered : ∀ left right : RepositorySummary,
      (left.repoType.rank < right.repoType.rank ∨
        left.repoType = right.repoType ∧ left.repoId ≤ right.repoId) ↔
      left.place ≤ right.place := by
    intro left right
    have types : left.repoType = right.repoType ↔
        left.repoType.rank = right.repoType.rank := by
      cases left.repoType <;> cases right.repoType <;> decide
    rw [types, RepositorySummary.place, RepositorySummary.place,
      Prod.Lex.le_iff]
    rfl
  have perm : summaries.Perm found := same ▸ List.perm_insertionSort ..
  have permIds : (summaries.map fun summary =>
      (summary.repoType, summary.repoId)).Perm root.ids :=
    ids ▸ perm.map _
  refine ⟨?_, permIds, ?_⟩
  · have weak : summaries.Pairwise fun one other => one.place ≤ other.place := by
      have total : Std.Total fun left right : RepositorySummary =>
          left.repoType.rank < right.repoType.rank ∨
            left.repoType = right.repoType ∧ left.repoId ≤ right.repoId :=
        ⟨fun left right => by
          rw [ordered, ordered]
          exact le_total ..⟩
      have transitive : IsTrans RepositorySummary fun left right =>
          left.repoType.rank < right.repoType.rank ∨
            left.repoType = right.repoType ∧ left.repoId ≤ right.repoId :=
        ⟨fun first second third => by
          rw [ordered, ordered, ordered]
          exact le_trans⟩
      rw [same]
      exact (List.pairwise_insertionSort _ _).imp (ordered _ _).mp
    have distinct : summaries.Pairwise fun one other =>
        (one.repoType, one.repoId) ≠ (other.repoType, other.repoId) :=
      List.pairwise_map.mp (permIds.nodup_iff.mpr
        (listing.nodup_ids fun repoType entry member =>
          (valid repoType entry member).1))
    refine (weak.and distinct).imp fun {one other} both => ?_
    refine lt_of_le_of_ne both.1 fun equal => both.2 ?_
    obtain ⟨rank, ids⟩ := Prod.mk.inj (toLex.injective equal)
    rw [ids]
    have types : one.repoType = other.repoType := by
      revert rank
      cases one.repoType <;> cases other.repoType <;> decide
    rw [types]
  · intro summary member
    have inside := permIds.mem_iff.mp (List.mem_map_of_mem member)
    simp only [ArchiveRoot.ids, List.mem_flatMap, List.mem_map] at inside
    obtain ⟨repoType, _, entry, among, name, named, equal⟩ := inside
    rw [← (Prod.mk.inj equal).2]
    exact (valid repoType entry among).2 name named

/-- What one page of the route holds. -/
def RepositoryRead
    (root : ArchiveRoot)
    (limit : Option Nat)
    (cursor : Option String)
    (page : Paging.Page RepositorySummary String) :
    Prop :=
  repositories true root ⟨limit, cursor⟩ = .page ⟨page.items, page.next⟩

/-- A page of the route is cut from the list past its cursor. -/
theorem repositories_eq
    {limit : Option Nat}
    {cursor : Option String}
    {bound : Option (Nat ×ₗ String)}
    {all : Finset RepositorySummary}
    (listed : listRepositories root = .ok summaries)
    (valid : ∀ repository ∈ all,
      (validateRepoId repository.repoId).isOk = true)
    (asks : Paging.Asks all RepositorySummary.place repositoryCursor cursor
      bound) :
    ∃ found : List RepositorySummary,
      (∀ repository, repository ∈ found ↔ repository ∈ summaries ∧
        ∀ low ∈ bound, low < repository.place) ∧
      found.Sublist summaries ∧
      repositories true root ⟨limit, cursor⟩ = .page
        ⟨(Paging.cut repositoryCursor (pageLimit limit) found).items,
          (Paging.cut repositoryCursor (pageLimit limit) found).next⟩ := by
  cases asks with
  | first =>
      refine ⟨summaries.filter fun _ => true, ?_, List.filter_sublist .., ?_⟩
      · simp
      · unfold repositories
        rw [if_neg (by simp), listed]
        rfl
  | @later final member =>
      refine ⟨summaries.filter fun repository =>
        repository.isAfter (final.repoType, final.repoId), ?_,
          List.filter_sublist .., ?_⟩
      · intro repository
        rw [List.mem_filter, RepositorySummary.isAfter_iff]
        simp
      · unfold repositories
        rw [if_neg (by simp), Option.map_some,
          parse_repositoryCursor (valid final member), listed]
        rfl

theorem repositories_serves
    (limit : Option Nat)
    (listing : root.Listing)
    (listed : listRepositories root = .ok summaries) :
    Paging.Serves summaries.toFinset RepositorySummary.place repositoryCursor
      (pageLimit limit) (RepositoryRead root limit) := by
  obtain ⟨sorted, _, valid⟩ := sorted_listRepositories listing listed
  have fine : ∀ repository ∈ summaries.toFinset,
      (validateRepoId repository.repoId).isOk = true :=
    fun repository member => valid repository (List.mem_toFinset.mp member)
  have answers : ∀ {cursor bound},
      Paging.Asks summaries.toFinset RepositorySummary.place repositoryCursor
        cursor bound →
      ∃ page, repositories true root ⟨limit, cursor⟩ =
          .page ⟨page.items, page.next⟩ ∧
        Paging.Whole summaries.toFinset RepositorySummary.place
          repositoryCursor (pageLimit limit) bound page := by
    intro cursor bound asks
    obtain ⟨found, members, among, answer⟩ :=
      @repositories_eq _ _ limit _ _ _ listed fine asks
    refine ⟨_, answer, Paging.whole_cut repositoryCursor (by
      unfold pageLimit
      omega) (sorted.sublist among) fun repository => ?_⟩
    rw [members, Paging.Past, List.mem_toFinset]
  have whole : ∀ {cursor bound page},
      Paging.Asks summaries.toFinset RepositorySummary.place repositoryCursor
        cursor bound →
      RepositoryRead root limit cursor page →
      Paging.Whole summaries.toFinset RepositorySummary.place
        repositoryCursor (pageLimit limit) bound page := by
    intro cursor bound page asks read
    obtain ⟨answer, same, whole⟩ := answers asks
    unfold RepositoryRead at read
    rw [read] at same
    cases page
    cases answer
    cases same
    exact whole
  have read : ∀ {cursor bound},
      Paging.Asks summaries.toFinset RepositorySummary.place repositoryCursor
        cursor bound →
      ∃ page, RepositoryRead root limit cursor page := by
    intro cursor bound asks
    obtain ⟨page, answer, _⟩ := answers asks
    exact ⟨page, answer⟩
  exact ⟨read .first, fun final member => read (.later member),
    fun page => whole .first, fun final member page => whole (.later member)⟩

end listing

/-! ## Both lists -/

/-- What reading the pages of the history comes to. -/
structure HistoryPaged
    (jobs : Finset Jobs.Job)
    (files : Jobs.JobFiles)
    (limit : Nat) :
    Prop where
  answered : ∀ cursor ∈ none :: (jobs.toList.map fun job => some job.id),
    ∀ outcome final, Returns Jobs.Healthy (Jobs.listPage limit cursor) files
      outcome final → final = files ∧ ∃ page, outcome = .ok page
  reaches : Paging.Reaches jobs Jobs.newestFirst limit
    (Jobs.PageRead limit files)

/-- The keys of the history tell times and ids apart, and the ids are read back
from them. -/
structure HistoryKeysExact : Prop where
  read : ∀ createdAt id, createdAt < 2 ^ 64 → Jobs.isJobId id = true →
    Jobs.jobIdFromHistoryKey (Jobs.historyKey createdAt id) = some id
  injective : ∀ createdAt id createdOther other,
    createdAt < 2 ^ 64 → createdOther < 2 ^ 64 →
    Jobs.isJobId id = true → Jobs.isJobId other = true →
    Jobs.historyKey createdAt id = Jobs.historyKey createdOther other →
      createdAt = createdOther ∧ id = other

theorem historyKeys_exact : HistoryKeysExact where
  read _ _ small valid := Jobs.jobId_of_historyKey small valid
  injective createdAt id createdOther other small smallOther valid validOther
      same := by
    have differ := @Jobs.historyKey_lt_iff createdAt createdOther id other
      small smallOther valid validOther
    have differToo := @Jobs.historyKey_lt_iff createdOther createdAt other id
      smallOther small validOther valid
    rw [same] at differ differToo
    have notLess : ¬createdAt < createdOther := fun less =>
      lt_irrefl _ (differ.mpr (Or.inl less))
    have notMore : ¬createdOther < createdAt := fun less =>
      lt_irrefl _ (differToo.mpr (Or.inl less))
    have equal : createdAt = createdOther := by omega
    refine ⟨equal, le_antisymm ?_ ?_⟩
    · exact not_lt.mp fun less =>
        lt_irrefl _ (differToo.mpr (Or.inr ⟨equal.symm, less⟩))
    · exact not_lt.mp fun less =>
        lt_irrefl _ (differ.mpr (Or.inr ⟨equal, less⟩))

/-- What reading the pages of the repositories comes to. -/
structure RepositoriesPaged
    (root : ArchiveRoot)
    (summaries : List RepositorySummary)
    (limit : Option Nat) :
    Prop where
  nodup : summaries.Nodup
  reaches : Paging.Reaches summaries.toFinset RepositorySummary.place
    (pageLimit limit) (RepositoryRead root limit)
  accepted : ∀ pages, Paging.Follows (RepositoryRead root limit) none pages →
    ∀ page ∈ pages, ∀ cursor, page.next = some cursor →
      ∃ repository ∈ summaries, parseRepositoryCursor cursor =
        some (repository.repoType, repository.repoId)

/-- The pages of the history and of the repositories partition them. -/
theorem pages_partition
    {jobs : Finset Jobs.Job}
    {files : Jobs.JobFiles}
    {limit : Nat}
    {root : ArchiveRoot}
    {summaries : List RepositorySummary}
    (requested : Option Nat)
    (recorded : Jobs.OnRecord jobs files)
    (positive : 1 ≤ limit)
    (listing : root.Listing)
    (listed : listRepositories root = .ok summaries) :
    HistoryPaged jobs files limit ∧ HistoryKeysExact ∧
      RepositoriesPaged root summaries requested := by
  refine ⟨?_, historyKeys_exact, ?_⟩
  · refine ⟨?_, (recorded.serves positive).reaches positive⟩
    intro cursor asked outcome final returns
    have asks : ∃ bound, Paging.Asks jobs Jobs.newestFirst Jobs.Job.id
        cursor bound := by
      rcases List.mem_cons.mp asked with rfl | later
      · exact ⟨none, .first⟩
      · obtain ⟨job, member, rfl⟩ := List.mem_map.mp later
        exact ⟨_, .later (Finset.mem_toList.mp member)⟩
    obtain ⟨bound, asks⟩ := asks
    obtain ⟨same, page, answer, _⟩ :=
      (recorded.answers positive asks).2 outcome final returns
    exact ⟨same, page, answer⟩
  · obtain ⟨sorted, _, valid⟩ := sorted_listRepositories listing listed
    have serves := repositories_serves requested listing listed
    refine ⟨sorted.imp fun less same => (same ▸ less).ne rfl,
      serves.reaches (by unfold pageLimit; omega), ?_⟩
    intro pages follows page member cursor handed
    obtain ⟨repository, among, rfl⟩ :=
      follows.marks serves .first page member cursor handed
    have inside := List.mem_toFinset.mp among
    exact ⟨repository, inside, parse_repositoryCursor (valid _ inside)⟩

section sample

/-- A job of the history. -/
def sampleJob : Jobs.Job :=
  Jobs.Job.new "j" ⟨.audit, .model, none, none, none, none⟩ .all
    ⟨"token", none, none⟩ none none 7

/-- Its record and its key. -/
def sampleFiles : Jobs.JobFiles :=
  ((∅ : Jobs.JobFiles).insert (.history (Jobs.historyKey 7 "j")) .fresh).insert
    (.record "j") ⟨some (.job sampleJob), true⟩

/-- A model and a dataset. -/
def sampleRoot : ArchiveRoot where
  namespaces
    | .model => [("n", ["r"])]
    | .dataset => [("n", ["s"])]
  dir _ _ := ⟨none, []⟩

theorem sample_recorded : Jobs.OnRecord {sampleJob} sampleFiles where
  record id content := by
    by_cases same : id = "j"
    · rw [same, sampleFiles, Finmap.lookup_insert]
      simp [sampleJob, Jobs.Job.new, eq_comm]
    · rw [sampleFiles, Finmap.lookup_insert_of_ne _ (by simp [same]),
        Finmap.lookup_insert_of_ne _ (by simp), Finmap.lookup_empty]
      refine iff_of_false (by simp) ?_
      rintro ⟨job, member, named, _⟩
      rw [Finset.mem_singleton.mp member] at named
      exact same named.symm
  valid job member := by
    rw [Finset.mem_singleton.mp member]
    decide
  dated job member := by
    rw [Finset.mem_singleton.mp member]
    decide
  listed job member := by
    rw [Finset.mem_singleton.mp member]
    exact Finmap.mem_insert.mpr (Or.inr (Finmap.mem_insert.mpr (Or.inl rfl)))
  alone job member key there _ := by
    rw [Finset.mem_singleton.mp member]
    rcases Finmap.mem_insert.mp there with same | there
    · cases same
    · rcases Finmap.mem_insert.mp there with same | there
      · cases same
        rfl
      · exact absurd there (Finmap.notMem_empty)

/-- One job and two repositories, one at a time. -/
theorem pages_partition_sample :
    HistoryPaged {sampleJob} sampleFiles 1 ∧ HistoryKeysExact ∧
      RepositoriesPaged sampleRoot
        [⟨.model, "n/r", 0, 0, 0⟩, ⟨.dataset, "n/s", 0, 0, 0⟩] (some 1) :=
  pages_partition (some 1) sample_recorded (by decide)
    ⟨fun repoType => by cases repoType <;> decide,
      fun repoType => by cases repoType <;> decide⟩
    (by decide +kernel)

end sample

end ModelKeep
