import Mathlib.Algebra.GroupWithZero.Nat
import Mathlib.Data.Finmap
import Mathlib.Data.List.Sort
import ModelKeep.Archive

/-!
# The refs directory and its readers

Refs are the regular files of a directory.  Resolving a ref, the inventory of
a repository, the list of all repositories and the removal of a revision read
the directory each in its own way, and decide for themselves which of its
entries are refs.
-/

namespace ModelKeep

/-- What stands under a name in `refs`. -/
inductive RefNode
  /-- A regular file, with its text if it is text. -/
  | file (text : Option String)
  | directory
  /-- A link, with the text that is read through it. -/
  | link (text : Option String)
  deriving DecidableEq

/-- What a reader of the name gets. -/
def RefNode.text : RefNode → Option String
  | .file text => text
  | .directory => none
  | .link text => text

/-- The directory `refs`; the names are in the order of a listing. -/
structure RefsDir where
  node : String → Option RefNode
  names : List String
  nodup : names.Nodup
  mem_names : ∀ name, name ∈ names ↔ (node name).isSome

/-- A directory without entries. -/
def RefsDir.empty : RefsDir := ⟨fun _ => none, [], List.nodup_nil, by simp⟩

/-- The directory of a repository; of what is below `revisions` only the
directories are ever looked at. -/
structure RepositoryDir where
  refs : Option RefsDir
  revisions : List (String × RevisionDir)

abbrev RefMap : Type := Finmap fun _ : String => String

structure RevisionSummary where
  commit : String
  references : Finset String
  fileCount : Nat
  logicalBytes : Nat
  deriving DecidableEq

structure RepositoryInventory where
  repoType : RepositoryType
  repoId : String
  refs : RefMap
  revisions : List RevisionSummary
  deriving DecidableEq

structure RepositorySummary where
  repoType : RepositoryType
  repoId : String
  revisionCount : Nat
  refCount : Nat
  logicalBytes : Nat
  deriving DecidableEq

structure RevisionRemoval where
  commit : String
  references : List String
  removed : Bool
  deriving DecidableEq

/-- The same directory, with a text under one name. -/
def RefsDir.set (refs : RefsDir) (name text : String) : RefsDir where
  node := Function.update refs.node name (some (.file (some text)))
  names := if name ∈ refs.names then refs.names else name :: refs.names
  nodup := by
    split
    · exact refs.nodup
    · next absent => exact List.nodup_cons.mpr ⟨absent, refs.nodup⟩
  mem_names := by
    intro other
    by_cases same : other = name
    · subst same
      split <;> simp [*]
    · split <;> simp [same, refs.mem_names]

namespace RepositoryDir

variable (repository : RepositoryDir)

/-- What stands under a name in `refs`, if that is a directory. -/
def refNode (name : String) : Option RefNode :=
  repository.refs.bind fun refs => refs.node name

/-- The names in `refs`, in the order of a listing. -/
def refNames : List String :=
  match repository.refs with
  | none => []
  | some refs => refs.names

/-- The directory of a revision. -/
def revision (commit : String) : Option RevisionDir :=
  repository.revisions.lookup commit

/-- A ref that names a commit is put in place. -/
def setRef (name commit : String) : RepositoryDir :=
  { repository with refs := some ((repository.refs.getD .empty).set name commit) }

end RepositoryDir

/-! ## The readers -/

/-- `read_to_string`. -/
def readText : Option String → Except ArchiveError String
  | some text => .ok text
  | none => .error (.io .other)

/-- `resolve_ref_for_type`. -/
def resolveRef (repoId : String) (repository : RepositoryDir)
    (reference : String) : Except ArchiveError String := do
  let _ ← validateRepoId repoId
  validateComponent reference
  match repository.refNode reference with
  | none => .error (.io .notFound)
  | some node => do
      let text ← readText node.text
      validateRevision (Archive.trim text)
      return Archive.trim text

/-- The loop of the inventory: the regular files are the refs. -/
def readRefs (node : String → Option RefNode) :
    List String → RefMap → Except ArchiveError RefMap
  | [], refs => .ok refs
  | name :: rest, refs =>
      match node name with
      | some (.file text) => do
          validateComponent name
          let text ← readText text
          validateRevision (Archive.trim text)
          readRefs node rest (refs.insert name (Archive.trim text))
      | _ => readRefs node rest refs

/-- `list_revisions_for_type`. -/
def listRevisions (repoId : String) (repository : RepositoryDir) :
    Except ArchiveError (List String) := do
  let _ ← validateRepoId repoId
  return (repository.revisions.map Prod.fst).insertionSort (· ≤ ·)

/-- `read_manifest_for` of a commit. -/
def readManifestOf (repoType : RepositoryType) (repository : RepositoryDir)
    (commit : String) : Except ArchiveError Manifest :=
  match repository.revision commit with
  | none => .error (.io .notFound)
  | some revision => revision.readManifestFor repoType

def summaryOf (refs : RefMap) (commit : String) (manifest : Manifest) :
    RevisionSummary where
  commit := commit
  references := refs.keys.filter fun name => refs.lookup name = some commit
  fileCount := manifest.files.length
  logicalBytes := (manifest.files.map ManifestFile.size).sum

/-- What the inventory says about one revision. -/
def summarize
    (repoType : RepositoryType)
    (repository : RepositoryDir)
    (refs : RefMap)
    (commit : String) :
    Except ArchiveError RevisionSummary := do
  validateRevision commit
  let manifest ← readManifestOf repoType repository commit
  if manifest.complete = false then
    .error (.integrityMismatch ("revision " ++ commit ++ " is not complete"))
  else
    return summaryOf refs commit manifest

/-- What the inventory says once it has the refs. -/
def summarizeRevisions
    (repoType : RepositoryType)
    (repoId : String)
    (repository : RepositoryDir)
    (refs : RefMap) :
    Except ArchiveError RepositoryInventory := do
  let commits ← listRevisions repoId repository
  let revisions ← commits.mapM (summarize repoType repository refs)
  return ⟨repoType, repoId, refs,
    revisions.insertionSort fun left right => left.commit ≤ right.commit⟩

/-- `repository_inventory_for_type`. -/
def repositoryInventory
    (repoType : RepositoryType)
    (repoId : String)
    (repository : Option RepositoryDir) :
    Except ArchiveError RepositoryInventory := do
  let _ ← validateRepoId repoId
  match repository with
  | none => .error (.io .notFound)
  | some repository => do
      let refs ← readRefs repository.refNode repository.refNames ∅
      summarizeRevisions repoType repoId repository refs

/-- The archive root: the directories below `models` and `datasets` and
below each of these, in the order of a listing. -/
structure ArchiveRoot where
  namespaces : RepositoryType → List (String × List String)
  dir : RepositoryType → String → RepositoryDir

/-- What the list says about one repository. -/
def summarizeRepository
    (root : ArchiveRoot)
    (repoType : RepositoryType)
    (namespaceName name : String) :
    Except ArchiveError RepositorySummary := do
  validateComponent name
  let repoId := namespaceName ++ "/" ++ name
  let inventory ←
    repositoryInventory repoType repoId (some (root.dir repoType repoId))
  return {
    repoType := repoType
    repoId := repoId
    revisionCount := inventory.revisions.length
    refCount := inventory.refs.keys.card
    logicalBytes := (inventory.revisions.map RevisionSummary.logicalBytes).sum }

/-- `RepositoryType` is ordered as it is declared. -/
def RepositoryType.rank : RepositoryType → Nat
  | .model => 0
  | .dataset => 1

/-- What the list says about the repositories below one namespace. -/
def summarizeNamespace
    (root : ArchiveRoot)
    (repoType : RepositoryType)
    (entry : String × List String) :
    Except ArchiveError (List RepositorySummary) := do
  validateComponent entry.1
  entry.2.mapM (summarizeRepository root repoType entry.1)

/-- `list_repositories`. -/
def listRepositories (root : ArchiveRoot) :
    Except ArchiveError (List RepositorySummary) := do
  let found ← [RepositoryType.model, .dataset].mapM fun repoType =>
    (root.namespaces repoType).mapM (summarizeNamespace root repoType)
  return found.flatten.flatten.insertionSort fun left right =>
    left.repoType.rank < right.repoType.rank ∨
      left.repoType = right.repoType ∧ left.repoId ≤ right.repoId

/-- The regular files in `refs` that hold the commit. -/
def referencesTo (node : String → Option RefNode) (commit : String) :
    List String → Except ArchiveError (List String)
  | [] => .ok []
  | name :: rest =>
      match node name with
      | some (.file text) => do
          let text ← readText text
          let others ← referencesTo node commit rest
          return if Archive.trim text = commit then name :: others else others
      | _ => referencesTo node commit rest

/-- `remove_revision_for_type`, when nothing is refused. -/
def removeRevision
    (repoId : String)
    (repository : RepositoryDir)
    (commit : String)
    (dryRun : Bool) :
    Except ArchiveError (RevisionRemoval × RepositoryDir) := do
  let _ ← validateRepoId repoId
  validateRevision commit
  match repository.revision commit with
  | none => .error (.io .notFound)
  | some _ => do
      let found ← referencesTo repository.refNode commit repository.refNames
      let references := found.insertionSort (· ≤ ·)
      if references ≠ [] then
        .error (.referencedRevision references)
      else
        return (⟨commit, references, !dryRun⟩,
          if dryRun then repository else { repository with
            revisions := repository.revisions.filter fun entry =>
              entry.1 ≠ commit })

/-! ## What the inventory finds -/

/-- The commit a regular file names. -/
def RefNode.commit : RefNode → Option String
  | .file (some text) => some (Archive.trim text)
  | _ => none

/-- A regular file that the inventory can read. -/
def RefNode.Readable (name : String) : RefNode → Prop
  | .file text => validateComponent name = .ok () ∧
      ∃ found, text = some found ∧
        validateRevision (Archive.trim found) = .ok ()
  | _ => True

theorem readText_eq_ok
    {text : Option String}
    {found : String} :
    readText text = .ok found ↔ text = some found := by
  cases text <;> simp [readText]

/-- These are the refs that were found among the names, beside earlier ones. -/
structure FoundRefs (node : String → Option RefNode) (names : List String)
    (earlier found : RefMap) : Prop where
  readable : ∀ name ∈ names, ∀ entry, node name = some entry →
    entry.Readable name
  lookup : ∀ name, found.lookup name =
    if name ∈ names then
      ((node name).bind RefNode.commit).orElse fun _ => earlier.lookup name
    else earlier.lookup name

section found

variable {node : String → Option RefNode} {first : String}
  {rest : List String} {earlier found : RefMap}

/-- What is no regular file is passed over. -/
theorem foundRefs_cons_of_none
    (silent : (node first).bind RefNode.commit = none)
    (harmless : ∀ entry, node first = some entry → entry.Readable first) :
    FoundRefs node (first :: rest) earlier found ↔
      FoundRefs node rest earlier found := by
  constructor
  · rintro ⟨readable, lookup⟩
    refine ⟨fun name later => readable name (List.mem_cons_of_mem _ later), ?_⟩
    intro name
    rw [lookup]
    by_cases same : name = first
    · subst same
      simp [silent]
    · simp [same]
  · rintro ⟨readable, lookup⟩
    refine ⟨?_, ?_⟩
    · intro name member
      rcases List.mem_cons.mp member with rfl | later
      · exact harmless
      · exact readable name later
    · intro name
      rw [lookup]
      by_cases same : name = first
      · subst same
        simp [silent]
      · simp [same]

theorem foundRefs_cons_of_file
    {text : String}
    (stands : node first = some (.file (some text)))
    (readable : (RefNode.file (some text)).Readable first) :
    FoundRefs node (first :: rest) earlier found ↔
      FoundRefs node rest (earlier.insert first (Archive.trim text))
        found := by
  have lookups : ∀ name, (if name ∈ rest then
        ((node name).bind RefNode.commit).orElse fun _ =>
          (earlier.insert first (Archive.trim text)).lookup name
      else (earlier.insert first (Archive.trim text)).lookup name) =
      if name ∈ first :: rest then
        ((node name).bind RefNode.commit).orElse fun _ => earlier.lookup name
      else earlier.lookup name := by
    intro name
    by_cases same : name = first
    · subst same
      simp [stands, RefNode.commit]
    · simp [same]
  constructor
  · rintro ⟨all, lookup⟩
    refine ⟨fun name later => all name (List.mem_cons_of_mem _ later), ?_⟩
    intro name
    rw [lookup, lookups]
  · rintro ⟨others, lookup⟩
    refine ⟨?_, ?_⟩
    · intro name member
      rcases List.mem_cons.mp member with rfl | later
      · intro entry standsToo
        cases stands.symm.trans standsToo
        exact readable
      · exact others name later
    · intro name
      rw [lookup, lookups]

theorem foundRefs_nil :
    FoundRefs node [] earlier found ↔ found = earlier := by
  constructor
  · rintro ⟨_, lookup⟩
    apply Finmap.ext_lookup
    simpa using lookup
  · rintro rfl
    exact ⟨by simp, by simp⟩

end found

/-- The inventory reads every regular file, or fails. -/
theorem readRefs_eq_ok
    {node : String → Option RefNode}
    {names : List String}
    {earlier found : RefMap} :
    readRefs node names earlier = .ok found ↔
      FoundRefs node names earlier found := by
  induction names generalizing earlier with
  | nil =>
      rw [foundRefs_nil, readRefs, Except.ok.injEq]
      exact eq_comm
  | cons first rest inductionHypothesis =>
      unfold readRefs
      split
      · next text stands =>
          constructor
          · intro read
            obtain ⟨_, valid, decoded⟩ := bind_eq_ok.mp read
            obtain ⟨found, whole, named⟩ := bind_eq_ok.mp decoded
            obtain ⟨_, commit, others⟩ := bind_eq_ok.mp named
            cases readText_eq_ok.mp whole
            exact (foundRefs_cons_of_file stands
              ⟨valid, found, rfl, commit⟩).mpr (inductionHypothesis.mp others)
          · intro refs
            obtain ⟨valid, found, rfl, commit⟩ :=
              refs.readable first List.mem_cons_self _ stands
            refine bind_eq_ok.mpr ⟨(), valid, bind_eq_ok.mpr
              ⟨found, rfl, bind_eq_ok.mpr ⟨(), commit, ?_⟩⟩⟩
            exact inductionHypothesis.mpr ((foundRefs_cons_of_file stands
              ⟨valid, found, rfl, commit⟩).mp refs)
      · next other =>
          rw [inductionHypothesis, foundRefs_cons_of_none]
          · cases stands : node first with
            | none => rfl
            | some entry =>
                cases entry with
                | file text => exact absurd stands (other text)
                | _ => rfl
          · intro entry stands
            cases entry with
            | file text => exact absurd stands (other text)
            | _ => trivial

/-- The refs of a repository, whatever the order of the listing. -/
structure RefsOf (repository : RepositoryDir) (refs : RefMap) : Prop where
  readable : ∀ name entry, repository.refNode name = some entry →
    entry.Readable name
  lookup : ∀ name, refs.lookup name =
    (repository.refNode name).bind RefNode.commit

theorem mem_refNames
    (repository : RepositoryDir)
    (name : String) :
    name ∈ repository.refNames ↔ (repository.refNode name).isSome := by
  unfold RepositoryDir.refNames RepositoryDir.refNode
  cases repository.refs with
  | none => simp
  | some refs => exact refs.mem_names name

theorem readRefs_eq_refs
    {repository : RepositoryDir}
    {refs : RefMap} :
    readRefs repository.refNode repository.refNames ∅ = .ok refs ↔
      RefsOf repository refs := by
  rw [readRefs_eq_ok]
  have lookups : ∀ name, (if name ∈ repository.refNames then
        ((repository.refNode name).bind RefNode.commit).orElse fun _ =>
          (∅ : RefMap).lookup name
      else (∅ : RefMap).lookup name) =
      (repository.refNode name).bind RefNode.commit := by
    intro name
    simp only [mem_refNames]
    cases repository.refNode name with
    | none => simp
    | some entry => cases commit : entry.commit <;> simp [commit]
  constructor
  · rintro ⟨readable, lookup⟩
    refine ⟨?_, ?_⟩
    · intro name entry stands
      apply readable name _ entry stands
      rw [mem_refNames, stands]
      rfl
    · intro name
      rw [lookup, lookups]
  · rintro ⟨readable, lookup⟩
    refine ⟨fun name _ => readable name, ?_⟩
    intro name
    rw [lookup, lookups]

/-! ## When the readers succeed -/

section readers

variable {repoType : RepositoryType} {repoId : String}
  {repository other : RepositoryDir}

theorem repositoryInventory_eq_ok
    {inventory : RepositoryInventory} :
    repositoryInventory repoType repoId (some repository) = .ok inventory ↔
      (∃ parts, validateRepoId repoId = .ok parts) ∧
        ∃ refs, RefsOf repository refs ∧
          summarizeRevisions repoType repoId repository refs =
            .ok inventory := by
  unfold repositoryInventory
  constructor
  · intro found
    obtain ⟨parts, valid, read⟩ := bind_eq_ok.mp found
    obtain ⟨refs, listed, rest⟩ := bind_eq_ok.mp read
    exact ⟨⟨parts, valid⟩, refs, readRefs_eq_refs.mp listed, rest⟩
  · rintro ⟨⟨parts, valid⟩, refs, listed, rest⟩
    exact bind_eq_ok.mpr ⟨parts, valid, bind_eq_ok.mpr
      ⟨refs, readRefs_eq_refs.mpr listed, rest⟩⟩

theorem mapM_isOk
    {α β : Type}
    {visit : α → Except ArchiveError β}
    {items : List α} :
    (∃ results, items.mapM visit = .ok results) ↔
      ∀ item ∈ items, ∃ result, visit item = .ok result := by
  induction items with
  | nil => simp [pure, Except.pure]
  | cons first rest inductionHypothesis =>
      rw [List.forall_mem_cons, ← inductionHypothesis]
      simp only [List.mapM_cons, bind_eq_ok]
      constructor
      · rintro ⟨_, result, visited, results, others, _⟩
        exact ⟨⟨result, visited⟩, results, others⟩
      · rintro ⟨⟨result, visited⟩, results, others⟩
        exact ⟨_, result, visited, results, others, rfl⟩

theorem mapM_isOk_of
    {α β γ : Type}
    {visit : α → Except ArchiveError β}
    {visitToo : α → Except ArchiveError γ}
    {items : List α}
    (agree : ∀ item, (∃ result, visit item = .ok result) →
      ∃ result, visitToo item = .ok result)
    (visited : ∃ results, items.mapM visit = .ok results) :
    ∃ results, items.mapM visitToo = .ok results :=
  mapM_isOk.mpr fun item member =>
    agree item (mapM_isOk.mp visited item member)

/-- Whether a revision can be summed up does not depend on the refs. -/
theorem summarize_isOk
    {refs refsToo : RefMap}
    {commit : String}
    (summed : ∃ summary,
      summarize repoType repository refs commit = .ok summary) :
    ∃ summary, summarize repoType repository refsToo commit =
      .ok summary := by
  obtain ⟨summary, summed⟩ := summed
  unfold summarize at summed ⊢
  obtain ⟨_, valid, read⟩ := bind_eq_ok.mp summed
  obtain ⟨manifest, decoded, checked⟩ := bind_eq_ok.mp read
  split at checked
  · cases checked
  · next complete =>
      refine ⟨summaryOf refsToo commit manifest, bind_eq_ok.mpr
        ⟨(), valid, bind_eq_ok.mpr ⟨manifest, decoded, ?_⟩⟩⟩
      rw [if_neg complete]
      rfl

theorem summarizeRevisions_isOk
    {refs refsToo : RefMap}
    (summed : ∃ inventory,
      summarizeRevisions repoType repoId repository refs = .ok inventory) :
    ∃ inventory, summarizeRevisions repoType repoId repository refsToo =
      .ok inventory := by
  obtain ⟨inventory, summed⟩ := summed
  unfold summarizeRevisions at summed ⊢
  obtain ⟨commits, listed, read⟩ := bind_eq_ok.mp summed
  obtain ⟨revisions, each, _⟩ := bind_eq_ok.mp read
  obtain ⟨revisionsToo, eachToo⟩ :=
    mapM_isOk_of (fun _ => summarize_isOk) ⟨revisions, each⟩
  exact ⟨_, bind_eq_ok.mpr ⟨commits, listed, bind_eq_ok.mpr
    ⟨revisionsToo, eachToo, rfl⟩⟩⟩

theorem refs_summarizeRevisions
    {refs : RefMap}
    {inventory : RepositoryInventory}
    (summed : summarizeRevisions repoType repoId repository refs =
      .ok inventory) :
    inventory.refs = refs := by
  unfold summarizeRevisions at summed
  obtain ⟨commits, listed, read⟩ := bind_eq_ok.mp summed
  obtain ⟨revisions, each, same⟩ := bind_eq_ok.mp read
  cases same
  rfl

/-- Two directories that hold the same, in whatever order. -/
structure SameEntries (repository other : RepositoryDir) : Prop where
  refNode : repository.refNode = other.refNode
  revisions : repository.revisions = other.revisions

theorem SameEntries.symm
    (same : SameEntries repository other) :
    SameEntries other repository :=
  ⟨same.refNode.symm, same.revisions.symm⟩

theorem SameEntries.refs
    (same : SameEntries repository other)
    {refs : RefMap}
    (found : RefsOf repository refs) :
    RefsOf other refs := by
  obtain ⟨readable, lookup⟩ := found
  rw [same.refNode] at readable lookup
  exact ⟨readable, lookup⟩

/-- What the inventory says about the revisions it takes from them. -/
theorem summarizeRevisions_congr
    (same : repository.revisions = other.revisions)
    (refs : RefMap) :
    summarizeRevisions repoType repoId repository refs =
      summarizeRevisions repoType repoId other refs := by
  have manifests : readManifestOf repoType repository =
      readManifestOf repoType other := by
    funext commit
    simp [readManifestOf, RepositoryDir.revision, same]
  have summaries : summarize repoType repository refs =
      summarize repoType other refs := by
    funext commit
    simp [summarize, manifests]
  simp [summarizeRevisions, listRevisions, same, summaries]

/-- The inventory does not depend on the order of a listing. -/
theorem SameEntries.inventory
    (same : SameEntries repository other)
    {inventory : RepositoryInventory}
    (found : repositoryInventory repoType repoId (some repository) =
      .ok inventory) :
    repositoryInventory repoType repoId (some other) = .ok inventory := by
  obtain ⟨valid, refs, listed, summed⟩ := repositoryInventory_eq_ok.mp found
  rw [summarizeRevisions_congr same.revisions] at summed
  exact repositoryInventory_eq_ok.mpr
    ⟨valid, refs, same.refs listed, summed⟩

theorem SameEntries.resolveRef_eq
    (same : SameEntries repository other)
    (reference : String) :
    resolveRef repoId repository reference =
      resolveRef repoId other reference := by
  simp [resolveRef, same.refNode]

@[simp] theorem refNode_setRef
    (repository : RepositoryDir)
    (name commit : String) :
    (repository.setRef name commit).refNode =
      Function.update repository.refNode name (some (.file (some commit))) := by
  funext other
  unfold RepositoryDir.refNode RepositoryDir.setRef RefsDir.set
  cases repository.refs with
  | none => by_cases same : other = name <;> simp [same, RefsDir.empty]
  | some refs => by_cases same : other = name <;> simp [same]

theorem refsOf_setRef
    {refs : RefMap}
    {name commit : String}
    (found : RefsOf repository refs)
    (safe : validateComponent name = .ok ())
    (valid : validateRevision commit = .ok ()) :
    RefsOf (repository.setRef name commit) (refs.insert name commit) := by
  have trimmed : Archive.trim commit = commit := Archive.trim_revision valid
  constructor
  · intro other entry stands
    rw [refNode_setRef] at stands
    by_cases same : other = name
    · subst same
      rw [Function.update_self] at stands
      cases stands
      exact ⟨safe, commit, rfl, by rw [trimmed, valid]⟩
    · rw [Function.update_of_ne same] at stands
      exact found.readable other entry stands
  · intro other
    rw [refNode_setRef]
    by_cases same : other = name
    · subst same
      simp [RefNode.commit, trimmed]
    · simp [same, found.lookup]

/-- A new ref is one more ref of the inventory. -/
theorem inventory_setRef
    {inventory : RepositoryInventory}
    {name commit : String}
    (found : repositoryInventory repoType repoId (some repository) =
      .ok inventory)
    (safe : validateComponent name = .ok ())
    (valid : validateRevision commit = .ok ()) :
    ∃ renewed, repositoryInventory repoType repoId
        (some (repository.setRef name commit)) = .ok renewed ∧
      renewed.refs = inventory.refs.insert name commit := by
  obtain ⟨named, refs, listed, summed⟩ := repositoryInventory_eq_ok.mp found
  have again : ∃ renewed, summarizeRevisions repoType repoId repository
      (refs.insert name commit) = .ok renewed :=
    summarizeRevisions_isOk ⟨_, summed⟩
  obtain ⟨renewed, summedToo⟩ := again
  rw [refs_summarizeRevisions summed]
  refine ⟨renewed, repositoryInventory_eq_ok.mpr
    ⟨named, _, refsOf_setRef listed safe valid, ?_⟩,
    refs_summarizeRevisions summedToo⟩
  rw [← summedToo]
  exact summarizeRevisions_congr rfl _

/-- Only regular files keep a revision from being removed. -/
theorem mem_referencesTo
    {node : String → Option RefNode}
    {commit : String}
    {names references : List String}
    (found : referencesTo node commit names = .ok references)
    {name : String}
    (member : name ∈ references) :
    ∃ text, node name = some (.file (some text)) ∧
      Archive.trim text = commit := by
  induction names generalizing references with
  | nil =>
      cases found
      cases member
  | cons first rest inductionHypothesis =>
      unfold referencesTo at found
      split at found
      · next text stands =>
          obtain ⟨whole, decoded, read⟩ := bind_eq_ok.mp found
          obtain ⟨others, listed, same⟩ := bind_eq_ok.mp read
          cases readText_eq_ok.mp decoded
          cases same
          split at member
          · next named =>
              rcases List.mem_cons.mp member with rfl | later
              · exact ⟨whole, stands, named⟩
              · exact inductionHypothesis listed later
          · exact inductionHypothesis listed member
      · exact inductionHypothesis found member

/-- The validators and the readers of texts never blame a reference. -/
theorem referencesTo_error
    {node : String → Option RefNode}
    {commit : String}
    {names : List String}
    {error : ArchiveError}
    (failed : referencesTo node commit names = .error error) :
    error = .io .other := by
  induction names with
  | nil => cases failed
  | cons first rest inductionHypothesis =>
      unfold referencesTo at failed
      split at failed
      · next text stands =>
          cases text with
          | none =>
              cases failed
              rfl
          | some whole =>
              change (referencesTo node commit rest >>= _) = _ at failed
              cases others : referencesTo node commit rest with
              | error errorToo =>
                  rw [others] at failed
                  cases failed
                  exact inductionHypothesis others
              | ok found =>
                  rw [others] at failed
                  cases failed
      · exact inductionHypothesis failed

theorem validateComponent_error
    {value : String}
    {error : ArchiveError}
    (failed : validateComponent value = .error error) :
    error = .invalidPath value := by
  unfold validateComponent at failed
  split at failed <;> cases failed
  rfl

theorem validateRevision_error
    {value : String}
    {error : ArchiveError}
    (failed : validateRevision value = .error error) :
    error = .invalidPath value := by
  unfold validateRevision at failed
  split at failed <;> cases failed
  rfl

theorem validateRepoId_error
    {error : ArchiveError}
    (failed : validateRepoId repoId = .error error) :
    ∃ value, error = .invalidPath value := by
  unfold validateRepoId at failed
  split at failed
  · next namespaceName name _ =>
      split at failed
      · cases failed
        exact ⟨_, rfl⟩
      · cases first : validateComponent namespaceName with
        | error errorToo =>
            rw [first] at failed
            cases failed
            exact ⟨_, validateComponent_error first⟩
        | ok _ =>
            rw [first] at failed
            cases second : validateComponent name with
            | error errorToo =>
                rw [second] at failed
                cases failed
                exact ⟨_, validateComponent_error second⟩
            | ok _ =>
                rw [second] at failed
                cases failed
  · cases failed
    exact ⟨_, rfl⟩

/-- A removal that is refused for its references has some, and each is a
regular file that names the commit. -/
theorem removeRevision_refused
    {commit : String}
    {dryRun : Bool}
    {references : List String}
    (refused : removeRevision repoId repository commit dryRun =
      .error (.referencedRevision references)) :
    references ≠ [] ∧ ∀ name ∈ references, ∃ text,
      repository.refNode name = some (.file (some text)) ∧
        Archive.trim text = commit := by
  unfold removeRevision at refused
  cases named : validateRepoId repoId with
  | error error =>
      obtain ⟨value, rfl⟩ := validateRepoId_error named
      rw [named] at refused
      cases refused
  | ok parts =>
      rw [named] at refused
      cases valid : validateRevision commit with
      | error error =>
          rw [valid, validateRevision_error valid] at refused
          cases refused
      | ok _ =>
          rw [valid] at refused
          cases present : repository.revision commit with
          | none => simp [present, bind, Except.bind] at refused
          | some revision =>
              simp only [present, bind, Except.bind] at refused
              cases found : referencesTo repository.refNode commit
                  repository.refNames with
              | error error =>
                  rw [found, referencesTo_error found] at refused
                  cases refused
              | ok references =>
                  rw [found] at refused
                  dsimp only at refused
                  split at refused
                  · next some =>
                      cases refused
                      refine ⟨some, fun name member => ?_⟩
                      rw [List.mem_insertionSort] at member
                      exact mem_referencesTo found member
                  · cases refused

end readers

/-! ## All repositories -/

theorem mapM_eq_ok
    {α β : Type}
    {visit visitToo : α → Except ArchiveError β}
    {items : List α}
    {results : List β}
    (agree : ∀ item result, visit item = .ok result →
      visitToo item = .ok result)
    (visited : items.mapM visit = .ok results) :
    items.mapM visitToo = .ok results := by
  induction items generalizing results with
  | nil => exact visited
  | cons first rest inductionHypothesis =>
      simp only [List.mapM_cons, bind_eq_ok] at visited ⊢
      obtain ⟨result, here, others, later, same⟩ := visited
      exact ⟨result, agree first result here, others,
        inductionHypothesis later, same⟩

theorem summarizeRepository_eq_ok
    {root : ArchiveRoot}
    {repoType : RepositoryType}
    {namespaceName name : String}
    {summary : RepositorySummary} :
    summarizeRepository root repoType namespaceName name = .ok summary ↔
      validateComponent name = .ok () ∧ ∃ inventory,
        repositoryInventory repoType (namespaceName ++ "/" ++ name)
          (some (root.dir repoType (namespaceName ++ "/" ++ name))) =
            .ok inventory ∧
        summary = ⟨repoType, namespaceName ++ "/" ++ name,
          inventory.revisions.length, inventory.refs.keys.card,
          (inventory.revisions.map RevisionSummary.logicalBytes).sum⟩ := by
  unfold summarizeRepository
  constructor
  · intro summed
    obtain ⟨_, valid, read⟩ := bind_eq_ok.mp summed
    obtain ⟨inventory, found, same⟩ := bind_eq_ok.mp read
    cases same
    exact ⟨valid, inventory, found, rfl⟩
  · rintro ⟨valid, inventory, found, rfl⟩
    exact bind_eq_ok.mpr ⟨(), valid, bind_eq_ok.mpr ⟨inventory, found, rfl⟩⟩

/-- The list of repositories says what the inventories say. -/
theorem listRepositories_eq_ok
    (root other : ArchiveRoot)
    {summaries : List RepositorySummary}
    (skeleton : root.namespaces = other.namespaces)
    (inventories : ∀ repoType repoId inventory,
      repositoryInventory repoType repoId
        (some (root.dir repoType repoId)) = .ok inventory →
      repositoryInventory repoType repoId
        (some (other.dir repoType repoId)) = .ok inventory)
    (listed : listRepositories root = .ok summaries) :
    listRepositories other = .ok summaries := by
  unfold listRepositories at listed ⊢
  obtain ⟨found, visited, sorted⟩ := bind_eq_ok.mp listed
  refine bind_eq_ok.mpr ⟨found, mapM_eq_ok ?_ visited, sorted⟩
  intro repoType groups visited
  rw [skeleton] at visited
  refine mapM_eq_ok ?_ visited
  intro entry group read
  obtain ⟨_, valid, each⟩ := bind_eq_ok.mp read
  refine bind_eq_ok.mpr ⟨(), valid, mapM_eq_ok ?_ each⟩
  intro name summary summed
  obtain ⟨safe, inventory, found, same⟩ := summarizeRepository_eq_ok.mp summed
  exact summarizeRepository_eq_ok.mpr
    ⟨safe, inventory, inventories _ _ _ found, same⟩

/-- The list of repositories succeeds where the inventories do. -/
theorem listRepositories_isOk
    (root other : ArchiveRoot)
    (skeleton : root.namespaces = other.namespaces)
    (inventories : ∀ repoType repoId,
      (∃ inventory, repositoryInventory repoType repoId
        (some (root.dir repoType repoId)) = .ok inventory) →
      ∃ inventory, repositoryInventory repoType repoId
        (some (other.dir repoType repoId)) = .ok inventory)
    (listed : ∃ summaries, listRepositories root = .ok summaries) :
    ∃ summaries, listRepositories other = .ok summaries := by
  obtain ⟨summaries, listed⟩ := listed
  unfold listRepositories at listed ⊢
  obtain ⟨found, visited, _⟩ := bind_eq_ok.mp listed
  have names : ∀ repoType namespaceName (names : List String),
      (∃ group, names.mapM
        (summarizeRepository root repoType namespaceName) = .ok group) →
      ∃ group, names.mapM
        (summarizeRepository other repoType namespaceName) = .ok group := by
    intro repoType namespaceName names
    refine mapM_isOk_of ?_
    rintro name ⟨summary, summed⟩
    obtain ⟨safe, inventory, found, _⟩ := summarizeRepository_eq_ok.mp summed
    obtain ⟨inventoryToo, foundToo⟩ := inventories _ _ ⟨_, found⟩
    exact ⟨_, summarizeRepository_eq_ok.mpr
      ⟨safe, inventoryToo, foundToo, rfl⟩⟩
  have groups : ∃ groups, [RepositoryType.model, .dataset].mapM
      (fun repoType => (other.namespaces repoType).mapM
        (summarizeNamespace other repoType)) = .ok groups := by
    refine mapM_isOk_of (fun repoType => ?_) ⟨found, visited⟩
    rw [skeleton]
    refine mapM_isOk_of ?_
    rintro entry ⟨group, read⟩
    obtain ⟨_, valid, each⟩ := bind_eq_ok.mp read
    obtain ⟨groupToo, eachToo⟩ := names _ _ _ ⟨group, each⟩
    exact ⟨groupToo, bind_eq_ok.mpr ⟨(), valid, eachToo⟩⟩
  obtain ⟨groups, read⟩ := groups
  exact ⟨_, bind_eq_ok.mpr ⟨groups, read, rfl⟩⟩

end ModelKeep
