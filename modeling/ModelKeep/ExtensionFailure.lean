import ModelKeep.PathSpelling

/-!
# Audits after a failed extension

An audit compares the files of a revision with its manifest, and an extension
moves its files before the manifest lists them.  Whatever a failed extension
has moved is therefore found by the next audit, unless it lies under an
internal name or repeats a listed file.
-/

namespace ModelKeep
namespace Extension

open Concurrency Program

section moves

variable {moves : List (List String × Bytes)} {place : List String}

/-- The file that was moved to a place last is what stands there, whatever
stood there before. -/
theorem afterMoves_of_mem
    (moved : ∃ move ∈ moves, move.1 = place) :
    ∃ content, ∀ node, afterMoves moves place node = some (.file content) := by
  induction moves using List.reverseRecOn with
  | nil => simp at moved
  | append_singleton rest move inductionHypothesis =>
      by_cases here : move.1 = place
      · exact ⟨move.2, fun node => by simp [here]⟩
      · have earlier : ∃ move ∈ rest, move.1 = place := by
          obtain ⟨other, member, same⟩ := moved
          rcases List.mem_append.mp member with older | last
          · exact ⟨other, older, same⟩
          · rw [List.mem_singleton] at last
            subst last
            exact absurd same here
        obtain ⟨content, stands⟩ := inductionHypothesis earlier
        exact ⟨content, fun node => by simp [here, stands]⟩

/-- Files that are moved into a tree stay there. -/
theorem Grown.lookup_of_mem
    {before after : FileTree Bytes}
    {content : Bytes}
    (grown : Grown before moves after)
    (stands : ∀ node, afterMoves moves place node = some (.file content)) :
    after.lookup place = some (.file content) := by
  rcases grown place with same | ⟨nothing, _⟩
  · rw [same, stands]
  · rw [stands] at nothing
    cases nothing

/-- Elsewhere only directories are new. -/
theorem Grown.lookup_of_notMem
    {before after : FileTree Bytes}
    (grown : Grown before moves after)
    (elsewhere : ¬∃ move ∈ moves, move.1 = place) :
    after.lookup place = before.lookup place ∨
      before.lookup place = none ∧ after.lookup place = some .directory := by
  have kept : afterMoves moves place (before.lookup place) =
      before.lookup place :=
    afterMoves_of_notMem fun move member same =>
      elsewhere ⟨move, member, same⟩
  rw [← kept]
  exact grown place

end moves

/-! ## What an audit does not notice -/

/-- An audit finds nothing wrong with the file that was moved here last: the
place is internal, or listed with this size and digest. -/
def Harmless (sha256 : Bytes → String) (manifest : Manifest)
    (moves : List (List String × Bytes)) (place : List String) : Prop :=
  isInternalArchivePath (joinPath place) = true ∨
    ∃ entry ∈ manifest.files, entry.path = joinPath place ∧
      ∀ content, afterMoves moves place none = some (.file content) →
        content.length = entry.size ∧ sha256 content = entry.sha256

/-- The manifest stands, and what was moved is harmless. -/
structure Unnoticed (sha256 : Bytes → String) (start : RevisionDir)
    (course : Course) : Prop where
  unswapped : course.swapped = false
  harmless : ∀ manifest, start.manifest = .decoded manifest →
    ∀ move ∈ course.moves, Harmless sha256 manifest course.moves move.1

variable {sha256 : Bytes → String} {repoType : RepositoryType}
  {request : RevisionExtensionRequest} {start : RevisionDir}
  {course : Course} {manifest : Manifest}

/-- The listed files are in place, or were replaced by their like. -/
theorem Unnoticed.stored
    (unnoticed : Unnoticed sha256 start course)
    (proper : Proper request start course)
    (verified : start.Verified sha256 repoType manifest)
    {entry : ManifestFile}
    (member : entry ∈ manifest.files) :
    ∃ content, course.revision.tree.lookup (splitPath entry.path) =
        some (.file content) ∧
      content.length = entry.size ∧ sha256 content = entry.sha256 := by
  obtain ⟨canonical, old, stood, sized, hashed⟩ :=
    verified.stored entry member
  by_cases moved : ∃ move ∈ course.moves, move.1 = splitPath entry.path
  · obtain ⟨content, stands⟩ := afterMoves_of_mem moved
    refine ⟨content, proper.grown.lookup_of_mem stands, ?_⟩
    obtain ⟨move, inMoves, same⟩ := moved
    have harmless := unnoticed.harmless manifest verified.read move inMoves
    rw [same, Harmless, joinPath_splitPath] at harmless
    rcases harmless with internal | ⟨listed, inFiles, samePath, alike⟩
    · rw [canonical.not_internal] at internal
      cases internal
    · -- The manifest may list the path twice, but only with one content.
      obtain ⟨_, again, stoodToo, sizedToo, hashedToo⟩ :=
        verified.stored listed inFiles
      rw [samePath, stood] at stoodToo
      cases stoodToo
      obtain ⟨length, digest⟩ := alike content (stands none)
      exact ⟨length.trans (sizedToo.symm.trans sized),
        digest.trans (hashedToo.symm.trans hashed)⟩
  · refine ⟨old, ?_, sized, hashed⟩
    rcases proper.grown.lookup_of_notMem moved with same | ⟨absent, _⟩
    · rw [same, stood]
    · rw [stood] at absent
      cases absent

/-- What stands at a place that is not internal was there before, was made a
directory, or is listed. -/
theorem Unnoticed.entry
    (unnoticed : Unnoticed sha256 start course)
    (proper : Proper request start course)
    (verified : start.Verified sha256 repoType manifest)
    {place : List String}
    (present : place ∈ course.revision.tree.paths)
    (external : isInternalArchivePath (joinPath place) = false) :
    course.revision.tree.lookup place = some .directory ∨
      ∃ content, course.revision.tree.lookup place = some (.file content) ∧
        joinPath place ∈ manifest.paths := by
  by_cases moved : ∃ move ∈ course.moves, move.1 = place
  · right
    obtain ⟨content, stands⟩ := afterMoves_of_mem moved
    refine ⟨content, proper.grown.lookup_of_mem stands, ?_⟩
    obtain ⟨move, inMoves, rfl⟩ := moved
    rcases unnoticed.harmless manifest verified.read move inMoves with
      internal | ⟨listed, inFiles, samePath, _⟩
    · rw [external] at internal
      cases internal
    · rw [← samePath]
      exact List.mem_map_of_mem inFiles
  · rcases proper.grown.lookup_of_notMem moved with same | ⟨_, directory⟩
    · obtain ⟨nonempty, stood⟩ :=
        (course.revision.tree.mem_paths_iff place).mp present
      rw [same] at stood ⊢
      have before := (start.tree.mem_paths_iff place).mpr ⟨nonempty, stood⟩
      rcases verified.ordinary place before external with
        directory | ⟨content, file⟩
      · exact Or.inl directory
      · exact Or.inr ⟨content, file,
          verified.listed place before content external file⟩
    · exact Or.inl directory

/-- An extension that goes unnoticed leaves a verified revision. -/
theorem Unnoticed.verified
    (unnoticed : Unnoticed sha256 start course)
    (proper : Proper request start course)
    (verified : start.Verified sha256 repoType manifest) :
    course.revision.Verified sha256 repoType manifest where
  read := (proper.unswapped unnoticed.unswapped).trans verified.read
  typed := verified.typed
  complete := verified.complete
  stored := fun entry member =>
    ⟨(verified.stored entry member).1,
      unnoticed.stored proper verified member⟩
  ordinary := by
    intro place present external
    rcases unnoticed.entry proper verified present external with
      directory | ⟨content, file, _⟩
    · exact Or.inl directory
    · exact Or.inr ⟨content, file⟩
  listed := by
    intro place present content external file
    rcases unnoticed.entry proper verified present external with
      directory | ⟨_, _, listed⟩
    · rw [file] at directory
      cases directory
    · exact listed

/-- A verified revision with as many files as before was not noticeably
extended. -/
theorem Proper.unnoticed
    (proper : Proper request start course)
    (read : start.manifest = .decoded manifest)
    {live : Manifest}
    (verified : course.revision.Verified sha256 repoType live)
    (count : live.files.length = manifest.files.length) :
    Unnoticed sha256 start course := by
  have unswapped : course.swapped = false := by
    by_contra swapped
    rw [Bool.not_eq_false] at swapped
    obtain ⟨some, old, new, readOld, readNew, longer⟩ := proper.swapped swapped
    cases read.symm.trans readOld
    cases verified.read.symm.trans readNew
    rw [← List.length_pos_iff] at some
    omega
  have same := (proper.unswapped unswapped).trans read
  cases verified.read.symm.trans same
  refine ⟨unswapped, ?_⟩
  intro other readOther move inMoves
  cases read.symm.trans readOther
  obtain ⟨content, stands⟩ := afterMoves_of_mem ⟨move, inMoves, rfl⟩
  have file := proper.grown.lookup_of_mem stands
  by_cases internal : isInternalArchivePath (joinPath move.1) = true
  · exact Or.inl internal
  · right
    have present : move.1 ∈ course.revision.tree.paths := by
      apply (course.revision.tree.mem_paths_iff _).mpr
      refine ⟨?_, by rw [file]; rfl⟩
      intro root
      rw [root, FileTree.lookup_nil] at file
      cases file
    have listed := verified.listed move.1 present content
      (by simpa using internal) file
    obtain ⟨entry, member, samePath⟩ := List.mem_map.mp listed
    refine ⟨entry, member, samePath, ?_⟩
    intro moved standsToo
    cases (stands none).symm.trans standsToo
    obtain ⟨_, found, stored, sized, hashed⟩ := verified.stored entry member
    rw [samePath, RevisionDir.splitPath_joinPath_of_mem present, file]
      at stored
    cases stored
    exact ⟨sized, hashed⟩

/-- The audit of what an extension leaves, wherever it stopped. -/
theorem Proper.verifyRevision_iff
    (proper : Proper request start course)
    {count : Nat}
    (healthy : start.verifyRevision sha256 repoType = .ok count) :
    course.revision.verifyRevision sha256 repoType = .ok count ↔
      Unnoticed sha256 start course := by
  obtain ⟨manifest, verified, rfl⟩ :=
    RevisionDir.verifyRevision_eq_ok.mp healthy
  rw [RevisionDir.verifyRevision_eq_ok]
  constructor
  · rintro ⟨live, verifiedToo, same⟩
    exact proper.unnoticed verified.read verifiedToo same.symm
  · intro unnoticed
    exact ⟨manifest, unnoticed.verified proper verified, rfl⟩

/-- Nothing was moved. -/
theorem Proper.unnoticed_of_nil
    (proper : Proper request start course)
    (nothing : course.moves = []) :
    Unnoticed sha256 start course := by
  refine ⟨?_, by simp [nothing]⟩
  by_contra swapped
  rw [Bool.not_eq_false] at swapped
  exact (proper.swapped swapped).1 nothing

/-- Files with plain paths are noticed. -/
theorem Proper.unnoticed_iff
    (proper : Proper request start course)
    (canonical : ∀ path ∈ request.files, CanonicalPath path) :
    Unnoticed sha256 start course ↔ course.moves = [] := by
  refine ⟨?_, proper.unnoticed_of_nil⟩
  intro unnoticed
  apply List.eq_nil_iff_forall_not_mem.mpr
  intro move inMoves
  obtain ⟨path, requested, leads, manifest, read, unlisted⟩ :=
    proper.requested move inMoves
  have plain := canonical path requested
  rw [plain.filePlace_eq] at leads
  have same : joinPath move.1 = path := by
    rw [← Option.some.inj leads, joinPath_splitPath]
  rcases unnoticed.harmless manifest read move inMoves with
    internal | ⟨entry, member, samePath, _⟩
  · rw [same, plain.not_internal] at internal
    cases internal
  · rw [← same, ← samePath] at unlisted
    exact unlisted (List.mem_map_of_mem member)

/-! ## A failure between two renames -/

/-- A revision with the one file `a`. -/
def auditedRevision : RevisionDir where
  manifest := .decoded {
    complete := true
    repoType := .model
    repoId := "org/model"
    requestedRevision := "a"
    files := [⟨"a", 1, "digest"⟩] }
  upstreamFiles := .missing
  tree := (FileTree.empty.createFile ["a"] [1]).getD default

/-- The second path needs a directory where the file `a` is. -/
def clashingRequest : RevisionExtensionRequest :=
  ⟨"org/model", "a", ["b", "a/x"]⟩

/-- How the extension ends. -/
def clashed : Except ArchiveError RevisionExtension × Logged :=
  (extendRevision (fun _ => "digest") .model clashingRequest).run.run
    (logStep (soloStep .model (fun _ => .ok [2]) ()))
    (.still auditedRevision, [])

theorem runs_clashed :
    Runs (logged (exec .model ()))
      (extendRevision (fun _ => "digest") .model clashingRequest).run
      (.still auditedRevision, []) clashed.1 clashed.2 :=
  runs_logged_run
    (exec_soloStep .model (fun _ => .ok [2]) ()) _ _

theorem auditedRevision_healthy :
    auditedRevision.verifyRevision (fun _ => "digest") .model = .ok 1 := by
  decide +kernel

theorem clashed_fails : clashed.1 = .error (.io .notADirectory) := by
  decide +kernel

/-- When the audit of a revision is unchanged by a failed extension: at any
rate when nothing was moved, for plain paths only then, and for all requests
that do not name the manifest when nothing shows. -/
theorem audit_after_failure
    {count : Nat}
    {error : ArchiveError}
    {state : Logged}
    (sha256 : Bytes → String)
    (repoType : RepositoryType)
    (request : RevisionExtensionRequest)
    (start : RevisionDir)
    (healthy : start.verifyRevision sha256 repoType = .ok count)
    (run : Runs (logged (exec repoType ()))
      (extendRevision sha256 repoType request).run (.still start, [])
      (.error error) state) :
    (moves state.2 = [] →
      state.1.revision.verifyRevision sha256 repoType = .ok count) ∧
    ((∀ path ∈ request.files, CanonicalPath path) →
      (state.1.revision.verifyRevision sha256 repoType = .ok count ↔
        moves state.2 = [])) ∧
    ((∀ path ∈ request.files, filePlace path ≠ some manifestPlace) →
      (state.1.revision.verifyRevision sha256 repoType = .ok count ↔
        Unnoticed sha256 start (courseOf state))) := by
  have proper : Proper request start (courseOf state) :=
    ((guards_extendRevision sha256 repoType request start).of_runs run).1
  have exact := proper.verifyRevision_iff healthy
  refine ⟨fun nothing => exact.mpr (proper.unnoticed_of_nil nothing), ?_,
    fun _ => exact⟩
  intro canonical
  exact exact.trans (proper.unnoticed_iff canonical)

theorem audit_after_failure_sample :
    clashed.2.1.revision.verifyRevision (fun _ => "digest") .model = .ok 1 ↔
      moves clashed.2.2 = [] := by
  have run := runs_clashed
  rw [clashed_fails] at run
  apply (audit_after_failure (fun _ => "digest") .model clashingRequest
    auditedRevision auditedRevision_healthy run).2.1
  intro path requested
  simp only [clashingRequest, List.mem_cons, List.not_mem_nil, or_false]
    at requested
  rcases requested with rfl | rfl <;>
    exact ⟨by decide +kernel, by decide +kernel⟩

/-- A failed extension may spoil an audit. -/
theorem audit_spoiled :
    auditedRevision.verifyRevision (fun _ => "digest") .model = .ok 1 ∧
    Runs (logged (exec .model ()))
      (extendRevision (fun _ => "digest") .model clashingRequest).run
      (.still auditedRevision, []) (.error (.io .notADirectory)) clashed.2 ∧
    clashed.2.1.revision.verifyRevision (fun _ => "digest") .model =
      .error (.integrityMismatch "manifest file set differs") := by
  refine ⟨auditedRevision_healthy, ?_, by decide +kernel⟩
  rw [← clashed_fails]
  exact runs_clashed

end Extension

end ModelKeep
