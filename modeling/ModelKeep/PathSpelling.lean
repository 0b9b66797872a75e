import ModelKeep.ExtensionFaults

/-!
# Spellings of archive paths

A path is compared as a string and followed as its named components, so one
file has many accepted spellings: empty and `.` components may stand anywhere
in them.  The internal names are recognised by the first component of the
string, which a `.` in front of it hides.
-/

namespace ModelKeep

/-- Joined to the revision directory the two lead to the same file. -/
def SameFile (first second : String) : Prop :=
  ∃ place, filePlace first = some place ∧ filePlace second = some place

/-- The empty and `.` components of a path, and where they stand. -/
def spelling (path : String) : List (Option String) :=
  (splitPath path).map fun component =>
    if component = "" ∨ component = "." then some component else none

theorem filePlace_eq_some
    {path : String}
    {place : List String}
    (leads : filePlace path = some place) :
    plainComponents path = place := by
  unfold filePlace at leads
  split at leads
  · cases leads
  · split at leads
    · cases leads
    · exact Option.some.inj leads

/-- Components are told by what is named and how it is spelled. -/
theorem eq_of_plain_of_spelling
    {first second : List String}
    (plain : first.filter (fun component =>
        component ≠ "" ∧ component ≠ ".") =
      second.filter fun component => component ≠ "" ∧ component ≠ ".")
    (spelled : (first.map fun component =>
        if component = "" ∨ component = "." then some component else none) =
      second.map fun component =>
        if component = "" ∨ component = "." then some component else none) :
    first = second := by
  induction first generalizing second with
  | nil =>
      cases second with
      | nil => rfl
      | cons name rest => simp at spelled
  | cons name rest inductionHypothesis =>
      cases second with
      | nil => simp at spelled
      | cons nameToo restToo =>
          simp only [List.map_cons, List.cons.injEq] at spelled
          obtain ⟨head, tail⟩ := spelled
          by_cases blank : name = "" ∨ name = "."
          · by_cases blankToo : nameToo = "" ∨ nameToo = "."
            · rw [if_pos blank, if_pos blankToo] at head
              cases head
              rw [List.filter_cons_of_neg (by simpa [← not_or] using blank),
                List.filter_cons_of_neg (by simpa [← not_or] using blank)]
                at plain
              rw [inductionHypothesis plain tail]
            · rw [if_pos blank, if_neg blankToo] at head
              cases head
          · by_cases blankToo : nameToo = "" ∨ nameToo = "."
            · rw [if_neg blank, if_pos blankToo] at head
              cases head
            · rw [List.filter_cons_of_pos (by simpa [← not_or] using blank),
                List.filter_cons_of_pos
                  (by simpa [← not_or] using blankToo)] at plain
              simp only [List.cons.injEq] at plain
              rw [plain.1, inductionHypothesis plain.2 tail]

/-- Two spellings of one file are equal when they have the same empty and `.`
components. -/
theorem SameFile.eq_iff
    {first second : String}
    (same : SameFile first second) :
    first = second ↔ spelling first = spelling second := by
  constructor
  · rintro rfl
    rfl
  · intro spelled
    obtain ⟨place, leads, leadsToo⟩ := same
    apply splitPath_injective
    refine eq_of_plain_of_spelling ?_ spelled
    exact (filePlace_eq_some leads).trans (filePlace_eq_some leadsToo).symm

/-! ## Internal files -/

/-- A top-level entry that starts with `.modelkeep-`, or anything under
`.cache`. -/
def InternalPlace (place : List String) : Prop :=
  (∃ name below, place = name :: below ∧
    startsWith name ".modelkeep-" = true) ∨ ".cache" ∈ place

/-- What an accepted path is not. -/
theorem accepted_iff {path : String} :
    validateRelativeFilePath path = .ok () ↔
      path ≠ "" ∧ startsWith path "/" = false ∧
        isInternalArchivePath path = false ∧
        path.toList.any isControl = false ∧ ".." ∉ splitPath path := by
  unfold validateRelativeFilePath
  split
  · next refused =>
      simp only [reduceCtorEq, false_iff]
      rintro ⟨nonempty, relative, external, plain, inside⟩
      simp [nonempty, relative, external, plain, inside] at refused
  · next accepted =>
      simp only [not_or, Bool.not_eq_true] at accepted
      simpa using accepted

/-- An accepted path does not begin with an empty component. -/
theorem head_ne_empty
    {path : String}
    (valid : validateRelativeFilePath path = .ok ()) :
    (splitPath path).head? ≠ some "" := by
  obtain ⟨nonempty, relative, _⟩ := accepted_iff.mp valid
  intro empty
  have text : path.toList ≠ [] := by
    intro none
    apply nonempty
    apply String.toList_injective
    simpa using none
  cases characters : path.toList with
  | nil => exact text characters
  | cons character rest =>
      unfold splitPath at empty
      rw [characters, List.splitOn_cons_eq_if_modifyHead] at empty
      split at empty
      · next slash =>
          unfold startsWith at relative
          rw [characters] at relative
          have same : character = '/' := by simpa using slash
          subst same
          simp at relative
      · cases pieces : rest.splitOn '/' with
        | nil => exact absurd pieces (List.splitOn_ne_nil '/' rest)
        | cons piece pieces' =>
            rw [pieces] at empty
            simp at empty

/-- An accepted path leads to an internal file exactly when a `.` component
hides the name. -/
theorem internalPlace_iff
    {path : String}
    {place : List String}
    (valid : validateRelativeFilePath path = .ok ())
    (leads : filePlace path = some place) :
    InternalPlace place ↔ (splitPath path).head? = some "." ∧
      ∃ name below, place = name :: below ∧
        startsWith name ".modelkeep-" = true := by
  have plain := filePlace_eq_some leads
  obtain ⟨_, _, external, _, _⟩ := accepted_iff.mp valid
  unfold isInternalArchivePath at external
  constructor
  · intro internal
    cases pieces : splitPath path with
    | nil => exact absurd pieces (splitPath_ne_nil path)
    | cons first rest =>
        rw [pieces] at external
        simp only [Bool.or_eq_false_iff, beq_eq_false_iff_ne,
          List.any_eq_false] at external
        obtain ⟨⟨shown, notCache⟩, others⟩ := external
        rcases internal with ⟨name, below, rfl, hidden⟩ | cached
        · refine ⟨?_, name, below, rfl, hidden⟩
          unfold plainComponents at plain
          rw [pieces] at plain
          by_cases blank : first = "" ∨ first = "."
          · rcases blank with rfl | rfl
            · exact absurd (by rw [pieces]; rfl) (head_ne_empty valid)
            · rfl
          · rw [List.filter_cons_of_pos (by simpa [← not_or] using blank)]
              at plain
            cases plain
            rw [shown] at hidden
            cases hidden
        · rw [← plain, plainComponents, List.mem_filter, pieces] at cached
          rcases List.mem_cons.mp cached.1 with same | later
          · exact absurd same.symm notCache
          · exact absurd (by simp) (others ".cache" later)
  · rintro ⟨_, hidden⟩
    exact Or.inl hidden

/-! ## What an extension overwrites -/

/-- `.modelkeep-manifest.json`. -/
def manifestPlace : List String := [".modelkeep-manifest.json"]

namespace Extension

open Concurrency Program

/-- A file was renamed onto the place of a listed path or of the manifest. -/
def Overwrites (start : RevisionDir) (course : Course) : Prop :=
  ∃ move ∈ course.moves, move.1 = manifestPlace ∨
    ∃ manifest, start.manifest = .decoded manifest ∧
      ∃ listed ∈ manifest.paths, filePlace listed = some move.1

/-- The path is not listed, and is another spelling of a listed path or of the
manifest. -/
def Respells (manifest : Manifest) (path : String) : Prop :=
  path ∉ manifest.paths ∧ (filePlace path = some manifestPlace ∨
    ∃ listed ∈ manifest.paths, SameFile path listed)

/-- None of the requested paths is such a spelling. -/
def PlainlySpelled (request : RevisionExtensionRequest)
    (start : RevisionDir) : Prop :=
  ∀ manifest, start.manifest = .decoded manifest →
    ∀ path ∈ request.files, ¬Respells manifest path

/-- The bytes of the listed files are what they were. -/
def KeepsListed (start : RevisionDir) (course : Course) : Prop :=
  ∀ manifest, start.manifest = .decoded manifest →
    ∀ listed ∈ manifest.paths, ∀ place content,
      filePlace listed = some place →
        start.tree.lookup place = some (.file content) →
          course.revision.tree.lookup place = some (.file content)

variable {request : RevisionExtensionRequest} {start : RevisionDir}
  {course : Course}

theorem Proper.not_overwrites
    (proper : Proper request start course)
    (spelled : PlainlySpelled request start) :
    ¬Overwrites start course := by
  rintro ⟨move, member, onto⟩
  obtain ⟨path, requested, leads, manifest, read, unlisted⟩ :=
    proper.requested move member
  apply spelled manifest read path requested
  refine ⟨unlisted, ?_⟩
  rcases onto with same | ⟨again, readAgain, listed, inPaths, leadsToo⟩
  · exact Or.inl (by rw [leads, same])
  · cases read.symm.trans readAgain
    exact Or.inr ⟨listed, inPaths, move.1, leads, leadsToo⟩

/-- A place that no file was moved to is as it was. -/
theorem afterMoves_of_notMem
    {moves : List (List String × Bytes)}
    {place : List String}
    {node : Option (FileNode Bytes)}
    (elsewhere : ∀ move ∈ moves, move.1 ≠ place) :
    afterMoves moves place node = node := by
  induction moves generalizing node with
  | nil => rfl
  | cons move rest inductionHypothesis =>
      rw [List.forall_mem_cons] at elsewhere
      unfold afterMoves at inductionHypothesis ⊢
      rw [List.foldl_cons, if_neg elsewhere.1]
      exact inductionHypothesis elsewhere.2

theorem Proper.keepsListed
    (proper : Proper request start course)
    (kept : ¬Overwrites start course) :
    KeepsListed start course := by
  intro manifest read listed inPaths place content leads stands
  have elsewhere : ∀ move ∈ course.moves, move.1 ≠ place := by
    intro move member same
    subst same
    exact kept ⟨move, member, Or.inr ⟨manifest, read, listed, inPaths, leads⟩⟩
  rcases proper.grown place with same | ⟨nothing, _⟩
  · rw [same, afterMoves_of_notMem elsewhere, stands]
  · rw [afterMoves_of_notMem elsewhere, stands] at nothing
    cases nothing

/-- A completed extension has overwritten whatever it was asked to under
another spelling. -/
theorem Completes.overwrites
    (completes : Completes request start course)
    {manifest : Manifest}
    {path : String}
    (read : start.manifest = .decoded manifest)
    (requested : path ∈ request.files)
    (respells : Respells manifest path) :
    Overwrites start course := by
  obtain ⟨again, readAgain, moved⟩ := completes.moved
  cases read.symm.trans readAgain
  obtain ⟨unlisted, onto⟩ := respells
  have among : filePlace path ∈
      course.moves.map fun move => some move.1 := by
    rw [moved]
    apply List.mem_map_of_mem (f := filePlace)
    simp [requested, unlisted]
  obtain ⟨move, member, leads⟩ := List.mem_map.mp among
  refine ⟨move, member, ?_⟩
  rcases onto with same | ⟨listed, inPaths, place, first, second⟩
  · left
    rw [← leads] at same
    exact Option.some.inj same
  · right
    rw [← leads] at first
    cases first
    exact ⟨manifest, read, listed, inPaths, second⟩

/-- Which accepted paths are ambiguous, which of them are internal, and which
extensions overwrite what is listed. -/
theorem path_spellings
    (first second : String)
    (place : List String)
    (sha256 : Bytes → String)
    (repoType : RepositoryType)
    (request : RevisionExtensionRequest)
    (start : RevisionDir) :
    (validateRelativeFilePath first = .ok () →
      validateRelativeFilePath second = .ok () → SameFile first second →
        (first = second ↔ spelling first = spelling second)) ∧
    (validateRelativeFilePath first = .ok () →
      filePlace first = some place →
        (InternalPlace place ↔ (splitPath first).head? = some "." ∧
          ∃ name below, place = name :: below ∧
            startsWith name ".modelkeep-" = true)) ∧
    (∀ state, Cut (logged (exec repoType ()))
        (extendRevision sha256 repoType request).run (.still start, [])
        state →
      PlainlySpelled request start →
        ¬Overwrites start (courseOf state) ∧
          KeepsListed start (courseOf state)) ∧
    ∀ extension state, Runs (logged (exec repoType ()))
        (extendRevision sha256 repoType request).run (.still start, [])
        (.ok extension) state →
      (¬Overwrites start (courseOf state) ↔
        PlainlySpelled request start) := by
  refine ⟨fun _ _ same => same.eq_iff, internalPlace_iff, ?_⟩
  have guards := guards_extendRevision sha256 repoType request start
  constructor
  · intro state cut spelled
    have proper := guards.of_cut cut
    have kept := proper.not_overwrites spelled
    exact ⟨kept, proper.keepsListed kept⟩
  · intro extension state run
    obtain ⟨proper, completes⟩ := guards.of_runs run
    constructor
    · intro kept manifest read path requested respells
      exact kept ((completes extension rfl).overwrites read requested respells)
    · exact proper.not_overwrites

/-! ## A listed file that is overwritten -/

/-- A revision that lists `d/b`. -/
def listedRevision : RevisionDir where
  manifest := .decoded {
    complete := true
    repoType := .model
    repoId := "org/model"
    requestedRevision := "a"
    files := [⟨"d/b", 1, "old"⟩] }
  upstreamFiles := .missing
  tree := ((FileTree.empty.makeDirectories ["d"]).bind
    (·.createFile ["d", "b"] [1])).getD default

def respelledRequest : RevisionExtensionRequest :=
  ⟨"org/model", "a", ["d//b"]⟩

/-- What an extension by `d//b` leaves. -/
def respelled : RevisionDir :=
  (extendAlone (fun _ => "new") .model respelledRequest
    (fun _ => .ok [2]) listedRevision).2

/-- Accepted paths have other spellings, an accepted path may lead to the
manifest, and an extension may overwrite a listed file. -/
theorem spellings_ambiguous :
    (validateRelativeFilePath "d/b" = .ok () ∧
      validateRelativeFilePath "d//b" = .ok () ∧
      SameFile "d/b" "d//b" ∧ "d/b" ≠ "d//b") ∧
    (validateRelativeFilePath "./.modelkeep-manifest.json" = .ok () ∧
      filePlace "./.modelkeep-manifest.json" = some manifestPlace ∧
      InternalPlace manifestPlace) ∧
    ("d//b" ∈ respelledRequest.files ∧
      (∀ manifest, listedRevision.manifest = .decoded manifest →
        "d//b" ∉ manifest.paths ∧ "d/b" ∈ manifest.paths) ∧
      listedRevision.tree.lookup ["d", "b"] = some (.file [1]) ∧
      respelled.tree.lookup ["d", "b"] = some (.file [2])) := by
  refine ⟨⟨?_, ?_, ⟨["d", "b"], ?_, ?_⟩, ?_⟩, ⟨?_, ?_, Or.inl ?_⟩,
    ?_, ?_, ?_, ?_⟩
  case refine_8 =>
    exact ⟨".modelkeep-manifest.json", [], rfl, by decide +kernel⟩
  case refine_10 =>
    intro manifest read
    simp only [listedRevision, Stored.decoded.injEq] at read
    subst read
    simp [Manifest.paths]
  all_goals decide +kernel

end Extension

end ModelKeep
