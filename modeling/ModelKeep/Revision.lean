import Mathlib.Data.Finset.Dedup
import ModelKeep.FileTree
import ModelKeep.Names

/-!
# Published revisions

A revision is a directory with a manifest, an optional record of what upstream
listed, and the archived files.  The manifest and the record are modelled as
the JSON decoder returns them; the tree holds everything else.  SHA-256 is a
parameter, since no result depends on what it computes.
-/

namespace ModelKeep

/-- One entry of a manifest. -/
structure ManifestFile where
  path : String
  size : Nat
  sha256 : String
  deriving DecidableEq

structure Manifest where
  complete : Bool
  repoType : RepositoryType
  repoId : String
  requestedRevision : String
  files : List ManifestFile
  deriving DecidableEq

/-- The paths a manifest lists. -/
def Manifest.paths (manifest : Manifest) : List String :=
  manifest.files.map ManifestFile.path

/-- The upstream file list of one commit; of its entries only the paths are
ever compared. -/
structure UpstreamFileList where
  repoType : RepositoryType
  repoId : String
  commit : String
  files : List String
  deriving DecidableEq

/-- A JSON file as its reader finds it. -/
inductive Stored (α : Type)
  | missing
  | unreadable (message : String)
  | decoded (value : α)
  deriving DecidableEq

/-- A directory below `revisions`. -/
structure RevisionDir where
  manifest : Stored Manifest
  upstreamFiles : Stored UpstreamFileList
  tree : FileTree Bytes

/-- Where an archived file is, with its size and recorded digest. -/
structure ResolvedFile where
  path : List String
  size : Nat
  sha256 : String
  deriving DecidableEq

namespace RevisionDir

/-- `ensure_manifest_type`. -/
def ensureManifestType (repoType : RepositoryType) (manifest : Manifest) :
    Except ArchiveError Unit :=
  if manifest.repoType ≠ repoType then
    .error (.integrityMismatch
      ("manifest repository type " ++ manifest.repoType.display ++
        " does not match archive root " ++ repoType.display))
  else
    .ok ()

/-- `read_manifest_for`. -/
def readManifestFor (repoType : RepositoryType) (revision : RevisionDir) :
    Except ArchiveError Manifest :=
  match revision.manifest with
  | .missing => .error (.io .notFound)
  | .unreadable message => .error (.integrityMismatch message)
  | .decoded manifest => do
      ensureManifestType repoType manifest
      return manifest

/-- `is_complete_revision_for_type`. -/
def isComplete (repoType : RepositoryType) (revision : RevisionDir) :
    Except ArchiveError Bool := do
  return (← revision.readManifestFor repoType).complete

/-- `resolve_file_for_type` below a revision.  A path that cannot be followed
is reported as not found, whatever the system calls it. -/
def resolveFile
    (repoType : RepositoryType)
    (revision : RevisionDir)
    (relativePath : String) :
    Except ArchiveError ResolvedFile := do
  validateRelativeFilePath relativePath
  let manifest ← revision.readManifestFor repoType
  if manifest.complete = false then
    .error (.integrityMismatch "revision is not complete")
  else
    match manifest.files.find? (·.path = relativePath) with
    | none => .error (.io .notFound)
    | some entry =>
        match revision.tree.canonicalize (splitPath relativePath) with
        | none => .error (.io .notFound)
        | some candidate =>
            match revision.tree.lookup candidate with
            | some (.file content) =>
                .ok ⟨candidate, content.length, entry.sha256⟩
            | _ => .error (.io .notFound)

/-- What an entry of the tree contributes to `collect_revision_files`.  An
internal entry, and with it all that is below it, contributes nothing. -/
inductive Collected
  | skipped
  | directory
  | file (path : String)
  | refused

/-- One step of the listing. -/
def collectEntry (tree : FileTree Bytes) (path : List String) : Collected :=
  let relative := joinPath path
  if isInternalArchivePath relative then
    .skipped
  else
    match tree.lookup path with
    | some .directory => .directory
    | some (.file _) =>
        match validateRelativeFilePath relative with
        | .ok () => .file relative
        | .error _ => .refused
    | _ => .refused

/-- `collect_revision_files`: the files a manifest has to list, or nothing if
an entry is refused.  Which entry an error names depends on the order of the
listing. -/
def collectRevisionFiles (tree : FileTree Bytes) :
    Option (Finset String) :=
  if ∃ path ∈ tree.paths,
      (match collectEntry tree path with
        | .refused => true
        | _ => false) = true then
    none
  else
    some ((tree.paths.filter fun path =>
      (match collectEntry tree path with
        | .file _ => true
        | _ => false) = true).image joinPath)

/-- `sha256_file` of a resolved file. -/
def sha256File
    (sha256 : Bytes → String)
    (revision : RevisionDir)
    (resolved : ResolvedFile) :
    Except ArchiveError String :=
  match revision.tree.lookup resolved.path with
  | some (.file content) => .ok (sha256 content)
  | _ => .error (.io .notFound)

/-- The loop of `verify_revision_inner`, which counts the entries. -/
def verifyEntries
    (sha256 : Bytes → String)
    (repoType : RepositoryType)
    (revision : RevisionDir) :
    List ManifestFile → Nat → Except ArchiveError Nat
  | [], verified => .ok verified
  | entry :: rest, verified => do
      let resolved ← revision.resolveFile repoType entry.path
      if resolved.size ≠ entry.size then
        .error (.integrityMismatch entry.path)
      else do
        let digest ← revision.sha256File sha256 resolved
        if digest ≠ entry.sha256 then
          .error (.integrityMismatch entry.path)
        else
          verifyEntries sha256 repoType revision rest (verified + 1)

/-- `verify_revision_for_type` below a revision. -/
def verifyRevision
    (sha256 : Bytes → String)
    (repoType : RepositoryType)
    (revision : RevisionDir) :
    Except ArchiveError Nat := do
  let manifest ← revision.readManifestFor repoType
  if manifest.complete = false then
    .error (.integrityMismatch "revision is not complete")
  else do
    let verified ← revision.verifyEntries sha256 repoType manifest.files 0
    match collectRevisionFiles revision.tree with
    | none => .error (.integrityMismatch "unexpected entry")
    | some actual =>
        if actual ≠ manifest.paths.toFinset then
          .error (.integrityMismatch "manifest file set differs")
        else
          .ok verified

/-! ## When the reads succeed -/

variable {repoType : RepositoryType} {revision : RevisionDir}

theorem readManifestFor_eq_ok {manifest : Manifest} :
    revision.readManifestFor repoType = .ok manifest ↔
      revision.manifest = .decoded manifest ∧
        manifest.repoType = repoType := by
  unfold readManifestFor ensureManifestType
  cases revision.manifest with
  | missing => simp
  | unreadable message => simp
  | decoded found =>
      dsimp only
      rw [bind_eq_ok]
      constructor
      · rintro ⟨_, typed, same⟩
        split at typed
        · cases typed
        · next right =>
            cases same
            exact ⟨rfl, not_not.mp right⟩
      · rintro ⟨same, typed⟩
        cases same
        exact ⟨(), if_neg (not_not.mpr typed), rfl⟩

/-- Every way a file can be resolved. -/
theorem resolveFile_eq_ok
    {relativePath : String}
    {resolved : ResolvedFile} :
    revision.resolveFile repoType relativePath = .ok resolved ↔
      validateRelativeFilePath relativePath = .ok () ∧
        ∃ manifest entry candidate content,
          revision.readManifestFor repoType = .ok manifest ∧
          manifest.complete = true ∧
          manifest.files.find? (·.path = relativePath) = some entry ∧
          revision.tree.canonicalize (splitPath relativePath) =
            some candidate ∧
          revision.tree.lookup candidate = some (.file content) ∧
          resolved = ⟨candidate, content.length, entry.sha256⟩ := by
  unfold resolveFile
  constructor
  · intro found
    obtain ⟨_, valid, found⟩ := bind_eq_ok.mp found
    obtain ⟨manifest, read, found⟩ := bind_eq_ok.mp found
    refine ⟨valid, manifest, ?_⟩
    split at found
    · cases found
    · next complete =>
        split at found
        · cases found
        · next entry listed =>
            split at found
            · cases found
            · next candidate placed =>
                split at found
                · next content stands =>
                    cases found
                    exact ⟨entry, candidate, content, read,
                      by simpa using complete, listed, placed, stands, rfl⟩
                · cases found
  · rintro ⟨valid, manifest, entry, candidate, content, read, complete,
      listed, placed, stands, rfl⟩
    refine bind_eq_ok.mpr ⟨(), valid, bind_eq_ok.mpr ⟨manifest, read, ?_⟩⟩
    rw [if_neg (by simp [complete])]
    simp only [listed, placed, stands]

theorem verifyEntries_eq_ok
    {sha256 : Bytes → String}
    {entries : List ManifestFile}
    {start count : Nat} :
    revision.verifyEntries sha256 repoType entries start = .ok count ↔
      count = start + entries.length ∧
        ∀ entry ∈ entries, ∃ resolved,
          revision.resolveFile repoType entry.path = .ok resolved ∧
          resolved.size = entry.size ∧
          revision.sha256File sha256 resolved = .ok entry.sha256 := by
  induction entries generalizing start with
  | nil =>
      simp only [verifyEntries, Except.ok.injEq, List.length_nil,
        List.not_mem_nil, false_implies, implies_true, and_true]
      omega
  | cons entry rest inductionHypothesis =>
      rw [verifyEntries, bind_eq_ok]
      constructor
      · rintro ⟨resolved, found, checked⟩
        split at checked
        · cases checked
        · next sized =>
            obtain ⟨digest, hashed, checked⟩ := bind_eq_ok.mp checked
            split at checked
            · cases checked
            · next matched =>
                rw [not_not] at sized matched
                subst matched
                obtain ⟨counted, others⟩ := inductionHypothesis.mp checked
                refine ⟨by rw [counted, List.length_cons]; omega, ?_⟩
                intro other member
                rcases List.mem_cons.mp member with same | later
                · subst same
                  exact ⟨resolved, found, sized, hashed⟩
                · exact others other later
      · rintro ⟨counted, all⟩
        obtain ⟨resolved, found, sized, hashed⟩ := all entry (by simp)
        refine ⟨resolved, found, ?_⟩
        rw [if_neg (not_not.mpr sized)]
        refine bind_eq_ok.mpr ⟨entry.sha256, hashed, ?_⟩
        rw [if_neg (not_not.mpr rfl)]
        apply inductionHypothesis.mpr
        refine ⟨by rw [counted, List.length_cons]; omega, ?_⟩
        exact fun other later => all other (List.mem_cons_of_mem _ later)

theorem collectEntry_file
    {tree : FileTree Bytes}
    {path : List String}
    {value : String} :
    collectEntry tree path = .file value ↔
      joinPath path = value ∧ isInternalArchivePath value = false ∧
        validateRelativeFilePath value = .ok () ∧
        ∃ content, tree.lookup path = some (.file content) := by
  unfold collectEntry
  dsimp only
  split
  · next internal =>
      simp only [reduceCtorEq, false_iff]
      rintro ⟨rfl, external, _⟩
      rw [internal] at external
      cases external
  · next external =>
      split
      · next directory => simp [directory]
      · next content stands =>
          split
          · next valid =>
              simp only [Collected.file.injEq]
              constructor
              · rintro rfl
                exact ⟨rfl, by simpa using external, valid, content, stands⟩
              · rintro ⟨same, _⟩
                exact same
          · next error invalid =>
              simp only [reduceCtorEq, false_iff]
              rintro ⟨rfl, _, valid, _⟩
              rw [invalid] at valid
              cases valid
      · next notDirectory notFile =>
          simp only [reduceCtorEq, false_iff]
          rintro ⟨_, _, _, content, stands⟩
          exact notFile content stands

theorem collectRevisionFiles_eq_some
    {tree : FileTree Bytes}
    {files : Finset String} :
    collectRevisionFiles tree = some files ↔
      (∀ path ∈ tree.paths, collectEntry tree path ≠ .refused) ∧
        ∀ value, value ∈ files ↔
          ∃ path ∈ tree.paths, collectEntry tree path = .file value := by
  unfold collectRevisionFiles
  have members : ∀ value,
      value ∈ (tree.paths.filter fun path =>
        (match collectEntry tree path with
          | .file _ => true
          | _ => false) = true).image joinPath ↔
        ∃ path ∈ tree.paths, collectEntry tree path = .file value := by
    intro value
    simp only [Finset.mem_image, Finset.mem_filter]
    constructor
    · rintro ⟨path, ⟨member, isFile⟩, rfl⟩
      refine ⟨path, member, ?_⟩
      split at isFile
      · next value collected =>
          rw [collected]
          rw [(collectEntry_file.mp collected).1]
      · cases isFile
    · rintro ⟨path, member, collected⟩
      refine ⟨path, ⟨member, by rw [collected]⟩, ?_⟩
      exact (collectEntry_file.mp collected).1
  split
  · next refused =>
      simp only [reduceCtorEq, false_iff]
      rintro ⟨accepted, _⟩
      obtain ⟨path, member, isRefused⟩ := refused
      apply accepted path member
      split at isRefused
      · assumption
      · cases isRefused
  · next accepted =>
      simp only [Option.some.injEq]
      constructor
      · rintro rfl
        refine ⟨?_, members⟩
        intro path member isRefused
        exact accepted ⟨path, member, by rw [isRefused]⟩
      · rintro ⟨_, characterized⟩
        ext value
        rw [members, characterized]

/-! ## Verified revisions -/

/-- The manifest is complete, every entry is in place under its own name, and
only files and directories are about. -/
structure Stocked
    (sha256 : Bytes → String)
    (repoType : RepositoryType)
    (revision : RevisionDir)
    (manifest : Manifest) :
    Prop where
  read : revision.manifest = .decoded manifest
  typed : manifest.repoType = repoType
  complete : manifest.complete = true
  stored : ∀ entry ∈ manifest.files, CanonicalPath entry.path ∧
    ∃ content,
      revision.tree.lookup (splitPath entry.path) = some (.file content) ∧
      content.length = entry.size ∧ sha256 content = entry.sha256
  ordinary : ∀ path ∈ revision.tree.paths,
    isInternalArchivePath (joinPath path) = false →
      revision.tree.lookup path = some .directory ∨
        ∃ content, revision.tree.lookup path = some (.file content)

/-- What a successful verification says: everything that is listed is in
place, and nothing else is. -/
structure Verified
    (sha256 : Bytes → String)
    (repoType : RepositoryType)
    (revision : RevisionDir)
    (manifest : Manifest) :
    Prop
    extends Stocked sha256 repoType revision manifest where
  listed : ∀ path ∈ revision.tree.paths, ∀ content,
    isInternalArchivePath (joinPath path) = false →
      revision.tree.lookup path = some (.file content) →
        joinPath path ∈ manifest.paths

theorem splitPath_joinPath_of_mem
    {tree : FileTree Bytes}
    {path : List String}
    (member : path ∈ tree.paths) :
    splitPath (joinPath path) = path := by
  obtain ⟨nonempty, present⟩ := (tree.mem_paths_iff path).mp member
  exact splitPath_joinPath nonempty fun component inPath =>
    (tree.legal_of_lookup present component inPath).2.2.2

/-- The path of a collected file is canonical. -/
theorem canonical_of_mem
    {tree : FileTree Bytes}
    {path : List String}
    (member : path ∈ tree.paths)
    (valid : validateRelativeFilePath (joinPath path) = .ok ()) :
    CanonicalPath (joinPath path) := by
  refine ⟨valid, ?_⟩
  rw [splitPath_joinPath_of_mem member]
  intro component inPath
  obtain ⟨_, present⟩ := (tree.mem_paths_iff path).mp member
  have legal := tree.legal_of_lookup present component inPath
  exact ⟨legal.1, legal.2.1⟩

/-- A listed file that is in place resolves to itself. -/
theorem resolveFile_of_stored
    {manifest : Manifest}
    {relativePath : String}
    {entry : ManifestFile}
    {content : Bytes}
    (read : revision.manifest = .decoded manifest)
    (typed : manifest.repoType = repoType)
    (complete : manifest.complete = true)
    (valid : validateRelativeFilePath relativePath = .ok ())
    (found : manifest.files.find? (·.path = relativePath) = some entry)
    (stands : revision.tree.lookup (splitPath relativePath) =
      some (.file content)) :
    revision.resolveFile repoType relativePath =
      .ok ⟨splitPath relativePath, content.length, entry.sha256⟩ := by
  apply resolveFile_eq_ok.mpr
  refine ⟨valid, manifest, entry, splitPath relativePath, content,
    readManifestFor_eq_ok.mpr ⟨read, typed⟩, complete, found, ?_, stands, rfl⟩
  apply revision.tree.canonicalize_plain
  · intro target
    rw [stands]
    simp
  · rw [stands]
    rfl

namespace Stocked

variable {sha256 : Bytes → String} {manifest : Manifest}

/-- How a listed path resolves. -/
theorem resolveFile
    (stocked : Stocked sha256 repoType revision manifest)
    {entry : ManifestFile}
    (member : entry ∈ manifest.files) :
    ∃ first content,
      manifest.files.find? (·.path = entry.path) = some first ∧
      revision.tree.lookup (splitPath entry.path) = some (.file content) ∧
      content.length = entry.size ∧ sha256 content = entry.sha256 ∧
      first.sha256 = entry.sha256 ∧
      revision.resolveFile repoType entry.path =
        .ok ⟨splitPath entry.path, content.length, first.sha256⟩ := by
  obtain ⟨canonical, content, stands, sized, hashed⟩ :=
    stocked.stored entry member
  cases found : manifest.files.find? (·.path = entry.path) with
  | none =>
      have absent := List.find?_eq_none.mp found entry member
      simp at absent
  | some first =>
      have samePath : first.path = entry.path := by
        simpa using List.find?_some found
      obtain ⟨_, other, standsToo, _, hashedToo⟩ :=
        stocked.stored first (List.mem_of_find?_eq_some found)
      rw [samePath, stands] at standsToo
      cases standsToo
      exact ⟨first, content, rfl, stands, sized, hashed,
        hashedToo.symm.trans hashed,
        resolveFile_of_stored stocked.read stocked.typed stocked.complete
          canonical.valid found stands⟩

/-- Every listed path resolves to a file of the recorded size and digest. -/
theorem resolves
    (stocked : Stocked sha256 repoType revision manifest)
    {entry : ManifestFile}
    (member : entry ∈ manifest.files) :
    ∃ resolved, revision.resolveFile repoType entry.path = .ok resolved ∧
      resolved.size = entry.size ∧ resolved.sha256 = entry.sha256 ∧
      revision.sha256File sha256 resolved = .ok entry.sha256 := by
  obtain ⟨first, content, _, stands, sized, hashed, sameDigest, resolved⟩ :=
    stocked.resolveFile member
  refine ⟨_, resolved, sized, sameDigest, ?_⟩
  unfold sha256File
  rw [stands]
  exact congrArg _ hashed

/-- What is not listed does not resolve. -/
theorem unlisted
    (stocked : Stocked sha256 repoType revision manifest)
    {path : String}
    (absent : path ∉ manifest.paths)
    (resolved : ResolvedFile) :
    revision.resolveFile repoType path ≠ .ok resolved := by
  intro found
  obtain ⟨_, other, entry, _, _, read, _, listed, _⟩ :=
    resolveFile_eq_ok.mp found
  have same := (readManifestFor_eq_ok.mp read).1
  rw [stocked.read] at same
  cases same
  have samePath : entry.path = path := by
    simpa using List.find?_some listed
  rw [← samePath] at absent
  exact absent (List.mem_map_of_mem (List.mem_of_find?_eq_some listed))

end Stocked

/-- An accepted entry is internal, a directory or a collected file. -/
theorem accepted_cases
    {tree : FileTree Bytes}
    {path : List String}
    (accepted : collectEntry tree path ≠ .refused)
    (external : isInternalArchivePath (joinPath path) = false) :
    tree.lookup path = some .directory ∨
      ∃ content, tree.lookup path = some (.file content) ∧
        collectEntry tree path = .file (joinPath path) := by
  unfold collectEntry at accepted ⊢
  simp only [external, Bool.false_eq_true, if_false] at accepted ⊢
  split at accepted
  · next directory => exact Or.inl directory
  · next content stands =>
      right
      refine ⟨content, stands, ?_⟩
      split at accepted
      · rfl
      · exact absurd rfl accepted
  · exact absurd rfl accepted

/-- What resolving a path that names a file directly can only return. -/
theorem resolved_of_stands
    (sha256 : Bytes → String)
    {relativePath : String}
    {resolved : ResolvedFile}
    {content : Bytes}
    (found : revision.resolveFile repoType relativePath = .ok resolved)
    (stands : revision.tree.lookup (splitPath relativePath) =
      some (.file content)) :
    resolved.size = content.length ∧
      revision.sha256File sha256 resolved = .ok (sha256 content) := by
  obtain ⟨_, _, _, candidate, other, _, _, _, placed, standsToo, rfl⟩ :=
    resolveFile_eq_ok.mp found
  rw [revision.tree.canonicalize_plain _ (by simp [stands])
    (by simp [stands])] at placed
  cases placed
  rw [stands] at standsToo
  cases standsToo
  refine ⟨rfl, ?_⟩
  unfold sha256File
  rw [stands]

/-- The two halves of a verification, the loop and the listing, make the
revision verified. -/
theorem verified_of_checks
    {sha256 : Bytes → String}
    {manifest : Manifest}
    {count : Nat}
    (read : revision.readManifestFor repoType = .ok manifest)
    (complete : manifest.complete = true)
    (entries :
      revision.verifyEntries sha256 repoType manifest.files 0 = .ok count)
    (collected :
      collectRevisionFiles revision.tree = some manifest.paths.toFinset) :
    Verified sha256 repoType revision manifest := by
  obtain ⟨accepted, listed⟩ := collectRevisionFiles_eq_some.mp collected
  obtain ⟨_, resolve⟩ := verifyEntries_eq_ok.mp entries
  obtain ⟨readRaw, typed⟩ := readManifestFor_eq_ok.mp read
  refine ⟨⟨readRaw, typed, complete, ?_, ?_⟩, ?_⟩
  · intro entry member
    have inSet : entry.path ∈ manifest.paths.toFinset :=
      List.mem_toFinset.mpr (List.mem_map_of_mem member)
    obtain ⟨path, inTree, isFile⟩ := (listed entry.path).mp inSet
    obtain ⟨same, _, valid, content, stands⟩ := collectEntry_file.mp isFile
    have place : splitPath entry.path = path := by
      rw [← same, splitPath_joinPath_of_mem inTree]
    have canonical : CanonicalPath entry.path := by
      rw [← same] at valid ⊢
      exact canonical_of_mem inTree valid
    rw [← place] at stands
    obtain ⟨resolved, found, sized, hashed⟩ := resolve entry member
    obtain ⟨length, digest⟩ :=
      resolved_of_stands sha256 found stands
    refine ⟨canonical, content, stands, length.symm.trans sized, ?_⟩
    rw [hashed] at digest
    exact (Except.ok.inj digest).symm
  · intro path member external
    rcases accepted_cases (accepted path member) external with
      directory | ⟨content, stands, _⟩
    · exact Or.inl directory
    · exact Or.inr ⟨content, stands⟩
  · intro path member content external stands
    rcases accepted_cases (accepted path member) external with
      directory | ⟨_, _, collects⟩
    · rw [stands] at directory
      cases directory
    · exact List.mem_toFinset.mp
        ((listed (joinPath path)).mpr ⟨path, member, collects⟩)

/-- The listing of a verified revision is the list of its manifest. -/
theorem Verified.collected
    {sha256 : Bytes → String}
    {manifest : Manifest}
    (verified : Verified sha256 repoType revision manifest) :
    collectRevisionFiles revision.tree = some manifest.paths.toFinset := by
  have validOf : ∀ path ∈ revision.tree.paths, ∀ content,
      isInternalArchivePath (joinPath path) = false →
      revision.tree.lookup path = some (.file content) →
      validateRelativeFilePath (joinPath path) = .ok () := by
    intro path member content external stands
    obtain ⟨entry, inManifest, same⟩ :=
      List.mem_map.mp (verified.listed path member content external stands)
    rw [← same]
    exact (verified.stored entry inManifest).1.valid
  apply collectRevisionFiles_eq_some.mpr
  constructor
  · intro path member refused
    unfold collectEntry at refused
    dsimp only at refused
    split at refused
    · cases refused
    · next external =>
        have external : isInternalArchivePath (joinPath path) = false := by
          simpa using external
        rcases verified.ordinary path member external with
          directory | ⟨content, stands⟩
        · rw [directory] at refused
          cases refused
        · rw [stands] at refused
          simp only [validOf path member content external stands] at refused
          cases refused
  · intro value
    rw [List.mem_toFinset]
    constructor
    · intro inManifest
      obtain ⟨entry, member, rfl⟩ := List.mem_map.mp inManifest
      obtain ⟨canonical, content, stands, _⟩ := verified.stored entry member
      refine ⟨splitPath entry.path, ?_, ?_⟩
      · apply (revision.tree.mem_paths_iff _).mpr
        exact ⟨splitPath_ne_nil _, by rw [stands]; rfl⟩
      · exact collectEntry_file.mpr ⟨joinPath_splitPath _,
          canonical.not_internal, canonical.valid, content, stands⟩
    · rintro ⟨path, member, isFile⟩
      obtain ⟨rfl, external, _, content, stands⟩ :=
        collectEntry_file.mp isFile
      exact verified.listed path member content external stands

theorem verifyRevision_eq_ok
    {sha256 : Bytes → String}
    {count : Nat} :
    revision.verifyRevision sha256 repoType = .ok count ↔
      ∃ manifest, Verified sha256 repoType revision manifest ∧
        count = manifest.files.length := by
  unfold verifyRevision
  constructor
  · intro checked
    obtain ⟨manifest, read, checked⟩ := bind_eq_ok.mp checked
    split at checked
    · cases checked
    · next complete =>
        obtain ⟨verified, entries, checked⟩ := bind_eq_ok.mp checked
        split at checked
        · cases checked
        · next actual collected =>
            split at checked
            · cases checked
            · next same =>
                cases checked
                rw [not_not] at same
                subst same
                refine ⟨manifest, verified_of_checks read
                  (by simpa using complete) entries collected, ?_⟩
                have counted := (verifyEntries_eq_ok.mp entries).1
                omega
  · rintro ⟨manifest, verified, rfl⟩
    refine bind_eq_ok.mpr ⟨manifest,
      readManifestFor_eq_ok.mpr ⟨verified.read, verified.typed⟩, ?_⟩
    rw [if_neg (by simp [verified.complete])]
    refine bind_eq_ok.mpr ⟨manifest.files.length, ?_, ?_⟩
    · apply verifyEntries_eq_ok.mpr
      refine ⟨by omega, ?_⟩
      intro entry member
      obtain ⟨resolved, found, sized, _, hashed⟩ := verified.resolves member
      exact ⟨resolved, found, sized, hashed⟩
    · simp only [verified.collected, ne_eq, not_true_eq_false, if_false]

/-! ## Revisions without links -/

/-- Without links a path in plain spelling resolves when it is listed and its
file is in place. -/
theorem resolves_iff
    {path : String}
    (linkless : revision.tree.Linkless)
    (canonical : CanonicalPath path) :
    (∃ resolved, revision.resolveFile repoType path = .ok resolved) ↔
      ∃ manifest content, revision.readManifestFor repoType = .ok manifest ∧
        manifest.complete = true ∧ path ∈ manifest.paths ∧
        revision.tree.lookup (splitPath path) = some (.file content) := by
  constructor
  · rintro ⟨resolved, found⟩
    obtain ⟨_, manifest, entry, candidate, content, read, complete, listed,
      placed, stands, _⟩ := resolveFile_eq_ok.mp found
    rw [linkless.canonicalize_eq
        (fun member => canonical.not_parent member rfl) placed,
      FileTree.plain_eq_self canonical.plain] at stands
    refine ⟨manifest, content, read, complete, ?_, stands⟩
    have samePath : entry.path = path := by
      simpa using List.find?_some listed
    rw [← samePath]
    exact List.mem_map_of_mem (List.mem_of_find?_eq_some listed)
  · rintro ⟨manifest, content, read, complete, listed, stands⟩
    obtain ⟨decoded, typed⟩ := readManifestFor_eq_ok.mp read
    cases found : manifest.files.find? (·.path = path) with
    | none =>
        obtain ⟨entry, member, same⟩ := List.mem_map.mp listed
        have absent := List.find?_eq_none.mp found entry member
        simp [same] at absent
    | some entry =>
        exact ⟨_, resolveFile_of_stored decoded typed complete
          canonical.valid found stands⟩

end RevisionDir
end ModelKeep
