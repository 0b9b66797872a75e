import Mathlib.Data.List.DropRight
import ModelKeep.ExtensionAlone
import ModelKeep.Staging.Area

/-!
# The archive

Published revisions and the refs that name them, by repository.  The reads and
writes an acquisition makes are functions here: each is one step to everyone
else, except for the extension, which the module `Extension` takes apart.
Published trees hold no links, because nothing that writes to one makes any.
-/

namespace ModelKeep

/-- A repository of the archive. -/
structure Repository where
  repoType : RepositoryType
  repoId : String
  deriving DecidableEq

/-- `models` or `datasets`, then the repository, then `refs` and `revisions`;
a ref is the text of its file. -/
structure Archive where
  revision : Repository → String → Option RevisionDir
  reference : Repository → String → Option String
  linkless : ∀ repository commit found,
    revision repository commit = some found → found.tree.Linkless

namespace Archive

/-- Nothing has been archived yet. -/
def empty : Archive := ⟨fun _ _ => none, fun _ _ => none, by simp⟩

/-- `char::is_whitespace`. -/
def isWhitespace (character : Char) : Bool :=
  (9 ≤ character.toNat && character.toNat ≤ 13) ||
    character.toNat = 32 || character.toNat = 0x85 ||
    character.toNat = 0xA0 || character.toNat = 0x1680 ||
    (0x2000 ≤ character.toNat && character.toNat ≤ 0x200A) ||
    character.toNat = 0x2028 || character.toNat = 0x2029 ||
    character.toNat = 0x202F || character.toNat = 0x205F ||
    character.toNat = 0x3000

/-- `str::trim`. -/
def trim (text : String) : String :=
  String.ofList ((text.toList.dropWhile isWhitespace).rdropWhile isWhitespace)

/-! ## Reading -/

/-- `resolve_ref_for_type`. -/
def resolveRef (archive : Archive) (repository : Repository)
    (reference : String) : Except ArchiveError String := do
  let _ ← validateRepoId repository.repoId
  validateComponent reference
  match archive.reference repository reference with
  | none => .error (.io .notFound)
  | some text => do
      validateRevision (trim text)
      return trim text

/-- The directory `revision_path_for_type` leads to. -/
def revisionDir (archive : Archive) (repository : Repository)
    (commit : String) : Except ArchiveError (Option RevisionDir) := do
  let _ ← validateRepoId repository.repoId
  validateRevision commit
  return archive.revision repository commit

/-- `is_complete_revision_for_type`. -/
def isCompleteRevision (archive : Archive) (repository : Repository)
    (commit : String) : Except ArchiveError Bool := do
  match ← archive.revisionDir repository commit with
  | none => .error (.io .notFound)
  | some revision => revision.isComplete repository.repoType

/-- `resolve_file_for_type`. -/
def resolveFile (archive : Archive) (repository : Repository)
    (commit path : String) : Except ArchiveError ResolvedFile := do
  validateRelativeFilePath path
  match ← archive.revisionDir repository commit with
  | none => .error (.io .notFound)
  | some revision => revision.resolveFile repository.repoType path

/-- `UpstreamFile::sanitized` keeps the entries with a safe path. -/
def sanitized (files : List String) : List String :=
  files.filter fun path => validateRelativeFilePath path = .ok ()

/-- `upstream_files_for_type`: nothing is said about a commit without a
record. -/
def upstreamFiles (archive : Archive) (repository : Repository)
    (commit : String) : Except ArchiveError (Option (List String)) := do
  match ← archive.revisionDir repository commit with
  | none => return none
  | some revision =>
      match revision.upstreamFiles with
      | .missing => return none
      | .unreadable message => .error (.integrityMismatch message)
      | .decoded record =>
          if record.repoType ≠ repository.repoType ∨
              record.commit ≠ commit then
            .error (.integrityMismatch
              "recorded upstream file list does not match its location")
          else
            return some (sanitized record.files)

/-- `manifest_for_type` and the paths that `archived_paths` reads from it. -/
def manifestPaths (archive : Archive) (repository : Repository)
    (commit : String) : Except ArchiveError (List String) := do
  match ← archive.revisionDir repository commit with
  | none => .error (.io .notFound)
  | some revision =>
      match revision.manifest with
      | .missing => .error (.io .notFound)
      | .unreadable _ =>
          .error (.integrityMismatch "manifest file list is unreadable")
      | .decoded manifest => return manifest.paths

/-! ## Writing -/

/-- The archive with one revision put in place. -/
def setRevision (archive : Archive) (repository : Repository)
    (commit : String) (revision : RevisionDir)
    (linkless : revision.tree.Linkless) : Archive where
  revision := fun other name =>
    if other = repository ∧ name = commit then some revision
    else archive.revision other name
  reference := archive.reference
  linkless := by
    intro other name found present
    split at present
    · cases present
      exact linkless
    · exact archive.linkless other name found present

/-- `update_ref_for_type`: only a published revision can be named. -/
def updateRef (archive : Archive) (repository : Repository)
    (reference commit : String) : Except ArchiveError Unit × Archive :=
  let checked : Except ArchiveError Unit := do
    let _ ← validateRepoId repository.repoId
    validateComponent reference
    validateRevision commit
    match archive.revision repository commit with
    | none => .error (.io .notFound)
    | some _ => .ok ()
  match checked with
  | .error error => (.error error, archive)
  | .ok () => (.ok (), { archive with
      reference := fun other name =>
        if other = repository ∧ name = reference then some commit
        else archive.reference other name })

/-- `record_upstream_files_for_type`: a revision that has a record keeps
it. -/
def recordUpstreamFiles (archive : Archive) (repository : Repository)
    (commit : String) (files : List String) :
    Except ArchiveError Bool × Archive :=
  match archive.revisionDir repository commit with
  | .error error => (.error error, archive)
  | .ok _ =>
      match stands : archive.revision repository commit with
      | none => (.error (.io .notFound), archive)
      | some revision =>
          let record : UpstreamFileList :=
            ⟨repository.repoType, repository.repoId, commit, sanitized files⟩
          match revision.upstreamFiles with
          | .missing =>
              (.ok true, archive.setRevision repository commit
                { revision with upstreamFiles := .decoded record }
                (archive.linkless repository commit revision stands))
          | _ => (.ok false, archive)

/-- What a publication is asked for; the sources are the staged files of the
same paths. -/
structure SourcePublishRequest where
  requestedRevision : String
  commit : String
  files : List String

/-- The loop of `write_source_manifest` over the reported files. -/
def sourceEntries (sha256 : Bytes → String) (payload : FileTree Bytes) :
    List String → List String → Except ArchiveError (List ManifestFile)
  | [], _ => .ok []
  | path :: rest, archived => do
      validateRelativeFilePath path
      if path ∈ archived then
        .error (.integrityMismatch ("duplicate archive path: " ++ path))
      else
        match payload.lstat (splitPath path) with
        | none => .error (.io .notFound)
        | some (.file content) => do
            let entries ← sourceEntries sha256 payload rest (path :: archived)
            return ⟨path, content.length, sha256 content⟩ :: entries
        | some _ => .error (.invalidPath path)

/-- What a publication makes of the staging directory it was given. -/
inductive StagingFate
  | kept
  /-- Renamed into the archive, or removed after a failure. -/
  | consumed
  deriving DecidableEq

/-- The revision `write_source_manifest` makes of staging: whatever is not
listed is removed, and with it the staged upstream file list. -/
def sourceRevision (repository : Repository) (request : SourcePublishRequest)
    (payload : FileTree Bytes) (entries : List ManifestFile) : RevisionDir where
  manifest := .decoded
    ⟨true, repository.repoType, repository.repoId, request.requestedRevision,
      entries⟩
  upstreamFiles := .missing
  tree := payload.prune fun path =>
    joinPath path ∈ entries.map ManifestFile.path

/-- `publish_revision_from_directory_with_progress_for_type` of a staging
directory of the archive itself. -/
def publish (sha256 : Bytes → String) (archive : Archive)
    (repository : Repository) (request : SourcePublishRequest)
    (staging : Option StagingDir) :
    Except ArchiveError Unit × Archive × StagingFate :=
  let checked : Except ArchiveError Unit := do
    let _ ← validateRepoId repository.repoId
    validateComponent request.requestedRevision
    validateRevision request.commit
    if request.files = [] then
      .error (.invalidPath "revision has no files")
    else
      .ok ()
  match checked, staging with
  | .error error, _ => (.error error, archive, .kept)
  | .ok (), none => (.error (.io .notFound), archive, .kept)
  | .ok (), some staging =>
      match archive.revision repository request.commit with
      | some _ => (.error (.alreadyPublished request.commit), archive, .kept)
      | none =>
          match sourceEntries sha256 staging.payload request.files [] with
          | .error error => (.error error, archive, .consumed)
          | .ok entries =>
              (.ok (), archive.setRevision repository request.commit
                (sourceRevision repository request staging.payload entries)
                (FileTree.linkless_prune _ _), .consumed)

/-- Where an extension copies a path from. -/
def stagedSource (payload : FileTree Bytes) (path : String) :
    Except ArchiveError Bytes :=
  match payload.lstat (splitPath path) with
  | none => .error (.io .notFound)
  | some (.file content) => .ok content
  | some _ => .error (.invalidPath path)

/-- `extend_revision_from_directory_for_type` by the only caller. -/
def extend (sha256 : Bytes → String) (archive : Archive)
    (repository : Repository) (commit : String) (files : List String)
    (staging : Option StagingDir) :
    Except ArchiveError RevisionExtension × Archive :=
  match archive.revisionDir repository commit with
  | .error error => (.error error, archive)
  | .ok _ =>
      match stands : archive.revision repository commit with
      | none => (.error (.io .notFound), archive)
      | some revision =>
          let request : RevisionExtensionRequest :=
            ⟨repository.repoId, commit, files⟩
          let sources := stagedSource
            ((staging.map StagingDir.payload).getD .empty)
          let extended := Extension.extendAlone sha256 repository.repoType
            request sources revision
          (extended.1, archive.setRevision repository commit extended.2
            (Extension.extendAlone_linkless
              (archive.linkless _ _ _ stands)))

/-! ## Reads and writes -/

variable
  {sha256 : Bytes → String}
  {archive after : Archive}
  {repository : Repository}
  {reference commit path : String}

/-- The file is served at the commit. -/
def Holds (archive : Archive) (repository : Repository)
    (commit path : String) : Prop :=
  ∃ resolved, archive.resolveFile repository commit path = .ok resolved

theorem resolveRef_eq_ok :
    archive.resolveRef repository reference = .ok commit ↔
      (∃ parts, validateRepoId repository.repoId = .ok parts) ∧
        validateComponent reference = .ok () ∧
        validateRevision commit = .ok () ∧
        ∃ text, archive.reference repository reference = some text ∧
          trim text = commit := by
  unfold resolveRef
  simp only [bind_eq_ok]
  constructor
  · rintro ⟨parts, repo, ⟨⟩, named, found⟩
    split at found
    · cases found
    · next text stands =>
        obtain ⟨⟨⟩, valid, same⟩ := bind_eq_ok.mp found
        cases same
        exact ⟨⟨parts, repo⟩, named, valid, text, stands, rfl⟩
  · rintro ⟨⟨parts, repo⟩, named, valid, text, stands, rfl⟩
    refine ⟨parts, repo, (), named, ?_⟩
    rw [stands]
    exact bind_eq_ok.mpr ⟨(), valid, rfl⟩

/-- Hexadecimal digits are no whitespace. -/
theorem isWhitespace_of_hex
    {character : Char}
    (hex : isAsciiHexdigit character = true) :
    isWhitespace character = false := by
  have bounds : 48 ≤ character.toNat ∧ character.toNat ≤ 102 := by
    simp only [isAsciiHexdigit, Char.isDigit, Bool.or_eq_true,
      Bool.and_eq_true, decide_eq_true_eq, Char.le_def, ge_iff_le] at hex
    have digits : ∀ other : Char, other.val.toNat = other.toNat :=
      fun _ => rfl
    rcases hex with (⟨low, high⟩ | ⟨low, high⟩) | ⟨low, high⟩ <;>
      (rw [UInt32.le_iff_toNat_le] at low high
       simp only [digits] at low high
       constructor
       · exact Nat.le_trans (by decide) low
       · exact Nat.le_trans high (by decide))
  simp only [isWhitespace, Bool.or_eq_false_iff, Bool.and_eq_false_iff,
    decide_eq_false_iff_not]
  omega

/-- A revision is its own text. -/
theorem trim_revision
    (valid : validateRevision commit = .ok ()) :
    trim commit = commit := by
  unfold validateRevision at valid
  split at valid
  · cases valid
  · next fine =>
      rw [not_or, not_or, not_not, List.all_eq_true] at fine
      have plain : ∀ character ∈ commit.toList,
          isWhitespace character = false := fun character member =>
        isWhitespace_of_hex (fine.2.2 character member)
      have kept : ∀ characters : List Char,
          (∀ character ∈ characters, isWhitespace character = false) →
          characters.dropWhile isWhitespace = characters := by
        intro characters none
        cases characters with
        | nil => rfl
        | cons first rest =>
            rw [List.dropWhile_cons_of_neg]
            simp [none first List.mem_cons_self]
      unfold trim List.rdropWhile
      rw [kept _ plain, kept, List.reverse_reverse, String.ofList_toList]
      intro character member
      exact plain character (List.mem_reverse.mp member)

theorem updateRef_eq_ok
    (updated : archive.updateRef repository reference commit =
      (.ok (), after)) :
    (∃ parts, validateRepoId repository.repoId = .ok parts) ∧
      validateComponent reference = .ok () ∧
      validateRevision commit = .ok () ∧
      after.revision = archive.revision ∧
      ∀ other name, after.reference other name =
        if other = repository ∧ name = reference then some commit
        else archive.reference other name := by
  unfold updateRef at updated
  dsimp only at updated
  split at updated
  · cases updated
  · next checked =>
      cases updated
      obtain ⟨parts, repo, checked⟩ := bind_eq_ok.mp checked
      obtain ⟨⟨⟩, named, checked⟩ := bind_eq_ok.mp checked
      obtain ⟨⟨⟩, valid, _⟩ := bind_eq_ok.mp checked
      exact ⟨⟨parts, repo⟩, named, valid, rfl, fun _ _ => rfl⟩

/-- What does not succeed changes nothing. -/
theorem updateRef_eq_error
    {error : ArchiveError}
    (failed : archive.updateRef repository reference commit =
      (.error error, after)) :
    after = archive := by
  unfold updateRef at failed
  dsimp only at failed
  split at failed
  · cases failed
    rfl
  · cases failed

/-- An updated ref names the commit. -/
theorem resolveRef_updateRef
    (updated : archive.updateRef repository reference commit =
      (.ok (), after)) :
    after.resolveRef repository reference = .ok commit := by
  obtain ⟨repo, named, valid, _, references⟩ := updateRef_eq_ok updated
  apply resolveRef_eq_ok.mpr
  refine ⟨repo, named, valid, commit, ?_, trim_revision valid⟩
  rw [references, if_pos ⟨rfl, rfl⟩]

/-! ## Revisions -/

theorem revisionDir_eq_ok {found : Option RevisionDir} :
    archive.revisionDir repository commit = .ok found ↔
      (∃ parts, validateRepoId repository.repoId = .ok parts) ∧
        validateRevision commit = .ok () ∧
        archive.revision repository commit = found := by
  unfold revisionDir
  simp only [bind_eq_ok]
  constructor
  · rintro ⟨parts, repo, ⟨⟩, valid, same⟩
    exact ⟨⟨parts, repo⟩, valid, Except.ok.inj same⟩
  · rintro ⟨⟨parts, repo⟩, valid, rfl⟩
    exact ⟨parts, repo, (), valid, rfl⟩

/-- The commit has a revision with a complete manifest. -/
def Complete (archive : Archive) (repository : Repository)
    (commit : String) : Prop :=
  archive.isCompleteRevision repository commit = .ok true

instance (archive : Archive) (repository : Repository) (commit : String) :
    Decidable (archive.Complete repository commit) :=
  inferInstanceAs (Decidable (_ = _))

theorem complete_iff :
    archive.Complete repository commit ↔
      (∃ parts, validateRepoId repository.repoId = .ok parts) ∧
        validateRevision commit = .ok () ∧
        ∃ revision manifest,
          archive.revision repository commit = some revision ∧
          revision.readManifestFor repository.repoType = .ok manifest ∧
          manifest.complete = true := by
  unfold Complete isCompleteRevision
  rw [bind_eq_ok]
  constructor
  · rintro ⟨found, placed, complete⟩
    obtain ⟨repo, valid, rfl⟩ := revisionDir_eq_ok.mp placed
    split at complete
    · cases complete
    · next revision stands =>
        obtain ⟨manifest, read, same⟩ := bind_eq_ok.mp complete
        exact ⟨repo, valid, revision, manifest, stands, read,
          Except.ok.inj same⟩
  · rintro ⟨repo, valid, revision, manifest, stands, read, complete⟩
    refine ⟨some revision, revisionDir_eq_ok.mpr ⟨repo, valid, stands⟩,
      bind_eq_ok.mpr ⟨manifest, read, ?_⟩⟩
    rw [complete]
    rfl

theorem holds_iff :
    archive.Holds repository commit path ↔
      (∃ parts, validateRepoId repository.repoId = .ok parts) ∧
        validateRevision commit = .ok () ∧
        ∃ revision, archive.revision repository commit = some revision ∧
          ∃ resolved,
            revision.resolveFile repository.repoType path = .ok resolved := by
  unfold Holds resolveFile
  constructor
  · rintro ⟨resolved, found⟩
    obtain ⟨_, _, found⟩ := bind_eq_ok.mp found
    obtain ⟨place, placed, found⟩ := bind_eq_ok.mp found
    obtain ⟨repo, valid, rfl⟩ := revisionDir_eq_ok.mp placed
    split at found
    · cases found
    · next revision stands =>
        exact ⟨repo, valid, revision, stands, resolved, found⟩
  · rintro ⟨repo, valid, revision, stands, resolved, found⟩
    refine ⟨resolved, bind_eq_ok.mpr ⟨(), ?_, bind_eq_ok.mpr
      ⟨some revision, revisionDir_eq_ok.mpr ⟨repo, valid, stands⟩, found⟩⟩⟩
    exact (RevisionDir.resolveFile_eq_ok.mp found).1

/-- A file is only served from a complete revision. -/
theorem Holds.complete
    (holds : archive.Holds repository commit path) :
    archive.Complete repository commit := by
  obtain ⟨repo, valid, revision, stands, resolved, found⟩ :=
    holds_iff.mp holds
  obtain ⟨_, manifest, _, _, _, read, complete, _⟩ :=
    RevisionDir.resolveFile_eq_ok.mp found
  exact complete_iff.mpr
    ⟨repo, valid, revision, manifest, stands, read, complete⟩

instance (archive : Archive) (repository : Repository)
    (commit path : String) :
    Decidable (archive.Holds repository commit path) :=
  match found : archive.resolveFile repository commit path with
  | .ok resolved => isTrue ⟨resolved, found⟩
  | .error error => isFalse fun ⟨resolved, present⟩ => by
      rw [found] at present
      cases present

/-- The revision is complete and holds the files. -/
def Ready (archive : Archive) (repository : Repository) (commit : String)
    (files : List String) : Prop :=
  archive.Complete repository commit ∧
    ∀ file ∈ files, archive.Holds repository commit file

instance (archive : Archive) (repository : Repository) (commit : String)
    (files : List String) :
    Decidable (archive.Ready repository commit files) :=
  inferInstanceAs (Decidable (_ ∧ _))

/-- The commit a ref names, when it is ready. -/
def readyTarget (archive : Archive) (repository : Repository)
    (reference : String) (files : List String) : Option String :=
  match archive.resolveRef repository reference with
  | .ok commit =>
      if archive.Ready repository commit files then some commit else none
  | .error _ => none

theorem readyTarget_eq_some {files : List String} :
    archive.readyTarget repository reference files = some commit ↔
      archive.resolveRef repository reference = .ok commit ∧
        archive.Ready repository commit files := by
  unfold readyTarget
  cases archive.resolveRef repository reference with
  | error error => simp
  | ok target =>
      dsimp only
      rw [Option.ite_none_right_eq_some, Option.some.injEq, Except.ok.injEq,
        and_comm]
      apply and_congr_right
      rintro rfl
      exact Iff.rfl

/-- The commit behind a requested revision, when it is complete. -/
def publishedCommit (archive : Archive) (repository : Repository)
    (requested : String) : Option String :=
  match archive.readyTarget repository requested [] with
  | some commit => some commit
  | none =>
      if archive.Complete repository requested then some requested else none

/-- No ref that resolves is moved. -/
def KeepsRefs (before after : Archive) : Prop :=
  ∀ repository reference commit,
    before.resolveRef repository reference = .ok commit →
      after.resolveRef repository reference = .ok commit

/-- The paths the live manifest of a complete revision lists. -/
def Lists (archive : Archive) (repository : Repository)
    (commit path : String) : Prop :=
  ∃ paths, archive.manifestPaths repository commit = .ok paths ∧ path ∈ paths

theorem manifestPaths_eq_ok {paths : List String} :
    archive.manifestPaths repository commit = .ok paths ↔
      (∃ parts, validateRepoId repository.repoId = .ok parts) ∧
        validateRevision commit = .ok () ∧
        ∃ revision manifest,
          archive.revision repository commit = some revision ∧
          revision.manifest = .decoded manifest ∧
          paths = manifest.paths := by
  unfold manifestPaths
  rw [bind_eq_ok]
  constructor
  · rintro ⟨found, placed, read⟩
    obtain ⟨repo, valid, rfl⟩ := revisionDir_eq_ok.mp placed
    split at read
    · cases read
    · next revision stands =>
        split at read
        · cases read
        · cases read
        · next manifest decoded =>
            exact ⟨repo, valid, revision, manifest, stands, decoded,
              (Except.ok.inj read).symm⟩
  · rintro ⟨repo, valid, revision, manifest, stands, decoded, rfl⟩
    refine ⟨some revision, revisionDir_eq_ok.mpr ⟨repo, valid, stands⟩, ?_⟩
    simp only [decoded]
    rfl

/-! ## What the writes leave -/

/-- The upstream file lists aside, the revisions are the same. -/
def SameContent (before after : Archive) : Prop :=
  ∀ repository commit,
    (after.revision repository commit).map
        (fun revision => (revision.manifest, revision.tree)) =
      (before.revision repository commit).map
        (fun revision => (revision.manifest, revision.tree))

theorem SameContent.refl (archive : Archive) : SameContent archive archive :=
  fun _ _ => rfl

theorem SameContent.symm
    {before after : Archive}
    (same : SameContent before after) :
    SameContent after before :=
  fun repository commit => (same repository commit).symm

theorem SameContent.trans
    {before middle after : Archive}
    (first : SameContent before middle)
    (second : SameContent middle after) :
    SameContent before after :=
  fun repository commit =>
    (second repository commit).trans (first repository commit)

theorem resolveRef_congr
    (same : after.reference = archive.reference) :
    after.resolveRef repository reference =
      archive.resolveRef repository reference := by
  unfold Archive.resolveRef
  rw [same]

theorem SameContent.of_revision
    {revision : RevisionDir}
    (same : SameContent archive after)
    (stands : archive.revision repository commit = some revision) :
    ∃ other, after.revision repository commit = some other ∧
      other.manifest = revision.manifest ∧ other.tree = revision.tree := by
  have equal := same repository commit
  rw [stands, Option.map_some] at equal
  obtain ⟨other, standsToo, pair⟩ := Option.map_eq_some_iff.mp equal
  rw [Prod.mk.injEq] at pair
  exact ⟨other, standsToo, pair.1, pair.2⟩

theorem SameContent.holds_iff
    (same : SameContent archive after) :
    after.Holds repository commit path ↔
      archive.Holds repository commit path := by
  have carries : ∀ {before later : Archive}, SameContent before later →
      before.Holds repository commit path →
      later.Holds repository commit path := by
    intro before later same holds
    obtain ⟨repo, valid, revision, stands, resolved, found⟩ :=
      Archive.holds_iff.mp holds
    obtain ⟨other, standsToo, manifest, tree⟩ := same.of_revision stands
    refine Archive.holds_iff.mpr ⟨repo, valid, other, standsToo, resolved, ?_⟩
    rw [← found]
    unfold RevisionDir.resolveFile RevisionDir.readManifestFor
    rw [manifest, tree]
  exact ⟨carries same.symm, carries same⟩

theorem SameContent.lists_iff
    (same : SameContent archive after) :
    after.Lists repository commit path ↔
      archive.Lists repository commit path := by
  have carries : ∀ {before later : Archive}, SameContent before later →
      before.Lists repository commit path →
      later.Lists repository commit path := by
    intro before later same lists
    obtain ⟨paths, read, member⟩ := lists
    obtain ⟨repo, valid, revision, manifest, stands, decoded, rfl⟩ :=
      manifestPaths_eq_ok.mp read
    obtain ⟨other, standsToo, sameManifest, _⟩ := same.of_revision stands
    refine ⟨manifest.paths, manifestPaths_eq_ok.mpr
      ⟨repo, valid, other, manifest, standsToo, ?_, rfl⟩, member⟩
    rw [sameManifest, decoded]
  exact ⟨carries same.symm, carries same⟩

/-- A ref says nothing about what is held. -/
theorem sameContent_updateRef
    {outcome : Except ArchiveError Unit}
    (updated : archive.updateRef repository reference commit =
      (outcome, after)) :
    SameContent archive after := by
  cases outcome with
  | error error =>
      rw [updateRef_eq_error updated]
      exact SameContent.refl _
  | ok =>
      obtain ⟨_, _, _, same, _⟩ := updateRef_eq_ok updated
      intro other name
      rw [same]

/-- Another ref is left where it is. -/
theorem resolveRef_updateRef_of_ne
    {outcome : Except ArchiveError Unit}
    {otherRepository : Repository}
    {other : String}
    (updated : archive.updateRef repository reference commit =
      (outcome, after))
    (different : ¬(otherRepository = repository ∧ other = reference)) :
    after.resolveRef otherRepository other =
      archive.resolveRef otherRepository other := by
  cases outcome with
  | error error => rw [updateRef_eq_error updated]
  | ok =>
      obtain ⟨_, _, _, _, references⟩ := updateRef_eq_ok updated
      unfold resolveRef
      rw [references, if_neg different]

/-- A ref that did not resolve can be made without moving one. -/
theorem keepsRefs_updateRef
    {outcome : Except ArchiveError Unit}
    (updated : archive.updateRef repository reference commit =
      (outcome, after))
    (missing : ∀ target,
      archive.resolveRef repository reference = .ok target →
        target = commit) :
    archive.KeepsRefs after := by
  intro otherRepository other target resolved
  by_cases same : otherRepository = repository ∧ other = reference
  · obtain ⟨rfl, rfl⟩ := same
    cases outcome with
    | error error =>
        rw [updateRef_eq_error updated]
        exact resolved
    | ok =>
        rw [missing target resolved]
        exact resolveRef_updateRef updated
  · rw [resolveRef_updateRef_of_ne updated same]
    exact resolved

theorem sameContent_record
    {files : List String}
    {outcome : Except ArchiveError Bool}
    (recorded : archive.recordUpstreamFiles repository commit files =
      (outcome, after)) :
    after.reference = archive.reference ∧ SameContent archive after := by
  unfold recordUpstreamFiles at recorded
  split at recorded
  · cases recorded
    exact ⟨rfl, SameContent.refl _⟩
  · split at recorded
    · cases recorded
      exact ⟨rfl, SameContent.refl _⟩
    · next revision stands =>
        dsimp only at recorded
        split at recorded
        · cases recorded
          refine ⟨rfl, ?_⟩
          intro other name
          unfold setRevision
          dsimp only
          split
          · next same =>
              rw [same.1, same.2, stands]
              rfl
          · rfl
        · cases recorded
          exact ⟨rfl, SameContent.refl _⟩

/-! ## Publications -/

/-- The entries of a published manifest are the reported files. -/
theorem sourceEntries_eq_ok
    {payload : FileTree Bytes}
    {files archived : List String}
    {entries : List ManifestFile}
    (made : sourceEntries sha256 payload files archived = .ok entries) :
    entries.map ManifestFile.path = files ∧
      ∀ path ∈ files, validateRelativeFilePath path = .ok () ∧
        ∃ content, payload.lstat (splitPath path) = some (.file content) := by
  induction files generalizing archived entries with
  | nil =>
      cases made
      simp
  | cons path rest inductionHypothesis =>
      rw [sourceEntries] at made
      obtain ⟨⟨⟩, valid, made⟩ := bind_eq_ok.mp made
      split at made
      · cases made
      · split at made
        · cases made
        · next content stands =>
            obtain ⟨others, madeOthers, same⟩ := bind_eq_ok.mp made
            cases same
            obtain ⟨paths, all⟩ := inductionHypothesis madeOthers
            refine ⟨by rw [List.map_cons, paths], ?_⟩
            exact List.forall_mem_cons.mpr ⟨⟨valid, content, stands⟩, all⟩
        · cases made

theorem publish_eq_ok
    {request : SourcePublishRequest}
    {staging : Option StagingDir}
    {fate : StagingFate}
    (published : archive.publish sha256 repository request staging =
      (.ok (), after, fate)) :
    (∃ parts, validateRepoId repository.repoId = .ok parts) ∧
      validateRevision request.commit = .ok () ∧ fate = .consumed ∧
      archive.revision repository request.commit = none ∧
      ∃ dir entries, staging = some dir ∧
        sourceEntries sha256 dir.payload request.files [] = .ok entries ∧
        after.reference = archive.reference ∧
        ∀ other name, after.revision other name =
          if other = repository ∧ name = request.commit then
            some (sourceRevision repository request dir.payload entries)
          else archive.revision other name := by
  unfold publish at published
  dsimp only at published
  split at published
  · cases published
  · cases published
  · next dir checked =>
      obtain ⟨parts, repo, checked⟩ := bind_eq_ok.mp checked
      obtain ⟨⟨⟩, _, checked⟩ := bind_eq_ok.mp checked
      obtain ⟨⟨⟩, valid, _⟩ := bind_eq_ok.mp checked
      split at published
      · cases published
      · next absent =>
          split at published
          · cases published
          · next entries made =>
              cases published
              exact ⟨⟨parts, repo⟩, valid, rfl, absent, dir, entries, rfl,
                made, rfl, fun _ _ => rfl⟩

/-- What a failed publication leaves. -/
theorem publish_eq_error
    {request : SourcePublishRequest}
    {staging : Option StagingDir}
    {fate : StagingFate}
    {error : ArchiveError}
    (failed : archive.publish sha256 repository request staging =
      (.error error, after, fate)) :
    after = archive := by
  unfold publish at failed
  dsimp only at failed
  split at failed
  · cases failed
    rfl
  · cases failed
    rfl
  · split at failed
    · cases failed
      rfl
    · split at failed
      · cases failed
        rfl
      · cases failed

/-- A file of a pruned tree without links resolves where it is listed. -/
theorem canonicalize_prune_iff
    {payload : FileTree Bytes}
    {listed : List String → Bool}
    (inside : ".." ∉ splitPath path)
    (isFile : ∃ content, payload.lstat (splitPath path) =
      some (.file content)) :
    (∃ place content,
        (payload.prune listed).canonicalize (splitPath path) = some place ∧
        (payload.prune listed).lookup place = some (.file content)) ↔
      payload.isFile (plainComponents path) = true ∧
        listed (plainComponents path) = true := by
  have plain : plainComponents path = FileTree.plain (splitPath path) := rfl
  obtain ⟨last, final, named⟩ :=
    FileTree.getLast_of_lstat isFile.choose_spec
  constructor
  · rintro ⟨place, content, leads, stands⟩
    rw [(FileTree.linkless_prune payload listed).canonicalize_eq inside
      leads, ← plain, FileTree.lookup_prune_file] at stands
    exact ⟨(payload.isFile_iff _).mpr ⟨content, stands.1⟩, stands.2⟩
  · rintro ⟨present, kept⟩
    obtain ⟨content, stands⟩ := (payload.isFile_iff _).mp present
    have standsPruned := (FileTree.lookup_prune_file payload listed
      (plainComponents path) content).mpr ⟨stands, kept⟩
    refine ⟨plainComponents path, content, ?_, standsPruned⟩
    rw [plain] at standsPruned ⊢
    exact @FileTree.walk_of_file _ _ _ [] _ _ _ final named standsPruned

theorem not_mem_of_valid
    (valid : validateRelativeFilePath path = .ok ()) :
    ".." ∉ splitPath path := by
  unfold validateRelativeFilePath at valid
  split at valid
  · cases valid
  · next fine =>
      simp only [not_or, List.contains_eq_mem, decide_eq_true_eq] at fine
      exact fine.2.2.2.2

/-- A reported file is served after a publication when it was staged as a
regular file, under the spelling that is reported. -/
theorem holds_publish
    {request : SourcePublishRequest}
    {dir : StagingDir}
    {fate : StagingFate}
    (published : archive.publish sha256 repository request (some dir) =
      (.ok (), after, fate))
    (reported : path ∈ request.files) :
    after.Holds repository request.commit path ↔
      dir.payload.isFile (plainComponents path) = true ∧
        joinPath (plainComponents path) ∈ request.files := by
  obtain ⟨repo, valid, _, _, _, entries, same, made, _, revisions⟩ :=
    publish_eq_ok published
  cases same
  obtain ⟨paths, all⟩ := sourceEntries_eq_ok made
  obtain ⟨validPath, isFile⟩ := all path reported
  have stands := revisions repository request.commit
  rw [if_pos ⟨rfl, rfl⟩] at stands
  have prunes : (∃ place content,
      (sourceRevision repository request dir.payload entries).tree.canonicalize
          (splitPath path) = some place ∧
        (sourceRevision repository request dir.payload entries).tree.lookup
          place = some (.file content)) ↔
      dir.payload.isFile (plainComponents path) = true ∧
        joinPath (plainComponents path) ∈ request.files := by
    refine (canonicalize_prune_iff (not_mem_of_valid validPath)
      isFile).trans (and_congr_right fun _ => ?_)
    rw [decide_eq_true_eq, paths]
  rw [holds_iff, ← prunes]
  constructor
  · rintro ⟨_, _, revision, standsToo, resolved, found⟩
    rw [stands] at standsToo
    cases standsToo
    obtain ⟨_, _, _, place, content, _, _, _, leads, standsFile, _⟩ :=
      RevisionDir.resolveFile_eq_ok.mp found
    exact ⟨place, content, leads, standsFile⟩
  · rintro ⟨place, content, leads, standsFile⟩
    refine ⟨repo, valid, _, stands, ?_⟩
    cases found : entries.find? (·.path = path) with
    | none =>
        rw [← paths] at reported
        obtain ⟨entry, member, samePath⟩ := List.mem_map.mp reported
        have absent := List.find?_eq_none.mp found entry member
        simp [samePath] at absent
    | some entry =>
        exact ⟨_, RevisionDir.resolveFile_eq_ok.mpr ⟨validPath, _, entry,
          place, content, RevisionDir.readManifestFor_eq_ok.mpr ⟨rfl, rfl⟩,
          rfl, found, leads, standsFile, rfl⟩⟩

/-- Nothing else is served at a commit that was just published. -/
theorem mem_of_holds_publish
    {request : SourcePublishRequest}
    {dir : StagingDir}
    {fate : StagingFate}
    (published : archive.publish sha256 repository request (some dir) =
      (.ok (), after, fate))
    (holds : after.Holds repository request.commit path) :
    path ∈ request.files := by
  obtain ⟨_, _, _, _, _, entries, same, made, _, revisions⟩ :=
    publish_eq_ok published
  cases same
  have stands := revisions repository request.commit
  rw [if_pos ⟨rfl, rfl⟩] at stands
  obtain ⟨_, _, revision, standsToo, resolved, found⟩ := holds_iff.mp holds
  rw [stands] at standsToo
  cases standsToo
  obtain ⟨_, manifest, entry, _, _, read, _, listed, _⟩ :=
    RevisionDir.resolveFile_eq_ok.mp found
  obtain ⟨decoded, _⟩ := RevisionDir.readManifestFor_eq_ok.mp read
  cases decoded
  have samePath : entry.path = path := by
    simpa using List.find?_some listed
  rw [← (sourceEntries_eq_ok made).1, ← samePath]
  exact List.mem_map_of_mem (List.mem_of_find?_eq_some listed)

/-! ## Extensions -/

theorem extend_eq_ok
    {files : List String}
    {staging : Option StagingDir}
    {extension : RevisionExtension}
    (extended : archive.extend sha256 repository commit files staging =
      (.ok extension, after)) :
    (∃ parts, validateRepoId repository.repoId = .ok parts) ∧
      validateRevision commit = .ok () ∧
      after.reference = archive.reference ∧
      ∃ revision larger manifest moved,
        archive.revision repository commit = some revision ∧
        (∀ other name, after.revision other name =
          if other = repository ∧ name = commit then some larger
          else archive.revision other name) ∧
        Extension.Reports extension moved ∧
        Extension.ExtendedBy sha256 repository.repoType
          ⟨repository.repoId, commit, files⟩
          (stagedSource ((staging.map StagingDir.payload).getD .empty))
          revision larger manifest moved := by
  unfold extend at extended
  split at extended
  · cases extended
  · next _ placed =>
      obtain ⟨repo, valid, _⟩ := revisionDir_eq_ok.mp placed
      split at extended
      · cases extended
      · next revision stands =>
          dsimp only at extended
          rw [Prod.mk.injEq] at extended
          obtain ⟨succeeded, rfl⟩ := extended
          obtain ⟨manifest, moved, reports, spec⟩ :=
            Extension.extendAlone_spec (Prod.ext succeeded rfl)
          exact ⟨repo, valid, rfl, revision, _, manifest, moved, stands,
            fun _ _ => rfl, reports, spec⟩

/-- An extension moves no ref, even one that fails. -/
theorem extend_reference
    {files : List String}
    {staging : Option StagingDir}
    {outcome : Except ArchiveError RevisionExtension}
    (extended : archive.extend sha256 repository commit files staging =
      (outcome, after)) :
    after.reference = archive.reference := by
  unfold extend at extended
  split at extended
  · cases extended
    rfl
  · split at extended
    · cases extended
      rfl
    · cases extended
      rfl

end Archive
end ModelKeep
