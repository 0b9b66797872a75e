import ModelKeep.PathSpelling

/-!
# What a publication puts in place

`write_revision` and `write_source_revision` fill a fresh staging directory
file by file and write the manifest last; they differ in where the bytes come
from.  `write_source_manifest` takes a staging directory as it is, hashes what
is requested and drops the rest.
-/

namespace ModelKeep
namespace Publishing

/-- A file to publish, with its bytes, or what came of reading them. -/
structure ArchiveFile where
  path : String
  content : Except ArchiveError Bytes

structure PublishRequest where
  repoId : String
  requestedRevision : String
  commit : String
  files : List ArchiveFile

def PublishRequest.paths (request : PublishRequest) : List String :=
  request.files.map ArchiveFile.path

/-- `.modelkeep-staging-lease`. -/
def leasePlace : List String := [".modelkeep-staging-lease"]

/-- A directory that `create_staging` has made. -/
def freshStaging : FileTree Bytes :=
  (FileTree.empty.createFile leasePlace []).getD .empty

/-- The loop over the requested files. -/
def writeFiles (sha256 : Bytes → String) :
    List ArchiveFile → FileTree Bytes → List ManifestFile →
      Except ArchiveError (FileTree Bytes × List ManifestFile)
  | [], staging, entries => .ok (staging, entries)
  | file :: rest, staging, entries => do
      validateRelativeFilePath file.path
      let content ← file.content
      let place ← Extension.placeOf file.path
      let staging ← Extension.stageFile staging place content
      writeFiles sha256 rest staging
        (entries ++ [⟨file.path, content.length, sha256 content⟩])

/-- `File::create` of the manifest replaces a file of that name; the manifest
is kept apart from the tree. -/
def createManifest (staging : FileTree Bytes) :
    Except ArchiveError (FileTree Bytes) :=
  match staging.lookup manifestPlace with
  | some .directory => .error (.io .isADirectory)
  | _ => .ok ((staging.remove manifestPlace).getD staging)

/-- `remove_staging_lease`. -/
def removeStagingLease (staging : FileTree Bytes) : FileTree Bytes :=
  (staging.remove leasePlace).getD staging

/-- The staging directory that is renamed into place by `write_revision` and
`write_source_revision`. -/
def writeRevision (sha256 : Bytes → String) (repoType : RepositoryType)
    (request : PublishRequest) : Except ArchiveError RevisionDir := do
  let (staging, entries) ← writeFiles sha256 request.files freshStaging []
  let staging ← createManifest staging
  return {
    manifest := .decoded {
      complete := true
      repoType := repoType
      repoId := request.repoId
      requestedRevision := request.requestedRevision
      files := entries }
    upstreamFiles := .missing
    tree := removeStagingLease staging }

/-! ## Plainly spelled files -/

variable {sha256 : Bytes → String} {repoType : RepositoryType}

/-- A staged file is in place, and otherwise there are only new
directories. -/
theorem lookup_stageFile
    {staging after : FileTree Bytes}
    {place : List String}
    {content : Bytes}
    (staged : Extension.stageFile staging place content = .ok after)
    (other : List String) :
    (other = place ∧ after.lookup other = some (.file content)) ∨
      other ≠ place ∧ (after.lookup other = staging.lookup other ∨
        staging.lookup other = none ∧
          after.lookup other = some .directory) := by
  unfold Extension.stageFile at staged
  split at staged
  · cases staged
  · next prepared made =>
      split at staged
      · cases staged
      · next final created =>
          cases staged
          unfold FileTree.createFile at created
          split at created
          · rw [FileTree.lookup_placeFile created]
            by_cases same : other = place
            · simp [same]
            · simp only [same, if_false, false_and, ne_eq,
                not_false_eq_true, true_and, false_or]
              exact FileTree.lookup_makeDirectories made other
          · cases created

/-- The staging directory holds the listed files, and nothing else but
directories and its lease. -/
structure Filled (sha256 : Bytes → String) (entries : List ManifestFile)
    (staging : FileTree Bytes) : Prop where
  stored : ∀ entry ∈ entries, CanonicalPath entry.path ∧
    ∃ content, staging.lookup (splitPath entry.path) =
        some (.file content) ∧
      content.length = entry.size ∧ sha256 content = entry.sha256
  linkless : staging.Linkless
  listed : ∀ place content, staging.lookup place = some (.file content) →
    place = leasePlace ∨ joinPath place ∈ entries.map ManifestFile.path

theorem filled_freshStaging : Filled sha256 [] freshStaging := by
  have lookup : ∀ place, freshStaging.lookup place =
      if place = [] then some .directory
      else if place = leasePlace then some (.file []) else none := by
    intro place
    by_cases root : place = []
    · simp [root]
    · rw [if_neg root, FileTree.lookup_of_ne_nil _ root]
      by_cases same : place = leasePlace
      · subst same
        decide +kernel
      · rw [if_neg same]
        exact Function.update_of_ne same ..
  refine ⟨by simp, ?_, ?_⟩
  · intro place target
    rw [lookup]
    split
    · simp
    · split <;> simp
  · intro place content stands
    rw [lookup] at stands
    split at stands
    · cases stands
    · split at stands
      · next same => exact Or.inl same
      · cases stands

theorem Filled.stageFile
    {entries : List ManifestFile}
    {staging after : FileTree Bytes}
    {path : String}
    {content : Bytes}
    (filled : Filled sha256 entries staging)
    (canonical : CanonicalPath path)
    (staged : Extension.stageFile staging (splitPath path) content =
      .ok after)
    (free : ∀ entry ∈ entries, entry.path ≠ path) :
    Filled sha256
      (entries ++ [⟨path, content.length, sha256 content⟩]) after := by
  have looked := lookup_stageFile staged
  refine ⟨?_, ?_, ?_⟩
  · intro entry member
    rcases List.mem_append.mp member with older | new
    · obtain ⟨canonicalToo, old, stands, alike⟩ :=
        filled.stored entry older
      refine ⟨canonicalToo, old, ?_, alike⟩
      rcases looked (splitPath entry.path) with
        ⟨same, _⟩ | ⟨_, kept | ⟨absent, _⟩⟩
      · exact absurd (splitPath_injective same) (free entry older)
      · rw [kept, stands]
      · rw [stands] at absent
        cases absent
    · rw [List.mem_singleton] at new
      subst new
      refine ⟨canonical, content, ?_, rfl, rfl⟩
      rcases looked (splitPath path) with ⟨_, stands⟩ | ⟨different, _⟩
      · exact stands
      · exact absurd rfl different
  · intro place target
    rcases looked place with ⟨_, file⟩ | ⟨_, kept | ⟨_, directory⟩⟩
    · simp [file]
    · rw [kept]
      exact filled.linkless place target
    · simp [directory]
  · intro place found stands
    rcases looked place with ⟨rfl, _⟩ | ⟨_, kept | ⟨_, directory⟩⟩
    · right
      simp
    · rw [kept] at stands
      rcases filled.listed place found stands with lease | listed
      · exact Or.inl lease
      · right
        rw [List.map_append, List.mem_append]
        exact Or.inl listed
    · rw [stands] at directory
      cases directory

/-- A file is created anew, so no path is listed twice. -/
theorem Filled.free
    {entries : List ManifestFile}
    {staging after : FileTree Bytes}
    {path : String}
    {content : Bytes}
    (filled : Filled sha256 entries staging)
    (staged : Extension.stageFile staging (splitPath path) content =
      .ok after) :
    ∀ entry ∈ entries, entry.path ≠ path := by
  rintro entry member rfl
  obtain ⟨_, old, stands, _⟩ := filled.stored entry member
  unfold Extension.stageFile at staged
  split at staged
  · cases staged
  · next prepared made =>
      rcases FileTree.lookup_makeDirectories made (splitPath entry.path) with
        kept | ⟨absent, _⟩
      · split at staged
        · cases staged
        · next final created =>
            unfold FileTree.createFile at created
            rw [kept, stands] at created
            cases created
      · rw [stands] at absent
        cases absent

theorem filled_writeFiles
    {files : List ArchiveFile}
    {staging after : FileTree Bytes}
    {entries all : List ManifestFile}
    (filled : Filled sha256 entries staging)
    (canonical : ∀ file ∈ files, CanonicalPath file.path)
    (written : writeFiles sha256 files staging entries = .ok (after, all)) :
    Filled sha256 all after ∧
      all.map ManifestFile.path =
        entries.map ManifestFile.path ++ files.map ArchiveFile.path := by
  induction files generalizing staging entries with
  | nil =>
      cases written
      exact ⟨filled, by simp⟩
  | cons file rest inductionHypothesis =>
      rw [List.forall_mem_cons] at canonical
      rw [writeFiles] at written
      obtain ⟨_, _, written⟩ := bind_eq_ok.mp written
      obtain ⟨content, _, written⟩ := bind_eq_ok.mp written
      obtain ⟨place, leads, written⟩ := bind_eq_ok.mp written
      have same : splitPath file.path = place := by
        unfold Extension.placeOf at leads
        rw [canonical.1.filePlace_eq] at leads
        exact Except.ok.inj leads
      subst same
      obtain ⟨_, staged, remaining⟩ := bind_eq_ok.mp written
      obtain ⟨full, paths⟩ := inductionHypothesis
        (filled.stageFile canonical.1 staged (filled.free staged))
        canonical.2 remaining
      exact ⟨full, by rw [paths]; simp⟩

theorem isInternalArchivePath_leasePlace :
    isInternalArchivePath (joinPath leasePlace) = true := by
  decide +kernel

theorem isInternalArchivePath_manifestPlace :
    isInternalArchivePath (joinPath manifestPlace) = true := by
  decide +kernel

/-- An internal place can be removed without touching what is listed. -/
theorem Filled.remove
    {entries : List ManifestFile}
    {staging after : FileTree Bytes}
    {place : List String}
    (filled : Filled sha256 entries staging)
    (internal : isInternalArchivePath (joinPath place) = true)
    (removed : staging.remove place = some after) :
    Filled sha256 entries after := by
  have looked := FileTree.lookup_remove removed
  refine ⟨?_, ?_, ?_⟩
  · intro entry member
    obtain ⟨canonical, content, stands, alike⟩ := filled.stored entry member
    refine ⟨canonical, content, ?_, alike⟩
    rw [looked, if_neg]
    · exact stands
    · intro same
      rw [← same, joinPath_splitPath, canonical.not_internal] at internal
      cases internal
  · intro other target
    rw [looked]
    split
    · simp
    · exact filled.linkless other target
  · intro other content stands
    rw [looked] at stands
    split at stands
    · cases stands
    · exact filled.listed other content stands

theorem Filled.removeStagingLease
    {entries : List ManifestFile}
    {staging : FileTree Bytes}
    (filled : Filled sha256 entries staging) :
    Filled sha256 entries (removeStagingLease staging) := by
  unfold Publishing.removeStagingLease
  cases removed : staging.remove leasePlace with
  | none => exact filled
  | some after =>
      exact filled.remove isInternalArchivePath_leasePlace removed

theorem Filled.createManifest
    {entries : List ManifestFile}
    {staging after : FileTree Bytes}
    (filled : Filled sha256 entries staging)
    (created : createManifest staging = .ok after) :
    Filled sha256 entries after := by
  unfold Publishing.createManifest at created
  split at created
  · cases created
  · cases created
    cases removed : staging.remove manifestPlace with
    | none => exact filled
    | some after =>
        exact filled.remove isInternalArchivePath_manifestPlace removed

/-- A filled directory with its manifest is a verified revision. -/
theorem Filled.verified
    {entries : List ManifestFile}
    {revision : RevisionDir}
    {manifest : Manifest}
    (filled : Filled sha256 entries revision.tree)
    (read : revision.manifest = .decoded manifest)
    (typed : manifest.repoType = repoType)
    (complete : manifest.complete = true)
    (files : manifest.files = entries) :
    revision.Verified sha256 repoType manifest where
  read := read
  typed := typed
  complete := complete
  stored := by
    rw [files]
    exact filled.stored
  ordinary := by
    intro place member _
    have present := ((revision.tree.mem_paths_iff place).mp member).2
    cases stands : revision.tree.lookup place with
    | none => simp [stands] at present
    | some node =>
        cases node with
        | file content => exact Or.inr ⟨content, rfl⟩
        | directory => exact Or.inl rfl
        | link target => exact absurd stands (filled.linkless place target)
  listed := by
    intro place member content external stands
    rcases filled.listed place content stands with lease | listed
    · rw [lease, isInternalArchivePath_leasePlace] at external
      cases external
    · rw [Manifest.paths, files]
      exact listed

/-- What `write_revision` makes of plainly spelled paths verifies, and lists
what was requested. -/
theorem writeRevision_verified
    {request : PublishRequest}
    {revision : RevisionDir}
    (canonical : ∀ file ∈ request.files, CanonicalPath file.path)
    (written : writeRevision sha256 repoType request = .ok revision) :
    ∃ manifest, revision.Verified sha256 repoType manifest ∧
      manifest.paths = request.paths := by
  unfold writeRevision at written
  obtain ⟨⟨staging, entries⟩, filled, written⟩ := bind_eq_ok.mp written
  obtain ⟨withManifest, created, written⟩ := bind_eq_ok.mp written
  cases written
  obtain ⟨full, paths⟩ :=
    filled_writeFiles filled_freshStaging canonical filled
  exact ⟨_, (full.createManifest created).removeStagingLease.verified rfl rfl
    rfl rfl, paths⟩

end Publishing
end ModelKeep
