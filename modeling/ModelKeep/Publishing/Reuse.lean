import ModelKeep.Archive
import ModelKeep.Publishing.Build

/-!
# Publishing a staging directory in place

What is requested is hashed where it lies, and whatever is not listed is
removed.  Without links, and for plainly spelled paths, this leaves a verified
revision as well.
-/

namespace ModelKeep
namespace Publishing

variable {sha256 : Bytes → String} {repoType : RepositoryType}

/-- Where the files of a publication come from. -/
inductive Source
  /-- Bytes, or files elsewhere that are copied. -/
  | files (request : PublishRequest)
  /-- A staging directory that is published itself. -/
  | staging (repoId : String) (request : Archive.SourcePublishRequest)
      (payload : FileTree Bytes)

namespace Source

def repoId : Source → String
  | .files request => request.repoId
  | .staging repoId _ _ => repoId

def requestedRevision : Source → String
  | .files request => request.requestedRevision
  | .staging _ request _ => request.requestedRevision

def commit : Source → String
  | .files request => request.commit
  | .staging _ request _ => request.commit

def paths : Source → List String
  | .files request => request.paths
  | .staging _ request _ => request.files

/-- The directory that is to be renamed into place. -/
def revision (sha256 : Bytes → String) (repoType : RepositoryType) :
    Source → Except ArchiveError RevisionDir
  | .files request => writeRevision sha256 repoType request
  | .staging repoId request payload => do
      let entries ← Archive.sourceEntries sha256 payload request.files []
      return Archive.sourceRevision ⟨repoType, repoId⟩ request payload entries

/-- Its paths are plainly spelled, and it has no links. -/
structure Plain (source : Source) : Prop where
  canonical : ∀ path ∈ source.paths, CanonicalPath path
  linkless : ∀ repoId request payload,
    source = .staging repoId request payload → payload.Linkless

end Source

theorem sourceEntries_stored
    {payload : FileTree Bytes}
    {files archived : List String}
    {entries : List ManifestFile}
    (made : Archive.sourceEntries sha256 payload files archived =
      .ok entries) :
    ∀ entry ∈ entries, ∃ content,
      payload.lstat (splitPath entry.path) = some (.file content) ∧
        content.length = entry.size ∧ sha256 content = entry.sha256 := by
  induction files generalizing archived entries with
  | nil =>
      cases made
      simp
  | cons path rest inductionHypothesis =>
      rw [Archive.sourceEntries] at made
      obtain ⟨_, _, made⟩ := bind_eq_ok.mp made
      split at made
      · cases made
      · split at made
        · cases made
        · next content stands =>
            obtain ⟨others, madeOthers, same⟩ := bind_eq_ok.mp made
            cases same
            rw [List.forall_mem_cons]
            exact ⟨⟨content, stands, rfl, rfl⟩,
              inductionHypothesis madeOthers⟩
        · cases made

/-- Without links `lstat` of a plain path finds what stands there. -/
theorem lookup_of_lstat
    {tree : FileTree Bytes}
    {path : String}
    {node : FileNode Bytes}
    (linkless : tree.Linkless)
    (canonical : CanonicalPath path)
    (found : tree.lstat (splitPath path) = some node) :
    tree.lookup (splitPath path) = some node := by
  have nonempty := splitPath_ne_nil path
  unfold FileTree.lstat at found
  rw [List.getLast?_eq_some_getLast nonempty] at found
  dsimp only at found
  rw [if_neg (by simp [canonical.plain _ (List.getLast_mem nonempty)])]
    at found
  split at found
  · next parent leads =>
      have inside : ".." ∉ (splitPath path).dropLast := fun member =>
        canonical.not_parent (List.mem_of_mem_dropLast member) rfl
      have plain : FileTree.plain (splitPath path).dropLast =
          (splitPath path).dropLast :=
        FileTree.plain_eq_self fun component member =>
          canonical.plain component (List.mem_of_mem_dropLast member)
      rw [linkless.canonicalize_eq inside leads, plain,
        List.dropLast_append_getLast nonempty] at found
      exact found
  · cases found

/-- A staging directory that is published in place verifies. -/
theorem sourceRevision_verified
    {repoId : String}
    {request : Archive.SourcePublishRequest}
    {payload : FileTree Bytes}
    {entries : List ManifestFile}
    (canonical : ∀ path ∈ request.files, CanonicalPath path)
    (linkless : payload.Linkless)
    (made : Archive.sourceEntries sha256 payload request.files [] =
      .ok entries) :
    ∃ manifest, (Archive.sourceRevision ⟨repoType, repoId⟩ request payload
        entries).Verified sha256 repoType manifest ∧
      manifest.paths = request.files := by
  have paths := (Archive.sourceEntries_eq_ok made).1
  refine ⟨_, Filled.verified ?_ rfl rfl rfl rfl, paths⟩
  refine ⟨?_, FileTree.linkless_prune _ _, ?_⟩
  · intro entry member
    have requested : entry.path ∈ request.files := by
      rw [← paths]
      exact List.mem_map_of_mem member
    have plain := canonical entry.path requested
    obtain ⟨content, found, alike⟩ := sourceEntries_stored made entry member
    refine ⟨plain, content, ?_, alike⟩
    apply (FileTree.lookup_prune_file _ _ _ _).mpr
    refine ⟨lookup_of_lstat linkless plain found, ?_⟩
    rw [joinPath_splitPath, decide_eq_true_eq]
    exact List.mem_map_of_mem member
  · intro place content stands
    have kept := ((FileTree.lookup_prune_file _ _ _ _).mp stands).2
    exact Or.inr (of_decide_eq_true kept)

/-- Whatever a plain publication puts in place verifies, and lists what was
requested. -/
theorem Source.Plain.verified
    {source : Source}
    {revision : RevisionDir}
    (plain : source.Plain)
    (made : source.revision sha256 repoType = .ok revision) :
    ∃ manifest, revision.Verified sha256 repoType manifest ∧
      manifest.paths = source.paths := by
  cases source with
  | files request =>
      apply writeRevision_verified _ made
      intro file member
      exact plain.canonical file.path (List.mem_map_of_mem member)
  | staging repoId request payload =>
      obtain ⟨entries, found, same⟩ := bind_eq_ok.mp made
      cases same
      exact sourceRevision_verified plain.canonical
        (plain.linkless repoId request payload rfl) found

end Publishing
end ModelKeep
