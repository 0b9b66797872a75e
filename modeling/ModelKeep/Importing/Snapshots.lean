import ModelKeep.Importing.Plan

/-!
# Snapshots and what is archived of them

The entries below a snapshot that are no directories are its files, whatever
they lead to.  A revision mirrors a snapshot if it serves each of these files
under its path, with the bytes that it leads to, and nothing else.
-/

/-! ## Beyond a directory -/

namespace FileTree

variable {α : Type} {tree : FileTree α} {path here place below : List String}

/-- Where no link is on the way, a path goes on from where it leads. -/
theorem walk_onward
    {follow : List String → Option (List String)}
    (stands : tree.Stands (place ++ below))
    (follows : ∀ onward, follow onward = some place →
      follow (onward ++ below) = some (place ++ below))
    (leads : tree.walk follow here path = some place) :
    tree.walk follow here (path ++ below) = some (place ++ below) := by
  induction path generalizing here with
  | nil =>
      unfold walk at leads
      cases leads
      exact tree.walk_plain follow _ below stands.2 stands.1
  | cons component rest inductionHypothesis =>
      rw [List.cons_append]
      unfold walk at leads ⊢
      split at leads
      · next directory =>
          rw [if_pos directory]
          split at leads
          · next blank =>
              rw [if_pos blank]
              exact inductionHypothesis leads
          · next named =>
              rw [if_neg named]
              split at leads
              · next parent =>
                  rw [if_pos parent]
                  split at leads
                  · cases leads
                  · next inside =>
                      rw [if_neg inside]
                      exact inductionHypothesis leads
              · next child =>
                  rw [if_neg child]
                  split at leads
                  · cases leads
                  · cases leads
                  · next target found =>
                      rw [← List.append_assoc]
                      exact follows _ leads
                  · exact inductionHypothesis leads
      · cases leads

theorem canonicalize_onward
    (stands : tree.Stands (place ++ below))
    (leads : tree.canonicalize path = some place) :
    tree.canonicalize (path ++ below) = some (place ++ below) := by
  unfold canonicalize at leads ⊢
  generalize 40 = links at leads ⊢
  induction links generalizing path with
  | zero => exact walk_onward stands nofun leads
  | succ links inductionHypothesis =>
      exact walk_onward stands (fun _ => inductionHypothesis) leads

theorem stands_of_isDirectory
    (directory : tree.isDirectory place = true) :
    tree.Stands place := by
  rw [isDirectory_iff] at directory
  simp [Stands, directory]

/-- An entry of the directory that a path leads to. -/
theorem lstat_onward
    {name : String}
    (legal : LegalName name)
    (leads : tree.canonicalize path = some place) :
    tree.lstat (path ++ [name]) = tree.lookup (place ++ [name]) := by
  unfold lstat
  simp [legal.1, legal.2.1, leads]

end FileTree

namespace ModelKeep
namespace Importing

/-! ## Files of a snapshot -/

namespace Cache

variable (cache : Cache)

/-- What stands here below a directory is no directory itself. -/
def Holds (place components : List String) : Prop :=
  ∃ node, cache.tree.lookup (place ++ components) = some node ∧
    node ≠ .directory

/-- The path of a file in the archive. -/
def pathOf (components : List String) : String :=
  joinPath (components.map cache.text)

/-- A file below a snapshot, as it is requested. -/
def sourceFile (snapshot components : List String) :
    FileSystem.SourceFile :=
  ⟨cache.pathOf components, snapshot ++ components⟩

end Cache

section collecting

variable {cache : Cache} {snapshot place inner components : List String}
  {files all : List FileSystem.SourceFile} {file : FileSystem.SourceFile}

theorem Cache.Holds.ne_of_isDirectory
    (holds : cache.Holds place components)
    (directory : cache.tree.isDirectory (place ++ inner) = true) :
    components ≠ inner := by
  rintro rfl
  obtain ⟨node, found, other⟩ := holds
  rw [FileTree.isDirectory_iff, found] at directory
  exact other (Option.some.inj directory)

/-- A loop that adds to a list adds what its rounds add. -/
theorem mem_foldlM
    {α β : Type}
    {step : List α → β → Option (List α)}
    {gives : β → α → Prop}
    {names : List β}
    {value : α}
    (each : ∀ name ∈ names, ∀ before after, step before name = some after →
      (value ∈ after ↔ value ∈ before ∨ gives name value))
    {before after : List α}
    (folds : names.foldlM step before = some after) :
    value ∈ after ↔ value ∈ before ∨ ∃ name ∈ names, gives name value := by
  induction names generalizing before with
  | nil =>
      cases folds
      simp
  | cons name rest inductionHypothesis =>
      rw [List.forall_mem_cons] at each
      rw [List.foldlM_cons] at folds
      obtain ⟨middle, first, later⟩ := Option.bind_eq_some_iff.mp folds
      rw [inductionHypothesis each.2 later, each.1 before middle first,
        List.exists_mem_cons_iff, or_assoc]

theorem Cache.mem_listing
    {name : String} :
    name ∈ cache.listing place ↔
      (cache.tree.lookup (place ++ [name])).isSome := by
  rw [(cache.listed place).mem_iff, FileTree.mem_sortNames,
    FileTree.mem_entries]

/-- The files below a directory are those below its entries. -/
theorem exists_below_iff
    {wanted : List String → Prop}
    (directory : cache.tree.isDirectory (place ++ inner) = true) :
    (∃ name ∈ cache.listing (place ++ inner), ∃ components,
        inner ++ [name] <+: components ∧ cache.Holds place components ∧
          wanted components) ↔
      ∃ components, inner <+: components ∧ cache.Holds place components ∧
        wanted components := by
  constructor
  · rintro ⟨name, _, components, begins, holds, right⟩
    exact ⟨components, (List.prefix_append inner [name]).trans begins, holds,
      right⟩
  · rintro ⟨components, ⟨rest, rfl⟩, holds, right⟩
    cases rest with
    | nil =>
        rw [List.append_nil] at holds
        exact absurd rfl (holds.ne_of_isDirectory directory)
    | cons name rest =>
        have regroup : inner ++ name :: rest = inner ++ [name] ++ rest := by
          simp
        refine ⟨name, ?_, inner ++ name :: rest, ⟨rest, regroup.symm⟩,
          holds, right⟩
        rw [Cache.mem_listing, List.append_assoc]
        obtain ⟨node, found, _⟩ := holds
        by_cases last : rest = []
        · subst last
          rw [found]
          rfl
        · rw [regroup, ← List.append_assoc] at found
          have above := cache.tree.isDirectory_of_append _ rest last
            (by rw [found]; rfl)
          rw [FileTree.isDirectory_iff] at above
          rw [above]
          rfl

/-- What is collected is every file below the directory, at any depth, and
nothing else. -/
theorem mem_collectFiles
    {levels : Nat}
    (leads : cache.tree.canonicalize snapshot = some place)
    (directory : cache.tree.isDirectory (place ++ inner) = true)
    (found : cache.collectFiles snapshot levels (snapshot ++ inner) files =
      some all) :
    file ∈ all ↔ file ∈ files ∨ ∃ components, inner <+: components ∧
      cache.Holds place components ∧
        file = cache.sourceFile snapshot components := by
  induction levels generalizing inner files all with
  | zero => cases found
  | succ levels inductionHypothesis =>
      have leadsInside : cache.tree.canonicalize (snapshot ++ inner) =
          some (place ++ inner) :=
        FileTree.canonicalize_onward (FileTree.stands_of_isDirectory directory)
          leads
      have listed : cache.readDir (snapshot ++ inner) =
          .ok (cache.listing (place ++ inner)) := by
        simp only [Cache.readDir, Disk.canonicalize, Cache.disk, leadsInside]
        change (if cache.tree.isDirectory (place ++ inner) = true then _
          else _) = _
        rw [if_pos directory]
      rw [Cache.collectFiles, listed] at found
      rw [← exists_below_iff directory]
      refine @mem_foldlM _ _ _ (fun name file => ∃ components,
        inner ++ [name] <+: components ∧ cache.Holds place components ∧
          file = cache.sourceFile snapshot components) _ _ ?_ _ _ found
      intro name member before after visited
      have present := Cache.mem_listing.mp member
      rw [List.append_assoc] at present
      have legal := cache.tree.legal_of_lookup present name (by simp)
      have stands : cache.tree.lstat (snapshot ++ inner ++ [name]) =
          cache.tree.lookup (place ++ (inner ++ [name])) := by
        rw [FileTree.lstat_onward legal leadsInside, List.append_assoc]
      unfold Cache.collectEntry Disk.symlinkMetadata at visited
      rw [show cache.disk.tree = cache.tree from rfl, stands,
        List.append_assoc] at visited
      cases node : cache.tree.lookup (place ++ (inner ++ [name])) with
      | none =>
          rw [node] at present
          cases present
      | some value =>
          rw [node] at visited
          -- An entry is gone through if it is a directory, and else a file.
          by_cases folder : value = .directory
          · subst folder
            exact inductionHypothesis
              ((FileTree.isDirectory_iff _ _).mpr node) visited
          · have added : after = before ++
                [cache.sourceFile snapshot (inner ++ [name])] := by
              rw [List.drop_left] at visited
              cases value with
              | directory => exact absurd rfl folder
              | file content => exact (Option.some.inj visited).symm
              | link target => exact (Option.some.inj visited).symm
            rw [added, List.mem_append, List.mem_singleton]
            refine or_congr_right ⟨fun same => ?_, ?_⟩
            · exact ⟨_, List.prefix_refl _, ⟨value, node, folder⟩, same⟩
            · rintro ⟨components, ⟨rest, rfl⟩, holds, same⟩
              cases rest with
              | nil => rwa [List.append_nil] at same
              | cons next rest =>
                  obtain ⟨other, deeper, _⟩ := holds
                  rw [← List.append_assoc] at deeper
                  have above := cache.tree.isDirectory_of_append _
                    (next :: rest) (by simp) (by rw [deeper]; rfl)
                  rw [FileTree.isDirectory_iff, node] at above
                  exact absurd (Option.some.inj above) folder

end collecting


/-! ## What is written of a list of files -/

section writing

open Publishing

variable {sha256 : Bytes → String} {repoType : RepositoryType}
  {files : List ArchiveFile} {staging after : FileTree Bytes}
  {entries all : List ManifestFile}

theorem valid_of_writeFiles
    (written : writeFiles sha256 files staging entries = .ok (after, all)) :
    ∀ file ∈ files, validateRelativeFilePath file.path = .ok () := by
  induction files generalizing staging entries with
  | nil => simp
  | cons file rest inductionHypothesis =>
      rw [writeFiles] at written
      obtain ⟨_, valid, written⟩ := bind_eq_ok.mp written
      obtain ⟨content, _, written⟩ := bind_eq_ok.mp written
      obtain ⟨place, _, written⟩ := bind_eq_ok.mp written
      obtain ⟨_, _, remaining⟩ := bind_eq_ok.mp written
      rw [List.forall_mem_cons]
      exact ⟨valid, inductionHypothesis remaining⟩

/-- What is listed so far stays in place, and every file is put in place with
its bytes. -/
theorem contents_of_writeFiles
    (filled : Filled sha256 entries staging)
    (canonical : ∀ file ∈ files, CanonicalPath file.path)
    (written : writeFiles sha256 files staging entries = .ok (after, all)) :
    (∀ entry ∈ entries, after.lookup (splitPath entry.path) =
        staging.lookup (splitPath entry.path)) ∧
      ∀ file ∈ files, ∃ content, file.content = .ok content ∧
        after.lookup (splitPath file.path) = some (.file content) := by
  induction files generalizing staging entries with
  | nil =>
      cases written
      simp
  | cons file rest inductionHypothesis =>
      rw [List.forall_mem_cons] at canonical
      rw [writeFiles] at written
      obtain ⟨_, _, written⟩ := bind_eq_ok.mp written
      obtain ⟨content, read, written⟩ := bind_eq_ok.mp written
      obtain ⟨place, leads, written⟩ := bind_eq_ok.mp written
      have same : splitPath file.path = place := by
        unfold Extension.placeOf at leads
        rw [canonical.1.filePlace_eq] at leads
        exact Except.ok.inj leads
      subst same
      obtain ⟨next, staged, remaining⟩ := bind_eq_ok.mp written
      have free := filled.free staged
      obtain ⟨kept, contents⟩ := inductionHypothesis
        (filled.stageFile canonical.1 staged free) canonical.2 remaining
      have looked := lookup_stageFile staged
      refine ⟨fun entry member => ?_, ?_⟩
      · rw [kept entry (List.mem_append_left _ member)]
        rcases looked (splitPath entry.path) with
          ⟨same, _⟩ | ⟨_, same | ⟨absent, _⟩⟩
        · exact absurd (splitPath_injective same) (free entry member)
        · exact same
        · obtain ⟨_, old, stands, _⟩ := filled.stored entry member
          rw [stands] at absent
          cases absent
      · rw [List.forall_mem_cons]
        refine ⟨⟨content, read, ?_⟩, contents⟩
        have listed : (⟨file.path, content.length, sha256 content⟩ :
            ManifestFile) ∈ entries ++
              [⟨file.path, content.length, sha256 content⟩] := by simp
        rw [kept _ listed]
        rcases looked (splitPath file.path) with ⟨_, stands⟩ | ⟨other, _⟩
        · exact stands
        · exact absurd rfl other

theorem lookup_getD_remove
    {tree : FileTree Bytes}
    {place other : List String}
    (different : other ≠ place) :
    ((tree.remove place).getD tree).lookup other = tree.lookup other := by
  cases removed : tree.remove place with
  | none => rfl
  | some after =>
      rw [Option.getD_some, FileTree.lookup_remove removed, if_neg different]

/-- A revision that is written serves every requested file with its bytes,
and nothing else. -/
theorem serves_of_writeRevision
    {request : PublishRequest}
    {revision : RevisionDir}
    (plain : ∀ file ∈ request.files, ∀ component ∈ splitPath file.path,
      component ≠ "" ∧ component ≠ ".")
    (written : writeRevision sha256 repoType request = .ok revision) :
    (∃ count, revision.verifyRevision sha256 repoType = .ok count) ∧
      (∀ file ∈ request.files, ∃ content, file.content = .ok content ∧
        revision.resolveFile repoType file.path =
          .ok ⟨splitPath file.path, content.length, sha256 content⟩ ∧
        revision.tree.lookup (splitPath file.path) =
          some (.file content)) ∧
      ∀ path resolved, revision.resolveFile repoType path = .ok resolved →
        ∃ file ∈ request.files, path = file.path := by
  have whole := written
  unfold writeRevision at written
  obtain ⟨⟨staging, entries⟩, filled, written⟩ := bind_eq_ok.mp written
  obtain ⟨withManifest, created, written⟩ := bind_eq_ok.mp written
  have canonical : ∀ file ∈ request.files, CanonicalPath file.path :=
    fun file member =>
      ⟨valid_of_writeFiles filled file member, plain file member⟩
  obtain ⟨manifest, verified, paths⟩ :=
    writeRevision_verified canonical whole
  refine ⟨⟨_, RevisionDir.verifyRevision_eq_ok.mpr ⟨manifest, verified, rfl⟩⟩,
    fun file member => ?_, fun path resolved found => ?_⟩
  · obtain ⟨content, read, stands⟩ :=
      (contents_of_writeFiles filled_freshStaging canonical filled).2 file
        member
    have external := (canonical file member).not_internal
    have kept : ∀ place, isInternalArchivePath (joinPath place) = true →
        splitPath file.path ≠ place := by
      rintro place internal rfl
      rw [joinPath_splitPath, external] at internal
      cases internal
    have inPlace : revision.tree.lookup (splitPath file.path) =
        some (.file content) := by
      cases written
      unfold Publishing.createManifest at created
      split at created
      · cases created
      · cases created
        change ((((staging.remove manifestPlace).getD staging).remove
          leasePlace).getD _).lookup _ = _
        rw [lookup_getD_remove (kept _ isInternalArchivePath_leasePlace),
          lookup_getD_remove (kept _ isInternalArchivePath_manifestPlace),
          stands]
    have listed : file.path ∈ manifest.paths := by
      rw [paths]
      exact List.mem_map_of_mem member
    obtain ⟨entry, inManifest, same⟩ := List.mem_map.mp listed
    obtain ⟨first, other, _, standsToo, _, hashed, digest, resolves⟩ :=
      verified.toStocked.resolveFile inManifest
    rw [same, inPlace] at standsToo
    cases standsToo
    rw [same, digest, ← hashed] at resolves
    exact ⟨content, read, resolves, inPlace⟩
  · by_contra unlisted
    apply verified.toStocked.unlisted _ resolved found
    rw [paths]
    intro listed
    obtain ⟨file, member, same⟩ := List.mem_map.mp listed
    exact unlisted ⟨file, member, same.symm⟩

end writing

/-! ## Mirrors -/

/-- Below the revision there are the files of the snapshot, each with the
bytes that its path leads to inside the source root, and nothing else. -/
structure Mirrors (sha256 : Bytes → String) (cache : Cache)
    (sourceRoot snapshot place : List String) (repoType : RepositoryType)
    (revision : RevisionDir) : Prop where
  verifies : ∃ count, revision.verifyRevision sha256 repoType = .ok count
  serves : ∀ components, cache.Holds place components →
    ∃ source content,
      cache.disk.canonicalize (snapshot ++ components) = .ok source ∧
      sourceRoot <+: source ∧
      cache.disk.read (snapshot ++ components) = .ok content ∧
      revision.resolveFile repoType (cache.pathOf components) =
        .ok ⟨components.map cache.text, content.length, sha256 content⟩ ∧
      revision.tree.lookup (components.map cache.text) =
        some (.file content)
  only : ∀ path resolved, revision.resolveFile repoType path = .ok resolved →
    ∃ components, cache.Holds place components ∧
      path = cache.pathOf components

section mirrors

variable {cache : Cache} {snapshot place components : List String}

/-- What the copy of a file finds is what its path leads to. -/
theorem read_of_content
    {sourceRoot : List String}
    {file : FileSystem.SourceFile}
    {content : Bytes}
    (found : cache.content sourceRoot file = .ok content) :
    ∃ source, cache.disk.canonicalize file.source = .ok source ∧
      sourceRoot <+: source ∧ cache.disk.read file.source = .ok content := by
  unfold Cache.content at found
  obtain ⟨source, leads, found⟩ := bind_eq_ok.mp found
  refine ⟨source, leads, ?_⟩
  split at found
  · cases found
  · next inside =>
      refine ⟨not_not.mp inside, ?_⟩
      have onward : cache.disk.tree.canonicalize file.source =
          some source := by
        unfold Disk.canonicalize at leads
        split at leads
        · next found =>
            rw [found, Except.ok.inj leads]
        · cases leads
      have again := (FileTree.stands_of_canonicalize onward).canonicalize
      split at found
      · next reads =>
          cases found
          have stands : cache.disk.tree.lookup source =
              some (.file content) := by
            unfold Disk.metadata at reads
            rw [again, Option.bind_some] at reads
            split at reads
            · next node found => rw [found, Except.ok.inj reads]
            · cases reads
          unfold Disk.read Disk.metadata
          rw [onward, Option.bind_some, stands]
          rfl
      · cases found

theorem Cache.Holds.splitPath_pathOf
    (legible : ∀ name, LegalName name → LegalName (cache.text name))
    (directory : cache.tree.isDirectory place = true)
    (holds : cache.Holds place components) :
    splitPath (cache.pathOf components) = components.map cache.text ∧
      ∀ component ∈ components.map cache.text, LegalName component := by
  have legal : ∀ component ∈ components.map cache.text,
      LegalName component := by
    intro component member
    obtain ⟨name, inside, rfl⟩ := List.mem_map.mp member
    obtain ⟨node, found, _⟩ := holds
    exact legible name (cache.tree.legal_of_lookup (by rw [found]; rfl) name
      (List.mem_append_right _ inside))
  refine ⟨splitPath_joinPath ?_ fun component member =>
    (legal component member).2.2.2, legal⟩
  intro empty
  have nothing : components = [] := List.map_eq_nil_iff.mp empty
  subst nothing
  rw [← List.append_nil place] at directory
  exact absurd rfl (holds.ne_of_isDirectory directory)

/-- The revision that is written of what was collected mirrors the
snapshot. -/
theorem mirrors_of_writeRevision
    {sha256 : Bytes → String}
    {repoType : RepositoryType}
    {sourceRoot : List String}
    {levels : Nat}
    {files : List FileSystem.SourceFile}
    {repoId requestedRevision commit : String}
    {revision : RevisionDir}
    (legible : ∀ name, LegalName name → LegalName (cache.text name))
    (leads : cache.tree.canonicalize snapshot = some place)
    (directory : cache.tree.isDirectory place = true)
    (found : cache.collectFiles snapshot levels snapshot [] = some files)
    (written : Publishing.writeRevision sha256 repoType
      ⟨repoId, requestedRevision, commit,
        files.map (cache.archiveFile sourceRoot)⟩ = .ok revision) :
    Mirrors sha256 cache sourceRoot snapshot place repoType revision := by
  have collected : ∀ file, file ∈ files ↔ ∃ components,
      cache.Holds place components ∧
        file = cache.sourceFile snapshot components := by
    intro file
    rw [← List.append_nil snapshot] at found
    rw [mem_collectFiles leads (by rwa [List.append_nil])
      (by rwa [List.append_nil] at found ⊢)]
    simp
  obtain ⟨verifies, serves, only⟩ := serves_of_writeRevision (by
    intro file member component inside
    obtain ⟨source, inFiles, rfl⟩ := List.mem_map.mp member
    obtain ⟨components, holds, rfl⟩ := (collected source).mp inFiles
    obtain ⟨split, legal⟩ := holds.splitPath_pathOf legible directory
    change component ∈ splitPath (cache.pathOf components) at inside
    rw [split] at inside
    exact ⟨(legal component inside).1, (legal component inside).2.1⟩) written
  refine ⟨verifies, fun components holds => ?_, fun path resolved resolves =>
    ?_⟩
  · have member := (collected _).mpr ⟨components, holds, rfl⟩
    obtain ⟨content, read, resolves, stands⟩ :=
      serves _ (List.mem_map_of_mem member)
    obtain ⟨source, leadsTo, inside, bytes⟩ := read_of_content read
    have split := (holds.splitPath_pathOf legible directory).1
    change revision.resolveFile repoType (cache.pathOf components) =
      .ok ⟨splitPath (cache.pathOf components), _, _⟩ at resolves
    change revision.tree.lookup (splitPath (cache.pathOf components)) = _
      at stands
    rw [split] at resolves stands
    exact ⟨source, content, leadsTo, inside, bytes, resolves, stands⟩
  · obtain ⟨file, member, rfl⟩ := only path resolved resolves
    obtain ⟨source, inFiles, rfl⟩ := List.mem_map.mp member
    obtain ⟨components, holds, rfl⟩ := (collected source).mp inFiles
    exact ⟨components, holds, rfl⟩

end mirrors

end Importing
end ModelKeep
