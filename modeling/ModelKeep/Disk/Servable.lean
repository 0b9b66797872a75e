import ModelKeep.Disk.SelfCheck

/-!
# What a clean self-check promises

The self-check looks at the last component of a listed path and follows
whatever stands before it; serving follows the whole path and confines it.
The two agree on a listed file unless a directory link leads out of the
revision, the manifest lists the path with two digests, or it is no text.
-/

namespace ModelKeep
namespace Disk

open SelfCheckReport

variable {disk : Disk} {codec : ManifestCodec} {repoType : RepositoryType}

/-! ## Paths and names -/

theorem canonicalize_eq_ok {path place : List String} :
    disk.canonicalize path = .ok place ↔
      disk.tree.canonicalize path = some place := by
  unfold canonicalize
  cases disk.tree.canonicalize path <;> simp

theorem metadata_eq_ok
    {path : List String}
    {node : FileNode Bytes} :
    disk.metadata path = .ok node ↔
      ∃ place, disk.tree.canonicalize path = some place ∧
        disk.tree.lookup place = some node := by
  unfold metadata
  cases leads : disk.tree.canonicalize path with
  | none => simp
  | some place =>
      cases stands : disk.tree.lookup place <;> simp [stands]

/-- What stands at the end of a path stands at the place it leads to. -/
theorem metadata_of_canonicalize
    {path place : List String}
    {node : FileNode Bytes}
    (leads : disk.tree.canonicalize path = some place)
    (stands : disk.tree.lookup place = some node) :
    disk.metadata place = .ok node :=
  metadata_eq_ok.mpr
    ⟨place, (FileTree.stands_of_canonicalize leads).canonicalize, stands⟩

theorem legal_of_mem_readDir
    {path : List String}
    {name : String}
    (member : name ∈ disk.readDir path) :
    LegalName name := by
  unfold readDir at member
  split at member
  · next place leads =>
      rw [FileTree.mem_sortNames, FileTree.mem_entries] at member
      exact disk.tree.legal_of_lookup member name (by simp)
  · cases member

theorem joinPath_pair (first second : String) :
    joinPath [first, second] = first ++ "/" ++ second := by
  apply String.toList_injective
  simp [joinPath, List.intercalate]

/-- A repository id is read as it was put together. -/
theorem validateRepoId_pair
    {namespaceName name : String}
    {parts : String × String}
    (legal : LegalName namespaceName)
    (legalToo : LegalName name)
    (valid : validateRepoId (namespaceName ++ "/" ++ name) = .ok parts) :
    parts = (namespaceName, name) := by
  rw [← joinPath_pair] at valid
  unfold validateRepoId at valid
  rw [splitPath_joinPath (by simp)
    (by simp [legal.2.2.2, legalToo.2.2.2])] at valid
  dsimp only at valid
  split at valid
  · cases valid
  · obtain ⟨_, _, valid⟩ := bind_eq_ok.mp valid
    obtain ⟨_, _, valid⟩ := bind_eq_ok.mp valid
    cases valid
    rfl

/-! ## What the walk comes to -/

/-- The self-check comes to this repository. -/
structure Visited (disk : Disk) (repoType : RepositoryType)
    (namespaceName name : String) : Prop where
  typed : disk.isDir (disk.root ++ [repoType.archiveDirectory]) = true
  namespaceIn : namespaceName ∈
    disk.directories (disk.root ++ [repoType.archiveDirectory])
  namespaceSafe : validateComponent namespaceName = .ok ()
  nameIn : name ∈ disk.directories
    (disk.root ++ [repoType.archiveDirectory] ++ [namespaceName])
  accepted : ∃ parts,
    validateRepoId (namespaceName ++ "/" ++ name) = .ok parts

/-- Where the directories of a repository are. -/
def below (disk : Disk) (repoType : RepositoryType)
    (namespaceName name : String) (directory : String) : List String :=
  disk.root ++ [repoType.archiveDirectory] ++ [namespaceName] ++ [name] ++
    [directory]

/-- The self-check looks at this revision. -/
structure Checked (disk : Disk) (repoType : RepositoryType)
    (namespaceName name commit : String) : Prop
    extends Visited disk repoType namespaceName name where
  revisions :
    disk.isDir (disk.below repoType namespaceName name "revisions") = true
  commitIn : commit ∈
    disk.directories (disk.below repoType namespaceName name "revisions")
  valid : validateRevision commit = .ok ()

/-- The self-check counts this ref. -/
structure Counted (disk : Disk) (repoType : RepositoryType)
    (namespaceName name reference : String) : Prop
    extends Visited disk repoType namespaceName name where
  refs : disk.isDir (disk.below repoType namespaceName name "refs") = true
  referenceIn : reference ∈
    disk.files (disk.below repoType namespaceName name "refs")
  shown : startsWith reference "." = false

variable {namespaceName name commit reference : String} {finding : Finding}

theorem legal_of_mem_directories
    {path : List String}
    (member : name ∈ disk.directories path) :
    LegalName name :=
  legal_of_mem_readDir (List.mem_of_mem_filter member)

theorem Visited.validateRepoId
    (visited : Visited disk repoType namespaceName name) :
    ModelKeep.validateRepoId (namespaceName ++ "/" ++ name) =
      .ok (namespaceName, name) := by
  obtain ⟨parts, valid⟩ := visited.accepted
  rw [valid, validateRepoId_pair
    (legal_of_mem_directories visited.namespaceIn)
    (legal_of_mem_directories visited.nameIn) valid]

theorem Visited.mem_selfCheck
    (visited : Visited disk repoType namespaceName name)
    (member : finding ∈ (disk.selfCheckRepository codec repoType
      namespaceName (disk.root ++ [repoType.archiveDirectory] ++
        [namespaceName]) name).findings) :
    finding ∈ (disk.selfCheck codec).findings := by
  refine mem_collect.mpr ⟨repoType, by cases repoType <;> simp, ?_⟩
  unfold selfCheckRepositoryType
  dsimp only
  rw [if_pos visited.typed]
  refine mem_collect.mpr ⟨namespaceName, visited.namespaceIn, ?_⟩
  rw [visited.namespaceSafe]
  exact mem_collect.mpr ⟨name, visited.nameIn, member⟩

theorem Checked.mem_selfCheck
    (checked : Checked disk repoType namespaceName name commit)
    (member : finding ∈ (disk.selfCheckRevision codec repoType
      (namespaceName ++ "/" ++ name) commit
      (disk.below repoType namespaceName name "revisions" ++
        [commit])).1.findings) :
    finding ∈ (disk.selfCheck codec).findings := by
  apply checked.toVisited.mem_selfCheck
  unfold selfCheckRepository
  dsimp only
  rw [checked.validateRepoId]
  simp only [findings_append, List.mem_append]
  refine Or.inl (Or.inr ?_)
  unfold selfCheckRevisions
  split
  · refine mem_collect.mpr ⟨commit, checked.commitIn, ?_⟩
    rw [checked.valid]
    simp only [findings_append, List.mem_append]
    exact Or.inr member
  · next absent => exact absurd checked.revisions absent

theorem Counted.mem_selfCheck
    (counted : Counted disk repoType namespaceName name reference)
    (member : finding ∈ (disk.selfCheckRef repoType
      (namespaceName ++ "/" ++ name)
      (disk.below repoType namespaceName name "refs")
      (disk.servable codec repoType (namespaceName ++ "/" ++ name)
        (disk.below repoType namespaceName name "revisions"))
      reference).findings) :
    finding ∈ (disk.selfCheck codec).findings := by
  apply counted.toVisited.mem_selfCheck
  unfold selfCheckRepository
  dsimp only
  rw [counted.validateRepoId]
  simp only [findings_append, List.mem_append]
  refine Or.inr ?_
  unfold selfCheckRefs
  split
  · exact mem_collect.mpr ⟨reference, counted.referenceIn, member⟩
  · next absent => exact absurd counted.refs absent

/-! ## What the findings are about -/

/-- The finding is about this revision, not about a ref. -/
structure Finding.About (finding : Finding) (repoType : RepositoryType)
    (repoId commit : String) : Prop where
  repoType : finding.repoType = repoType
  repoId : finding.repoId = repoId
  commit : finding.commit = some commit
  reference : finding.reference = none

/-- The report has nothing on this revision. -/
def CleanRevision (report : SelfCheckReport) (repoType : RepositoryType)
    (repoId commit : String) : Prop :=
  ∀ finding ∈ report.findings, ¬Finding.About finding repoType repoId commit

/-- The report has nothing on this ref. -/
def CleanRef (report : SelfCheckReport) (repoType : RepositoryType)
    (repoId reference : String) : Prop :=
  ∀ finding ∈ report.findings,
    ¬(finding.repoType = repoType ∧ finding.repoId = repoId ∧
      finding.reference = some reference)

section about

variable {repoId : String} {revision candidate : List String}
  {entry : ManifestFile} {template : Finding}

theorem about_found
    {kind : FindingKind}
    (about : Finding.About template repoType repoId commit)
    (member : finding ∈ (found { template with kind := kind }).findings) :
    Finding.About finding repoType repoId commit := by
  rw [findings_found, List.mem_singleton] at member
  subst member
  exact ⟨about.repoType, about.repoId, about.commit, about.reference⟩

theorem about_selfCheckSize
    (about : Finding.About template repoType repoId commit)
    (member : finding ∈
      (disk.selfCheckSize candidate entry template).findings) :
    Finding.About finding repoType repoId commit := by
  unfold selfCheckSize at member
  split at member
  · split at member
    · exact about_found about member
    · cases member
  · exact about_found about member

theorem about_selfCheckPath
    (about : Finding.About template repoType repoId commit)
    (member : finding ∈
      (disk.selfCheckPath revision entry template).findings) :
    Finding.About finding repoType repoId commit := by
  unfold selfCheckPath at member
  dsimp only at member
  split at member
  · exact about_found about member
  · exact about_found about member
  · split at member
    · exact about_found about member
    · exact about_selfCheckSize about member
  · exact about_selfCheckSize about member

theorem about_selfCheckEntry
    (about : Finding.About template repoType repoId commit)
    (member : finding ∈
      (disk.selfCheckEntry revision template entry).findings) :
    Finding.About finding repoType repoId commit := by
  unfold selfCheckEntry at member
  rw [findings_append, List.nil_append] at member
  split at member
  · split at member
    · cases member
    · exact about_found about member
  · apply about_selfCheckPath _ member
    exact ⟨about.repoType, about.repoId, about.commit, about.reference⟩

theorem about_selfCheckRevision
    (member : finding ∈ (disk.selfCheckRevision codec repoType repoId commit
      revision).1.findings) :
    Finding.About finding repoType repoId commit := by
  unfold selfCheckRevision at member
  dsimp only at member
  split at member
  · rw [findings_found, List.mem_singleton] at member
    subst member
    exact ⟨rfl, rfl, rfl, rfl⟩
  · obtain ⟨entry, _, member⟩ := mem_collect.mp member
    exact about_selfCheckEntry ⟨rfl, rfl, rfl, rfl⟩ member

end about

/-- A revision without findings was checked without findings. -/
theorem Checked.findings_eq_nil
    (checked : Checked disk repoType namespaceName name commit)
    (clean : CleanRevision (disk.selfCheck codec) repoType
      (namespaceName ++ "/" ++ name) commit) :
    (disk.selfCheckRevision codec repoType (namespaceName ++ "/" ++ name)
      commit (disk.below repoType namespaceName name "revisions" ++
        [commit])).1.findings = [] := by
  apply List.eq_nil_iff_forall_not_mem.mpr
  intro finding member
  exact clean finding (checked.mem_selfCheck member)
    (about_selfCheckRevision member)

/-! ## What was checked -/

section checks

variable {revision candidate : List String} {entry : ManifestFile}
  {template : Finding} {manifest : Manifest}

theorem acceptedManifest_eq_some :
    disk.acceptedManifest codec repoType revision = some manifest ↔
      ∃ bytes, disk.read (manifestFile revision) = .ok bytes ∧
        codec.fromSlice bytes = .ok manifest ∧
        manifest.repoType = repoType ∧ manifest.complete = true := by
  unfold acceptedManifest
  cases disk.read (manifestFile revision) with
  | error error => simp
  | ok bytes =>
      dsimp only
      cases decoded : codec.fromSlice bytes with
      | error message => simp [decoded]
      | ok found =>
          simp only [Except.ok.injEq, exists_eq_left', decoded]
          constructor
          · intro accepted
            split at accepted
            · cases accepted
            · split at accepted
              · cases accepted
              · cases accepted
                simp_all
          · rintro ⟨rfl, typed, complete⟩
            simp [typed, complete]

/-- A file of the recorded size is there. -/
theorem stands_of_selfCheckSize
    (clean : (disk.selfCheckSize candidate entry template).findings = []) :
    ∃ content, disk.metadata candidate = .ok (.file content) ∧
      content.length = entry.size := by
  unfold selfCheckSize at clean
  split at clean
  · next content stands =>
      split at clean
      · cases clean
      · next sized => exact ⟨content, stands, not_not.mp sized⟩
  · cases clean

theorem stands_of_selfCheckPath
    (clean : (disk.selfCheckPath revision entry template).findings = []) :
    ∃ content,
      disk.metadata (revision ++ splitPath entry.path) =
        .ok (.file content) ∧ content.length = entry.size := by
  unfold selfCheckPath at clean
  dsimp only at clean
  split at clean
  · cases clean
  · cases clean
  · split at clean
    · cases clean
    · exact stands_of_selfCheckSize clean
  · exact stands_of_selfCheckSize clean

theorem stands_of_selfCheckEntry
    (clean : (disk.selfCheckEntry revision template entry).findings = [])
    (external : isInternalArchivePath entry.path = false) :
    validateRelativeFilePath entry.path = .ok () ∧
      ∃ content,
        disk.metadata (revision ++ splitPath entry.path) =
          .ok (.file content) ∧ content.length = entry.size := by
  unfold selfCheckEntry at clean
  rw [findings_append, List.nil_append] at clean
  split at clean
  · rw [external] at clean
    cases clean
  · next valid => exact ⟨valid, stands_of_selfCheckPath clean⟩

end checks

theorem Visited.repositoryPath
    (visited : Visited disk repoType namespaceName name) :
    disk.repositoryPath repoType (namespaceName ++ "/" ++ name) =
      .ok (disk.root ++ [repoType.archiveDirectory, namespaceName, name]) := by
  unfold Disk.repositoryPath
  rw [visited.validateRepoId]
  rfl

theorem Checked.revisionPath
    (checked : Checked disk repoType namespaceName name commit) :
    disk.revisionPath repoType (namespaceName ++ "/" ++ name) commit =
      .ok (disk.below repoType namespaceName name "revisions" ++
        [commit]) := by
  unfold Disk.revisionPath below
  rw [checked.repositoryPath, checked.valid]
  simp [bind, Except.bind, pure, Except.pure]

/-- Only a text is read as a string. -/
theorem readToString_of_read
    {path : List String}
    {bytes : Bytes}
    (stored : disk.read path = .ok bytes) :
    disk.readToString path =
      match String.fromUTF8? ⟨bytes.toArray⟩ with
      | some text => .ok text
      | none => .error (.io .other) := by
  unfold readToString
  rw [stored]
  rfl

/-- What serving reads as the manifest of a checked revision. -/
theorem Checked.readManifestFor_eq_ok
    (checked : Checked disk repoType namespaceName name commit)
    {manifest : Manifest}
    (accepted : disk.acceptedManifest codec repoType
      (disk.below repoType namespaceName name "revisions" ++ [commit]) =
        some manifest)
    {read : Manifest} :
    disk.readManifestFor codec repoType (namespaceName ++ "/" ++ name)
        commit = .ok read ↔
      read = manifest ∧ ∃ text, disk.readToString (manifestFile
        (disk.below repoType namespaceName name "revisions" ++ [commit])) =
          .ok text := by
  obtain ⟨bytes, stored, decoded, typed, complete⟩ :=
    acceptedManifest_eq_some.mp accepted
  unfold readManifestFor Disk.manifest
  rw [checked.revisionPath]
  change (disk.readToString _ >>= _) = _ ↔ _
  rw [readToString_of_read stored]
  cases isText : String.fromUTF8? ⟨bytes.toArray⟩ with
  | none => simp [bind, Except.bind]
  | some text =>
      rw [codec.agree bytes text isText] at decoded
      simp only [bind, Except.bind, decoded, RevisionDir.ensureManifestType,
        typed, ne_eq, not_true_eq_false, if_false, pure, Except.pure,
        Except.ok.injEq, exists_eq', and_true]
      exact eq_comm

/-! ## What is served -/

/-- The manifest is text, the path leads to a place inside the revision, and
the first entry with this path has the same digest. -/
structure Sound (disk : Disk) (revision : List String) (manifest : Manifest)
    (entry : ManifestFile) : Prop where
  text : ∃ text, disk.readToString (manifestFile revision) = .ok text
  inside : ∃ root place, disk.tree.canonicalize revision = some root ∧
    disk.tree.canonicalize (revision ++ splitPath entry.path) =
      some place ∧ root <+: place
  first : ∀ other, manifest.files.find? (·.path = entry.path) = some other →
    other.sha256 = entry.sha256

/-- The entry is served with its size and digest. -/
def Served (disk : Disk) (codec : ManifestCodec) (repoType : RepositoryType)
    (repoId commit : String) (entry : ManifestFile) : Prop :=
  ∃ resolved,
    disk.resolveFile codec repoType repoId commit entry.path =
      .ok resolved ∧
    resolved.size = entry.size ∧ resolved.sha256 = entry.sha256

section served

variable {manifest : Manifest} {entry : ManifestFile}

theorem serveCandidate_eq_ok
    {revisionRoot place : List String}
    {content : Bytes}
    {resolved : ResolvedFile}
    (found : disk.metadata place = .ok (.file content)) :
    disk.serveCandidate revisionRoot place entry = .ok resolved ↔
      revisionRoot <+: place ∧
        resolved = ⟨place, content.length, entry.sha256⟩ := by
  unfold serveCandidate
  rw [found]
  dsimp only
  split
  · next inside => simp [inside, eq_comm]
  · next outside => simp [outside]

/-- Every way a listed file of a checked revision is served. -/
theorem Checked.resolveFile_eq_ok
    (checked : Checked disk repoType namespaceName name commit)
    (accepted : disk.acceptedManifest codec repoType
      (disk.below repoType namespaceName name "revisions" ++ [commit]) =
        some manifest)
    (valid : validateRelativeFilePath entry.path = .ok ())
    {content : Bytes}
    (stands : disk.metadata (disk.below repoType namespaceName name
      "revisions" ++ [commit] ++ splitPath entry.path) =
        .ok (.file content))
    {resolved : ResolvedFile} :
    disk.resolveFile codec repoType (namespaceName ++ "/" ++ name) commit
        entry.path = .ok resolved ↔
      (∃ text, disk.readToString (manifestFile (disk.below repoType
        namespaceName name "revisions" ++ [commit])) = .ok text) ∧
      ∃ first root place,
        manifest.files.find? (·.path = entry.path) = some first ∧
        disk.tree.canonicalize (disk.below repoType namespaceName name
          "revisions" ++ [commit]) = some root ∧
        disk.tree.canonicalize (disk.below repoType namespaceName name
          "revisions" ++ [commit] ++ splitPath entry.path) = some place ∧
        root <+: place ∧
        resolved = ⟨place, content.length, first.sha256⟩ := by
  obtain ⟨_, _, _, _, complete⟩ := acceptedManifest_eq_some.mp accepted
  obtain ⟨there, leads, standsThere⟩ := metadata_eq_ok.mp stands
  have found := metadata_of_canonicalize leads standsThere
  unfold Disk.resolveFile
  constructor
  · intro served
    obtain ⟨_, _, served⟩ := bind_eq_ok.mp served
    obtain ⟨revision, path, served⟩ := bind_eq_ok.mp served
    rw [checked.revisionPath, Except.ok.injEq] at path
    subst path
    obtain ⟨read, reads, served⟩ := bind_eq_ok.mp served
    obtain ⟨rfl, text⟩ := (checked.readManifestFor_eq_ok accepted).mp reads
    rw [if_neg (by simp [complete])] at served
    refine ⟨text, ?_⟩
    split at served
    · cases served
    · next first listed =>
        obtain ⟨root, rooted, served⟩ := bind_eq_ok.mp served
        obtain ⟨place, placed, served⟩ := bind_eq_ok.mp served
        rw [canonicalize_eq_ok] at rooted placed
        cases leads.symm.trans placed
        obtain ⟨inside, same⟩ := (serveCandidate_eq_ok found).mp served
        exact ⟨first, root, there, listed, rooted, leads, inside, same⟩
  · rintro ⟨text, first, root, place, listed, rooted, placed, inside, rfl⟩
    cases leads.symm.trans placed
    refine bind_eq_ok.mpr ⟨(), valid, bind_eq_ok.mpr
      ⟨_, checked.revisionPath, bind_eq_ok.mpr
        ⟨manifest, (checked.readManifestFor_eq_ok accepted).mpr ⟨rfl, text⟩,
          ?_⟩⟩⟩
    rw [if_neg (by simp [complete]), listed]
    refine bind_eq_ok.mpr ⟨root, canonicalize_eq_ok.mpr rooted,
      bind_eq_ok.mpr ⟨there, canonicalize_eq_ok.mpr leads, ?_⟩⟩
    exact (serveCandidate_eq_ok found).mpr ⟨inside, rfl⟩

/-- An entry that was checked without findings is served when it is sound. -/
theorem Checked.served_iff
    (checked : Checked disk repoType namespaceName name commit)
    (accepted : disk.acceptedManifest codec repoType
      (disk.below repoType namespaceName name "revisions" ++ [commit]) =
        some manifest)
    (member : entry ∈ manifest.files)
    (external : isInternalArchivePath entry.path = false)
    {template : Finding}
    (clean : (disk.selfCheckEntry (disk.below repoType namespaceName name
      "revisions" ++ [commit]) template entry).findings = []) :
    Served disk codec repoType (namespaceName ++ "/" ++ name) commit entry ↔
      Sound disk (disk.below repoType namespaceName name "revisions" ++
        [commit]) manifest entry := by
  obtain ⟨valid, content, stands, sized⟩ :=
    stands_of_selfCheckEntry clean external
  unfold Served
  simp only [checked.resolveFile_eq_ok accepted valid stands]
  constructor
  · rintro ⟨_, ⟨text, first, root, place, listed, rooted, placed, inside,
      rfl⟩, _, digest⟩
    refine ⟨text, ⟨root, place, rooted, placed, inside⟩, ?_⟩
    intro other listedToo
    cases listed.symm.trans listedToo
    exact digest
  · rintro ⟨text, ⟨root, place, rooted, placed, inside⟩, digest⟩
    cases listed : manifest.files.find? (·.path = entry.path) with
    | none =>
        have absent := List.find?_eq_none.mp listed entry member
        simp at absent
    | some first =>
        exact ⟨_, ⟨text, first, root, place, rfl, rooted, placed, inside,
          rfl⟩, sized, digest first listed⟩

end served

/-! ## Refs -/

theorem reference_of_mem_selfCheckRef
    {repoId : String}
    {refs commits : List String}
    (member : finding ∈ (disk.selfCheckRef repoType repoId refs commits
      reference).findings) :
    finding.repoType = repoType ∧ finding.repoId = repoId ∧
      finding.reference = some reference := by
  unfold selfCheckRef at member
  split at member
  · cases member
  · rw [findings_append, List.nil_append] at member
    split at member
    · rw [findings_found, List.mem_singleton] at member
      simp [member]
    · split at member
      · rw [findings_found, List.mem_singleton] at member
        simp [member]
      · split at member
        · rw [findings_found, List.mem_singleton] at member
          simp [member]
        · split at member
          · cases member
          · rw [findings_found, List.mem_singleton] at member
            simp [member]

/-- A ref without findings names a servable commit. -/
theorem servable_of_selfCheckRef
    {repoId : String}
    {refs commits : List String}
    (shown : startsWith reference "." = false)
    (clean : (disk.selfCheckRef repoType repoId refs commits
      reference).findings = []) :
    ∃ text, validateComponent reference = .ok () ∧
      disk.readToString (refs ++ [reference]) = .ok text ∧
      validateRevision (Archive.trim text) = .ok () ∧
      Archive.trim text ∈ commits := by
  unfold selfCheckRef at clean
  rw [if_neg (by simp [shown]), findings_append, List.nil_append] at clean
  split at clean
  · cases clean
  · next safe =>
      split at clean
      · cases clean
      · next text stored =>
          split at clean
          · cases clean
          · next valid =>
              split at clean
              · next member => exact ⟨text, safe, stored, valid, member⟩
              · cases clean

/-- A servable commit was checked, and its manifest accepted. -/
theorem Visited.checked_of_servable
    (visited : Visited disk repoType namespaceName name)
    (member : commit ∈ disk.servable codec repoType
      (namespaceName ++ "/" ++ name)
      (disk.below repoType namespaceName name "revisions")) :
    Checked disk repoType namespaceName name commit ∧
      ∃ manifest, disk.acceptedManifest codec repoType
        (disk.below repoType namespaceName name "revisions" ++ [commit]) =
          some manifest := by
  unfold servable at member
  split at member
  · next directory =>
      obtain ⟨listed, accepted⟩ := List.mem_filter.mp member
      split at accepted
      · cases accepted
      · next valid =>
          refine ⟨⟨visited, directory, listed, valid⟩, ?_⟩
          unfold selfCheckRevision at accepted
          dsimp only at accepted
          split at accepted
          · cases accepted
          · next manifest found => exact ⟨manifest, found⟩
  · cases member

/-- A ref without findings resolves to a checked revision, which is complete
when its manifest is text. -/
theorem Counted.resolves
    (counted : Counted disk repoType namespaceName name reference)
    (clean : CleanRef (disk.selfCheck codec) repoType
      (namespaceName ++ "/" ++ name) reference) :
    ∃ commit,
      disk.resolveRef repoType (namespaceName ++ "/" ++ name) reference =
        .ok commit ∧
      Checked disk repoType namespaceName name commit ∧
      (disk.isCompleteRevision codec repoType
          (namespaceName ++ "/" ++ name) commit = .ok true ↔
        ∃ text, disk.readToString (manifestFile (disk.below repoType
          namespaceName name "revisions" ++ [commit])) = .ok text) := by
  have nothing : (disk.selfCheckRef repoType (namespaceName ++ "/" ++ name)
      (disk.below repoType namespaceName name "refs")
      (disk.servable codec repoType (namespaceName ++ "/" ++ name)
        (disk.below repoType namespaceName name "revisions"))
      reference).findings = [] := by
    apply List.eq_nil_iff_forall_not_mem.mpr
    intro finding member
    exact clean finding (counted.mem_selfCheck member)
      (reference_of_mem_selfCheckRef member)
  obtain ⟨text, safe, stored, valid, member⟩ :=
    servable_of_selfCheckRef counted.shown nothing
  obtain ⟨checked, manifest, accepted⟩ :=
    counted.toVisited.checked_of_servable member
  obtain ⟨_, _, _, _, complete⟩ := acceptedManifest_eq_some.mp accepted
  refine ⟨Archive.trim text, ?_, checked, ?_⟩
  · unfold resolveRef
    rw [counted.repositoryPath, safe]
    have path : disk.below repoType namespaceName name "refs" ++
        [reference] = disk.root ++
          [repoType.archiveDirectory, namespaceName, name] ++
            ["refs", reference] := by
      simp [below]
    rw [path] at stored
    simp only [bind, Except.bind, stored, valid, pure, Except.pure]
  · unfold isCompleteRevision
    rw [bind_eq_ok]
    constructor
    · rintro ⟨read, reads, _⟩
      exact ((checked.readManifestFor_eq_ok accepted).mp reads).2
    · intro readable
      refine ⟨manifest,
        (checked.readManifestFor_eq_ok accepted).mpr ⟨rfl, readable⟩, ?_⟩
      rw [complete]
      rfl


section sample

/-- The text of a manifest that lists `d/x`. -/
def linkedText : String :=
  "\x7b\"complete\":true,\"files\":[\x7b\"path\":\"d/x\",\"size\":1," ++
    "\"sha256\":\"00\"\x7d]\x7d"

def linkedManifest : Manifest where
  complete := true
  repoType := .model
  repoId := ""
  requestedRevision := ""
  files := [⟨"d/x", 1, "00"⟩]

/-- A decoder that knows this text. -/
def linkedCodec : ManifestCodec where
  fromStr text :=
    if text = linkedText then .ok linkedManifest else .error "expected value"
  fromSlice bytes :=
    match String.fromUTF8? ⟨bytes.toArray⟩ with
    | some text =>
        if text = linkedText then .ok linkedManifest
        else .error "expected value"
    | none => .error "invalid unicode code point"
  agree := by
    intro bytes text isText
    rw [isText]

/-- A revision with a ref, and a directory elsewhere. -/
def linkedFiles : FileTree Bytes :=
  let repository := ["archive", "models", "org", "model"]
  let revision := repository ++ ["revisions", "a"]
  let made := do
    let tree ← FileTree.empty.makeDirectories revision
    let tree ← tree.createFile (manifestFile revision)
      linkedText.toUTF8.toList
    let tree ← tree.makeDirectories (repository ++ ["refs"])
    let tree ← tree.createFile (repository ++ ["refs", "main"]) [97]
    let tree ← tree.makeDirectories ["outside"]
    tree.createFile ["outside", "x"] [1]
  made.getD default

/-- In the revision stands a link to that directory. -/
def linkedDisk : Disk where
  tree := linkedFiles.insert
    ["archive", "models", "org", "model", "revisions", "a", "d"]
    (.link (some ["outside"])) (by simp) (by decide +kernel)
    (by decide +kernel) (by decide +kernel)
  root := ["archive"]
  refusal := fun _ => .notFound

theorem linkedDisk_checked :
    Checked linkedDisk .model "org" "model" "a" where
  typed := by decide +kernel
  namespaceIn := by decide +kernel
  namespaceSafe := by decide +kernel
  nameIn := by decide +kernel
  accepted := ⟨("org", "model"), by decide +kernel⟩
  revisions := by decide +kernel
  commitIn := by decide +kernel
  valid := by decide +kernel

theorem linkedDisk_counted :
    Counted linkedDisk .model "org" "model" "main" where
  toVisited := linkedDisk_checked.toVisited
  refs := by decide +kernel
  referenceIn := by decide +kernel
  shown := by decide +kernel

theorem linkedDisk_clean :
    (linkedDisk.selfCheck linkedCodec).findings = [] := by
  decide +kernel

end sample

end Disk
end ModelKeep
