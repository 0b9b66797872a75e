import ModelKeep.ExtensionText
import ModelKeep.Operations.Store

/-!
# Manifests that are read back

The manifest of a publication, and of every extension after it, is read back
as what was recorded: one entry for each path, and the entries of before as
they were.
-/

namespace ModelKeep
namespace Publishing

/-! ## What is recorded -/

/-- What is recorded of a file. -/
def entryOf (sha256 : Bytes → String) (path : String) (content : Bytes) :
    ManifestFile :=
  ⟨path, content.length, sha256 content⟩

/-- The bytes of a requested file, if there are any. -/
def Source.contents : Source → List (String × Option Bytes)
  | .files request =>
      request.files.map fun file => (file.path, file.content.toOption)
  | .staging _ request payload => request.files.map fun path =>
      (path, match payload.lstat (splitPath path) with
        | some (.file content) => some content
        | _ => none)

/-- No file is too long for its size to be told. -/
def Source.Sized (source : Source) : Prop :=
  ∀ path content, (path, some content) ∈ source.contents →
    content.length < 2 ^ 64

/-- The entries of files whose bytes are there. -/
def entriesOf (sha256 : Bytes → String)
    (contents : List (String × Option Bytes)) : List ManifestFile :=
  contents.filterMap fun file => file.2.map (entryOf sha256 file.1)

/-- A call of `extend_revision_from_directory`, and when it was made. -/
structure ExtensionCall where
  request : RevisionExtensionRequest
  sources : String → Except ArchiveError Bytes
  archivedAt : UInt64
  sized : ∀ path content, sources path = .ok content →
    content.length < 2 ^ 64

/-- The entries after a call: those of before, and one for every requested
path that had none. -/
def ExtensionCall.record (sha256 : Bytes → String)
    (entries : List ManifestFile) (call : ExtensionCall) :
    List ManifestFile :=
  entries ++ entriesOf sha256
    ((call.request.files.filter fun path =>
        path ∉ entries.map ManifestFile.path).map fun path =>
      (path, (call.sources path).toOption))

/-- The entries after some calls. -/
def recorded (sha256 : Bytes → String) (entries : List ManifestFile)
    (calls : List ExtensionCall) : List ManifestFile :=
  calls.foldl (ExtensionCall.record sha256) entries

/-! ## What is on disk -/

/-- A publication that succeeds leaves this. -/
structure Published (sha256 : Bytes → String) (repoType : RepositoryType)
    (source : Source) (archivedAt : UInt64) (disk : OnDisk) : Prop where
  checked : Operations.checkSource source = .ok ()
  written : ∃ revision manifest,
    source.revision sha256 repoType = .ok revision ∧
      revision.manifest = .decoded manifest ∧
      disk = ⟨manifestText source.commit archivedAt.toNat manifest,
        revision.upstreamFiles, revision.tree⟩

/-- Extensions of a revision one after the other, which all have to
succeed. -/
def extendAll (codec : ManifestCodec) (sha256 : Bytes → String)
    (repoType : RepositoryType) :
    OnDisk → List ExtensionCall → Except ArchiveError OnDisk
  | disk, [] => .ok disk
  | disk, call :: rest =>
      match Extension.extendText codec sha256 repoType call.request
        call.sources call.archivedAt.toNat disk with
      | (.ok _, later) => extendAll codec sha256 repoType later rest
      | (.error error, _) => .error error

variable
  {codec : ManifestCodec}
  {sha256 : Bytes → String}
  {repoType : RepositoryType}
  {source : Source}

/-! ## Publications -/

/-- A file is created anew. -/
theorem not_file_of_stageFile
    {staging after : FileTree Bytes}
    {place : List String}
    {content old : Bytes}
    (staged : Extension.stageFile staging place content = .ok after) :
    staging.lookup place ≠ some (.file old) := by
  intro stands
  unfold Extension.stageFile at staged
  split at staged
  · cases staged
  · next prepared made =>
      rcases FileTree.lookup_makeDirectories made place with
        kept | ⟨absent, _⟩
      · split at staged
        · cases staged
        · next final created =>
            unfold FileTree.createFile at created
            rw [kept, stands] at created
            cases created
      · rw [stands] at absent
        cases absent

/-- Every entry has its file in staging, so no path has two. -/
def Standing (entries : List ManifestFile) (staging : FileTree Bytes) :
    Prop :=
  (entries.map ManifestFile.path).Nodup ∧
    ∀ entry ∈ entries, ∃ place content,
      filePlace entry.path = some place ∧
        staging.lookup place = some (.file content)

theorem writeFiles_spec
    {files : List ArchiveFile}
    {staging after : FileTree Bytes}
    {entries all : List ManifestFile}
    (standing : Standing entries staging)
    (written : writeFiles sha256 files staging entries = .ok (after, all)) :
    all = entries ++ entriesOf sha256
        (files.map fun file => (file.path, file.content.toOption)) ∧
      Standing all after ∧
      all.map ManifestFile.path =
        entries.map ManifestFile.path ++ files.map ArchiveFile.path ∧
      ∀ file ∈ files, validateRelativeFilePath file.path = .ok () := by
  induction files generalizing staging entries with
  | nil =>
      cases written
      exact ⟨by simp [entriesOf], standing, by simp, by simp⟩
  | cons file rest inductionHypothesis =>
      rw [writeFiles] at written
      obtain ⟨⟨⟩, valid, written⟩ := bind_eq_ok.mp written
      obtain ⟨content, read, written⟩ := bind_eq_ok.mp written
      obtain ⟨place, leads, written⟩ := bind_eq_ok.mp written
      obtain ⟨grown, staged, written⟩ := bind_eq_ok.mp written
      have placed : filePlace file.path = some place := by
        unfold Extension.placeOf at leads
        split at leads
        · cases leads
        · cases leads
          assumption
      have stands : Standing
          (entries ++ [⟨file.path, content.length, sha256 content⟩])
          grown := by
        obtain ⟨distinct, stored⟩ := standing
        have looked := lookup_stageFile staged
        constructor
        · rw [List.map_append, List.nodup_append]
          refine ⟨distinct, by simp, ?_⟩
          rintro path older _ new rfl
          rw [List.map_singleton, List.mem_singleton] at new
          obtain ⟨entry, member, same⟩ := List.mem_map.mp older
          obtain ⟨found, old, leadsToo, standsToo⟩ := stored entry member
          rw [same, new, placed] at leadsToo
          cases leadsToo
          exact not_file_of_stageFile staged standsToo
        · intro entry member
          rcases List.mem_append.mp member with older | new
          · obtain ⟨found, old, leadsToo, standsToo⟩ := stored entry older
            rcases looked found with
              ⟨_, file⟩ | ⟨_, kept | ⟨absent, _⟩⟩
            · exact ⟨found, _, leadsToo, file⟩
            · exact ⟨found, old, leadsToo, kept.trans standsToo⟩
            · rw [standsToo] at absent
              cases absent
          · rw [List.mem_singleton] at new
            subst new
            rcases looked place with ⟨_, file⟩ | ⟨different, _⟩
            · exact ⟨place, content, placed, file⟩
            · exact absurd rfl different
      obtain ⟨same, full, paths, valids⟩ := inductionHypothesis stands written
      refine ⟨?_, full, by rw [paths]; simp, ?_⟩
      · rw [same, List.append_assoc]
        simp [entriesOf, read, entryOf, Except.toOption]
      · exact List.forall_mem_cons.mpr ⟨valid, valids⟩

theorem sourceEntries_spec
    {payload : FileTree Bytes}
    {files archived : List String}
    {entries : List ManifestFile}
    (made : Archive.sourceEntries sha256 payload files archived =
      .ok entries) :
    entries = entriesOf sha256 (files.map fun path =>
        (path, match payload.lstat (splitPath path) with
          | some (.file content) => some content
          | _ => none)) ∧
      files.Nodup ∧ ∀ path ∈ files, path ∉ archived := by
  induction files generalizing archived entries with
  | nil =>
      cases made
      exact ⟨rfl, by simp, by simp⟩
  | cons path rest inductionHypothesis =>
      rw [Archive.sourceEntries] at made
      obtain ⟨_, _, made⟩ := bind_eq_ok.mp made
      split at made
      · cases made
      · next new =>
          split at made
          · cases made
          · next content stands =>
              obtain ⟨others, madeOthers, same⟩ := bind_eq_ok.mp made
              cases same
              obtain ⟨rfl, distinct, apart⟩ :=
                inductionHypothesis madeOthers
              simp only [List.mem_cons, not_or] at apart
              refine ⟨?_, List.nodup_cons.mpr ⟨?_, distinct⟩, ?_⟩
              · simp [entriesOf, stands, entryOf]
              · exact fun member => (apart path member).1 rfl
              · exact List.forall_mem_cons.mpr
                  ⟨new, fun other member => (apart other member).2⟩
          · cases made

/-- What a publication records. -/
theorem revision_manifest
    {revision : RevisionDir}
    (made : source.revision sha256 repoType = .ok revision) :
    revision.manifest = .decoded ⟨true, repoType, source.repoId,
        source.requestedRevision, entriesOf sha256 source.contents⟩ ∧
      (entriesOf sha256 source.contents).map ManifestFile.path =
        source.paths ∧
      source.paths.Nodup ∧
      ∀ path ∈ source.paths, validateRelativeFilePath path = .ok () := by
  cases source with
  | files request =>
      change writeRevision sha256 repoType request = _ at made
      unfold writeRevision at made
      obtain ⟨⟨staging, entries⟩, filled, made⟩ := bind_eq_ok.mp made
      obtain ⟨withManifest, created, made⟩ := bind_eq_ok.mp made
      cases made
      obtain ⟨same, ⟨distinct, _⟩, paths, valids⟩ :=
        writeFiles_spec ⟨by simp, by simp⟩ filled
      rw [List.nil_append] at same
      simp only [List.map_nil, List.nil_append] at paths
      subst same
      rw [paths] at distinct
      refine ⟨rfl, paths, distinct, ?_⟩
      intro path member
      obtain ⟨file, requested, rfl⟩ := List.mem_map.mp member
      exact valids file requested
  | staging repoId request payload =>
      obtain ⟨entries, found, same⟩ := bind_eq_ok.mp made
      cases same
      obtain ⟨paths, valids⟩ := Archive.sourceEntries_eq_ok found
      obtain ⟨rfl, distinct, _⟩ := sourceEntries_spec found
      exact ⟨rfl, paths, distinct, fun path member => (valids path member).1⟩

/-! ## What the validators leave to be spelled out -/

theorem printable_of_plain
    {value : String}
    (plain : ¬value.toList.any isControl = true) :
    Json.Printable value := by
  intro character member control
  apply plain
  rw [List.any_eq_true]
  refine ⟨character, member, ?_⟩
  unfold isControl
  rw [decide_eq_true control, Bool.true_or]

theorem printable_of_path
    {path : String}
    (valid : validateRelativeFilePath path = .ok ()) :
    Json.Printable path := by
  unfold validateRelativeFilePath at valid
  split at valid
  · cases valid
  · next fine =>
      simp only [not_or] at fine
      exact printable_of_plain fine.2.2.2.1

theorem printable_of_component
    {value : String}
    (valid : validateComponent value = .ok ()) :
    Json.Printable value ∧ value ≠ "" := by
  unfold validateComponent at valid
  split at valid
  · cases valid
  · next fine =>
      simp only [not_or] at fine
      exact ⟨printable_of_plain fine.2.2.2.2.2, fine.1⟩

theorem printable_of_repoId
    {repoId : String}
    {parts : String × String}
    (valid : validateRepoId repoId = .ok parts) :
    Json.Printable repoId ∧ repoId ≠ "" := by
  unfold validateRepoId at valid
  split at valid
  · next namespaceName name components =>
      split at valid
      · cases valid
      · obtain ⟨⟨⟩, first, valid⟩ := bind_eq_ok.mp valid
        obtain ⟨⟨⟩, second, _⟩ := bind_eq_ok.mp valid
        have whole : repoId = joinPath [namespaceName, name] := by
          rw [← components, joinPath_splitPath]
        constructor
        · intro character member
          have inside : character ∈ namespaceName.toList ∨
              character = '/' ∨ character ∈ name.toList := by
            rw [whole, joinPath, String.toList_ofList] at member
            simpa [List.intercalate] using member
          rcases inside with inFirst | rfl | inSecond
          · exact (printable_of_component first).1 character inFirst
          · decide
          · exact (printable_of_component second).1 character inSecond
        · rintro rfl
          revert components
          simp [splitPath]
  · cases valid

theorem isHex_of_revision
    {revision : String}
    (valid : validateRevision revision = .ok ()) :
    IsHex revision := by
  unfold validateRevision at valid
  split at valid
  · cases valid
  · next fine =>
      simp only [not_or, not_not] at fine
      exact List.all_eq_true.mp fine.2.2

/-! ## What is read back -/

/-- The text is that of a manifest that can be spelled out. -/
def Inscribes (commit : String) (manifest : Manifest) (text : String) :
    Prop :=
  manifest.Spellable ∧ ∃ archivedAt, archivedAt < 2 ^ 64 ∧
    text = manifestText commit archivedAt manifest

/-- The text is JSON and tells of this publication, and a decoder finds these
entries in it, one for each path. -/
structure Recorded (codec : ManifestCodec) (repoType : RepositoryType)
    (source : Source) (entries : List ManifestFile) (text : String) :
    Prop where
  value : ∃ value, Json.read text = some value ∧
    value.get? "complete" = some (.bool true) ∧
    value.get? "repo_type" = some (.text repoType.display) ∧
    value.get? "repo_id" = some (.text source.repoId) ∧
    value.get? "requested_revision" =
      some (.text source.requestedRevision) ∧
    value.get? "commit" = some (.text source.commit)
  decoded : codec.fromStr text = .ok ⟨true, repoType, source.repoId,
    source.requestedRevision, entries⟩
  once : (entries.map ManifestFile.path).Nodup

theorem Inscribes.recorded
    {entries : List ManifestFile}
    {text : String}
    (reads : codec.ReadsJson)
    (hex : IsHex source.commit)
    (once : (entries.map ManifestFile.path).Nodup)
    (inscribes : Inscribes source.commit ⟨true, repoType, source.repoId,
      source.requestedRevision, entries⟩ text) :
    Recorded codec repoType source entries text := by
  obtain ⟨spellable, archivedAt, bounded, rfl⟩ := inscribes
  refine ⟨⟨_, read_manifestText hex bounded spellable, ?_⟩,
    fromStr_manifestText reads hex bounded spellable, once⟩
  refine ⟨?_, ?_, ?_, ?_, ?_⟩ <;> rfl

/-- The manifest of a publication can be spelled out. -/
theorem spellable_revision
    {hash : Bytes → Bytes}
    {parts : String × String}
    {revision : RevisionDir}
    (repo : validateRepoId source.repoId = .ok parts)
    (requested : validateComponent source.requestedRevision = .ok ())
    (sized : source.Sized)
    (made : source.revision (fun content => hexDigest (hash content))
      repoType = .ok revision) :
    Manifest.Spellable ⟨true, repoType, source.repoId,
      source.requestedRevision,
      entriesOf (fun content => hexDigest (hash content))
        source.contents⟩ := by
  obtain ⟨_, paths, _, valids⟩ := revision_manifest made
  refine ⟨rfl, (printable_of_repoId repo).1,
    (printable_of_component requested).1, ?_⟩
  intro entry member
  have listed := List.mem_map_of_mem (f := ManifestFile.path) member
  rw [paths] at listed
  obtain ⟨⟨path, content⟩, stands, found⟩ := List.mem_filterMap.mp member
  obtain ⟨bytes, rfl, rfl⟩ := Option.map_eq_some_iff.mp found
  exact ⟨printable_of_path (valids _ listed), sized path bytes stands,
    isHex_hexDigest _⟩

/-- The readers take what is on disk for the revision that was published. -/
theorem Published.revision_eq
    {hash : Bytes → Bytes}
    {archivedAt : UInt64}
    {disk : OnDisk}
    (reads : codec.ReadsJson)
    (sized : source.Sized)
    (published : Published (fun content => hexDigest (hash content)) repoType
      source archivedAt disk) :
    source.revision (fun content => hexDigest (hash content)) repoType =
      .ok (disk.revision codec) := by
  obtain ⟨checked, ⟨manifest, upstreamFiles, tree⟩, meant, made, decoded,
    rfl⟩ := published
  obtain ⟨parts, repo, checked⟩ := bind_eq_ok.mp checked
  obtain ⟨⟨⟩, requested, checked⟩ := bind_eq_ok.mp checked
  obtain ⟨⟨⟩, valid, _⟩ := bind_eq_ok.mp checked
  have same := (revision_manifest made).1
  change manifest = .decoded meant at decoded
  change manifest = _ at same
  rw [decoded, Stored.decoded.injEq] at same
  have spellable := spellable_revision repo requested sized made
  rw [← same] at spellable
  rw [made]
  unfold OnDisk.revision
  dsimp only
  rw [fromStr_manifestText reads (isHex_of_revision valid)
    archivedAt.toNat_lt spellable, decoded]

/-- The added files are the requested ones that had no entry. -/
theorem entriesOf_moved
    {sources : String → Except ArchiveError Bytes}
    {moved : List Extension.Staged}
    {paths : List String}
    (sourced : ∀ file ∈ moved, Extension.Sourced sources file)
    (same : moved.map Extension.Staged.path = paths) :
    entriesOf sha256 (paths.map fun path =>
        (path, (sources path).toOption)) =
      moved.map fun file =>
        ⟨file.path, file.content.length, sha256 file.content⟩ := by
  subst same
  induction moved with
  | nil => rfl
  | cons file rest inductionHypothesis =>
      obtain ⟨here, later⟩ := List.forall_mem_cons.mp sourced
      have others := inductionHypothesis later
      have content : (sources file.path).toOption = some file.content := by
        rw [here.content]
        rfl
      unfold entriesOf at others ⊢
      simp only [List.map_cons, List.filterMap_cons, content,
        Option.map_some]
      rw [others]
      rfl

theorem paths_record
    {entries : List ManifestFile}
    {call : ExtensionCall}
    {moved : List Extension.Staged}
    (sourced : ∀ file ∈ moved, Extension.Sourced call.sources file)
    (same : moved.map Extension.Staged.path =
      call.request.files.filter fun path =>
        path ∉ entries.map ManifestFile.path) :
    (call.record sha256 entries).map ManifestFile.path =
      entries.map ManifestFile.path ++ moved.map Extension.Staged.path := by
  unfold ExtensionCall.record
  rw [entriesOf_moved sourced same, List.map_append, List.map_map]
  rfl

/-- An extension that succeeds leaves the text of what it records. -/
theorem inscribes_extendText
    {hash : Bytes → Bytes}
    {commit repoId requestedRevision : String}
    {entries : List ManifestFile}
    {call : ExtensionCall}
    {extension : RevisionExtension}
    {disk later : OnDisk}
    (reads : codec.ReadsJson)
    (hex : IsHex commit)
    (named : repoId ≠ "" ∧ requestedRevision ≠ "")
    (inscribes : Inscribes commit
      ⟨true, repoType, repoId, requestedRevision, entries⟩ disk.manifest)
    (once : (entries.map ManifestFile.path).Nodup)
    (same : call.request.commit = commit)
    (extended : Extension.extendText codec
      (fun content => hexDigest (hash content)) repoType call.request
      call.sources call.archivedAt.toNat disk = (.ok extension, later)) :
    Inscribes commit ⟨true, repoType, repoId, requestedRevision,
        call.record (fun content => hexDigest (hash content)) entries⟩
        later.manifest ∧
      ((call.record (fun content => hexDigest (hash content)) entries).map
        ManifestFile.path).Nodup ∧
      ∀ path, path ∈ (call.record (fun content => hexDigest (hash content))
          entries).map ManifestFile.path ↔
        path ∈ entries.map ManifestFile.path ∨
          path ∈ call.request.files := by
  obtain ⟨manifest, moved, spec⟩ := Extension.extendText_spec extended
  obtain ⟨spellable, archivedAt, bounded, text⟩ := inscribes
  obtain rfl : manifest =
      ⟨true, repoType, repoId, requestedRevision, entries⟩ := by
    have found := fromStr_manifestText reads hex bounded spellable
    rw [← text, spec.read] at found
    exact Except.ok.inj found
  have paths := spec.paths
  change _ = call.request.files.filter fun path =>
    path ∉ entries.map ManifestFile.path at paths
  have listed := @paths_record (fun content => hexDigest (hash content))
    entries call moved spec.sourced paths
  refine ⟨?_, ?_, ?_⟩
  · by_cases nothing : moved = []
    · rw [spec.unchanged nothing]
      have same : call.record (fun content => hexDigest (hash content))
          entries = entries := by
        unfold ExtensionCall.record
        rw [entriesOf_moved spec.sourced paths, nothing, List.map_nil,
          List.append_nil]
      rw [same]
      exact ⟨spellable, archivedAt, bounded, text⟩
    · have replacement : Extension.extendedManifest
          (fun content => hexDigest (hash content)) repoType call.request
          ⟨true, repoType, repoId, requestedRevision, entries⟩ moved =
          ⟨true, repoType, repoId, requestedRevision,
            call.record (fun content => hexDigest (hash content))
              entries⟩ := by
        unfold Extension.extendedManifest ExtensionCall.record
        rw [entriesOf_moved spec.sourced paths, if_neg named.1,
          if_neg named.2]
      have written := spec.manifest nothing
      rw [replacement, same] at written
      refine ⟨⟨rfl, spellable.repoId, spellable.requestedRevision, ?_⟩,
        _, call.archivedAt.toNat_lt, written⟩
      intro entry member
      unfold ExtensionCall.record at member
      rw [entriesOf_moved spec.sourced paths] at member
      rcases List.mem_append.mp member with older | new
      · exact spellable.files entry older
      · obtain ⟨file, added, rfl⟩ := List.mem_map.mp new
        have sourced := spec.sourced file added
        exact ⟨printable_of_path sourced.valid,
          call.sized _ _ sourced.content, isHex_hexDigest _⟩
  · rw [listed, List.nodup_append]
    refine ⟨once, spec.distinct, ?_⟩
    rintro path older other new rfl
    rw [paths, List.mem_filter, decide_eq_true_eq] at new
    exact new.2 older
  · intro path
    rw [listed, paths, List.mem_append, List.mem_filter, decide_eq_true_eq]
    by_cases older : path ∈ entries.map ManifestFile.path
    · simp [older]
    · simp [older]

/-- So do extensions one after the other. -/
theorem inscribes_extendAll
    {hash : Bytes → Bytes}
    {commit repoId requestedRevision : String}
    {entries : List ManifestFile}
    {calls : List ExtensionCall}
    {disk last : OnDisk}
    (reads : codec.ReadsJson)
    (hex : IsHex commit)
    (named : repoId ≠ "" ∧ requestedRevision ≠ "")
    (inscribes : Inscribes commit
      ⟨true, repoType, repoId, requestedRevision, entries⟩ disk.manifest)
    (once : (entries.map ManifestFile.path).Nodup)
    (commits : ∀ call ∈ calls, call.request.commit = commit)
    (extended : extendAll codec (fun content => hexDigest (hash content))
      repoType disk calls = .ok last) :
    Inscribes commit ⟨true, repoType, repoId, requestedRevision,
        recorded (fun content => hexDigest (hash content)) entries calls⟩
        last.manifest ∧
      ((recorded (fun content => hexDigest (hash content)) entries
        calls).map ManifestFile.path).Nodup ∧
      ∀ path, path ∈ (recorded (fun content => hexDigest (hash content))
          entries calls).map ManifestFile.path ↔
        path ∈ entries.map ManifestFile.path ∨
          ∃ call ∈ calls, path ∈ call.request.files := by
  induction calls generalizing disk entries with
  | nil =>
      cases extended
      exact ⟨inscribes, once, by simp [recorded]⟩
  | cons call rest inductionHypothesis =>
      obtain ⟨here, later⟩ := List.forall_mem_cons.mp commits
      unfold extendAll at extended
      split at extended
      · next _ middle succeeded =>
          obtain ⟨inscribesToo, onceToo, covers⟩ := inscribes_extendText
            reads hex named inscribes once here succeeded
          obtain ⟨ends, distinct, all⟩ := inductionHypothesis inscribesToo
            onceToo later extended
          refine ⟨ends, distinct, ?_⟩
          intro path
          have further := all path
          rw [covers path] at further
          change path ∈ (recorded _ (call.record _ entries) rest).map _ ↔ _
          rw [further]
          simp only [List.mem_cons, exists_eq_or_imp, or_assoc]
      · cases extended

/-- Entries are only ever added. -/
theorem recorded_grows
    (entries : List ManifestFile)
    (earlier later : List ExtensionCall) :
    recorded sha256 entries earlier <+:
      recorded sha256 entries (earlier ++ later) := by
  unfold recorded
  rw [List.foldl_append]
  generalize earlier.foldl (ExtensionCall.record sha256) entries = before
  induction later generalizing before with
  | nil => exact List.prefix_refl _
  | cons call rest inductionHypothesis =>
      exact (List.prefix_append ..).trans
        (inductionHypothesis (call.record sha256 before))

/-- The manifest of a publication, and of all extensions after it, is JSON
that tells of the publication and has one entry for each path; entries stay as
they are. -/
theorem manifest_reads_back
    {hash : Bytes → Bytes}
    {archivedAt : UInt64}
    {calls : List ExtensionCall}
    {first last : OnDisk}
    (reads : codec.ReadsJson)
    (sized : source.Sized)
    (published : Published (fun content => hexDigest (hash content)) repoType
      source archivedAt first)
    (commits : ∀ call ∈ calls, call.request.commit = source.commit)
    (extended : extendAll codec (fun content => hexDigest (hash content))
      repoType first calls = .ok last) :
    let entries := recorded (fun content => hexDigest (hash content))
      (entriesOf (fun content => hexDigest (hash content)) source.contents)
    Recorded codec repoType source (entries calls) last.manifest ∧
      (∀ path, path ∈ (entries calls).map ManifestFile.path ↔
        path ∈ source.paths ∨ ∃ call ∈ calls, path ∈ call.request.files) ∧
      ∀ earlier later, calls = earlier ++ later →
        entries earlier <+: entries calls := by
  intro entries
  obtain ⟨checked, revision, manifest, made, decoded, rfl⟩ := published
  obtain ⟨⟨namespaceName, name⟩, repo, checked⟩ := bind_eq_ok.mp checked
  obtain ⟨⟨⟩, requested, checked⟩ := bind_eq_ok.mp checked
  obtain ⟨⟨⟩, valid, _⟩ := bind_eq_ok.mp checked
  obtain ⟨same, paths, distinct, valids⟩ := revision_manifest made
  rw [decoded, Stored.decoded.injEq] at same
  subst same
  have hex := isHex_of_revision valid
  have spellable := spellable_revision repo requested sized made
  rw [← paths] at distinct ⊢
  obtain ⟨inscribes, once, covers⟩ := inscribes_extendAll reads hex
    ⟨(printable_of_repoId repo).2, (printable_of_component requested).2⟩
    ⟨spellable, _, archivedAt.toNat_lt, rfl⟩ distinct commits extended
  refine ⟨inscribes.recorded reads hex once, covers, ?_⟩
  rintro earlier later rfl
  exact recorded_grows _ earlier later


/-! ## Samples -/

/-- A decoder of JSON texts. -/
def jsonCodec : ManifestCodec where
  fromStr := fun text =>
    match (Json.read text).bind Manifest.ofJson with
    | some manifest => .ok manifest
    | none => .error "invalid manifest"
  fromSlice := fun bytes =>
    match String.fromUTF8? ⟨bytes.toArray⟩ with
    | none => .error "invalid unicode code point"
    | some text =>
        match (Json.read text).bind Manifest.ofJson with
        | some manifest => .ok manifest
        | none => .error "invalid manifest"
  agree := by
    intro bytes text decoded
    rw [decoded]

/-- One file whose name has to be escaped. -/
def sampleSource : Source :=
  .files ⟨"org/\"model\"", "main",
    "aaaaaaaaaaaaaaaaaaaaaaaaaaaaaaaaaaaaaaaa",
    [⟨"a\\\"ü\"", .ok [1, 2]⟩]⟩

def sampleHash (_ : Bytes) : Bytes := [227, 176, 196, 66]

/-- An extension by a file, and by the one that is there. -/
def sampleCall : ExtensionCall where
  request := ⟨sampleSource.repoId, sampleSource.commit, ["b", "a\\\"ü\""]⟩
  sources := fun _ => .ok []
  archivedAt := 1700000000
  sized := by
    rintro path content ⟨⟩
    decide

def sampleDisk : OnDisk :=
  match sampleSource.revision (fun content => hexDigest (sampleHash content))
    .model with
  | .ok revision =>
      ⟨manifestText sampleSource.commit 1600000000 ⟨true, .model,
        sampleSource.repoId, "main", entriesOf
          (fun content => hexDigest (sampleHash content))
          sampleSource.contents⟩, revision.upstreamFiles, revision.tree⟩
  | .error _ => ⟨"", .missing, .empty⟩

theorem manifest_reads_back_sample :
    ∃ last, extendAll jsonCodec
        (fun content => hexDigest (sampleHash content)) .model sampleDisk
        [sampleCall] = .ok last ∧
      Recorded jsonCodec .model sampleSource
        [⟨"a\\\"ü\"", 2, "e3b0c442"⟩, ⟨"b", 0, "e3b0c442"⟩]
        last.manifest := by
  have succeeds : (extendAll jsonCodec
      (fun content => hexDigest (sampleHash content)) .model sampleDisk
      [sampleCall]).toOption.isSome = true := by
    decide +kernel
  have reads : jsonCodec.ReadsJson := by
    intro text value manifest spells _ decoded
    change (match (Json.read text).bind Manifest.ofJson with
      | some manifest => Except.ok manifest
      | none => .error _) = _
    rw [spells, Option.bind_some, decoded]
  have sized : sampleSource.Sized := by
    intro path content member
    obtain ⟨rfl, same⟩ := Prod.mk.inj (List.mem_singleton.mp member)
    cases same
    decide
  cases made : sampleSource.revision
      (fun content => hexDigest (sampleHash content)) .model with
  | error error =>
      have fine : (sampleSource.revision
          (fun content => hexDigest (sampleHash content))
          .model).toOption.isSome = true := by
        decide +kernel
      rw [made] at fine
      cases fine
  | ok revision =>
      have published : Published
          (fun content => hexDigest (sampleHash content)) .model sampleSource
          1600000000 sampleDisk := by
        refine ⟨by decide +kernel, revision, _, made,
          (revision_manifest made).1, ?_⟩
        unfold sampleDisk
        rw [made]
        rfl
      cases ended : extendAll jsonCodec
          (fun content => hexDigest (sampleHash content)) .model sampleDisk
          [sampleCall] with
      | error error =>
          rw [ended] at succeeds
          cases succeeds
      | ok last =>
          refine ⟨last, rfl, ?_⟩
          exact (manifest_reads_back reads sized published
            (by simp [sampleCall]) ended).1

end Publishing
end ModelKeep
