import ModelKeep.FileSystem.Steps
import ModelKeep.Operations.NoDangling
import ModelKeep.SortedMap

/-!
# Metadata of archived revisions

The metadata of a revision the archive holds: what its manifest lists, with
digests, and what the record of its upstream file list names besides.
-/

namespace ModelKeep
namespace Http

open FileSystem (UpstreamFile UpstreamRecord)
open SortedMap

/-! ## The answer -/

structure MetadataFile where
  path : String
  size : Option Nat
  oid : Option String
  digest : Option String
  deriving DecidableEq

structure RepositoryMetadata where
  commit : String
  files : List MetadataFile
  deriving DecidableEq

inductive StatusCode
  | badRequest
  | notFound
  | internalServerError
  deriving DecidableEq

def statusForArchiveError : ArchiveError → StatusCode
  | .invalidPath _ => .badRequest
  | .io .notFound => .notFound
  | _ => .internalServerError

/-- `is_complete_revision_for_type` of a commit. -/
def isCompleteRevision
    (repoType : RepositoryType)
    (repoId commit : String)
    (repository : RepositoryDir) :
    Except ArchiveError Bool := do
  let _ ← validateRepoId repoId
  validateRevision commit
  match repository.revision commit with
  | none => .error (.io .notFound)
  | some revision => revision.isComplete repoType

/-- `validated_manifest`; of the JSON value only the entries are read. -/
def validatedManifest
    (repoType : RepositoryType)
    (repoId commit : String)
    (repository : RepositoryDir) :
    Except StatusCode Manifest := do
  let complete ← (isCompleteRevision repoType repoId commit
    repository).mapError statusForArchiveError
  if complete = false then
    .error .internalServerError
  else
    match repository.revision commit with
    | some ⟨.decoded manifest, _, _⟩ => .ok manifest
    | some ⟨.missing, _, _⟩ => .error .notFound
    | _ => .error .internalServerError

/-- `upstream_files_for_type`, of what the record file of the commit holds. -/
def upstreamFilesOf
    (repoType : RepositoryType)
    (repoId commit : String)
    (stored : Stored UpstreamRecord) :
    Except ArchiveError (Option (List UpstreamFile)) := do
  let _ ← validateRepoId repoId
  validateRevision commit
  match stored with
  | .missing => .ok none
  | .unreadable message => .error (.integrityMismatch message)
  | .decoded record =>
      if record.repoType ≠ repoType ∨ record.commit ≠ commit then
        .error (.integrityMismatch
          "recorded upstream file list does not match its location")
      else
        .ok (some (record.files.filterMap UpstreamFile.sanitized))

/-- The record, by path. -/
def recordedByPath (files : List UpstreamFile) :
    Finmap fun _ : String => UpstreamFile :=
  files.foldl (fun recorded file => recorded.insert file.path file) ∅

/-- What is said of an entry of the manifest. -/
def heldFile
    (recorded : Finmap fun _ : String => UpstreamFile)
    (file : ManifestFile) :
    MetadataFile where
  path := file.path
  size := some file.size
  oid := (recorded.lookup file.path).bind UpstreamFile.blobId
  digest := some file.sha256

/-- What is said of an entry of the record that is not held. -/
def recordedFile (recorded : UpstreamFile) : MetadataFile where
  path := recorded.path
  size := recorded.size
  oid := recorded.blobId
  digest := none

/-- The loop over the manifest. -/
def heldFiles
    (recorded : Finmap fun _ : String => UpstreamFile)
    (files : List ManifestFile) :
    Finmap fun _ : String => MetadataFile :=
  files.foldl (fun held file =>
    if isInternalArchivePath file.path then held
    else held.insert file.path (heldFile recorded file)) ∅

/-- The loop over the record; what is there already stays. -/
def withRecorded
    (held : Finmap fun _ : String => MetadataFile)
    (recorded : List UpstreamFile) :
    Finmap fun _ : String => MetadataFile :=
  recorded.foldl (fun files file =>
    if file.path ∈ files then files
    else files.insert file.path (recordedFile file)) held

/-- `archived_metadata`. -/
def archivedMetadata
    (repoType : RepositoryType)
    (repoId commit : String)
    (repository : RepositoryDir)
    (stored : Stored UpstreamRecord) :
    Except StatusCode RepositoryMetadata := do
  let manifest ← validatedManifest repoType repoId commit repository
  let files ← (upstreamFilesOf repoType repoId commit stored).mapError
    statusForArchiveError
  let recorded := recordedByPath (files.getD [])
  return {
    commit := commit
    files := valuesOf (withRecorded (heldFiles recorded manifest.files)
      (valuesOf recorded)) }

/-! ## The loops -/

/-- The last entry of a list for a path. -/
def entryOf (files : List UpstreamFile) (path : String) :
    Option UpstreamFile :=
  files.reverse.find? (·.path = path)

section loops

theorem foldl_recorded
    (files : List UpstreamFile)
    {start : Finmap fun _ : String => UpstreamFile}
    (filed : FiledBy UpstreamFile.path start) :
    FiledBy UpstreamFile.path
        (files.foldl (fun recorded file => recorded.insert file.path file)
          start) ∧
      ∀ path, (files.foldl (fun recorded file =>
          recorded.insert file.path file) start).lookup path =
        (entryOf files path).or (start.lookup path) := by
  induction files generalizing start with
  | nil => exact ⟨filed, fun path => rfl⟩
  | cons file files inductionHypothesis =>
      obtain ⟨later, found⟩ := inductionHypothesis (filed.insert file)
      refine ⟨later, fun path => ?_⟩
      rw [List.foldl_cons, found, entryOf, entryOf, List.reverse_cons,
        List.find?_append]
      cases files.reverse.find? (·.path = path) with
      | some entry => rfl
      | none =>
          by_cases same : file.path = path
          · subst same
            simp
          · rw [Finmap.lookup_insert_of_ne _ (Ne.symm same)]
            simp [same]

theorem recordedByPath_filed (files : List UpstreamFile) :
    FiledBy UpstreamFile.path (recordedByPath files) :=
  (foldl_recorded files (FiledBy.empty _)).1

theorem lookup_recordedByPath (files : List UpstreamFile) (path : String) :
    (recordedByPath files).lookup path = entryOf files path := by
  rw [recordedByPath, (foldl_recorded files (FiledBy.empty _)).2]
  simp

/-- The last entry of a manifest for a path. -/
def manifestEntry (files : List ManifestFile) (path : String) :
    Option ManifestFile :=
  files.reverse.find? (·.path = path)

theorem foldl_held
    {recorded : Finmap fun _ : String => UpstreamFile}
    {files : List ManifestFile}
    {start : Finmap fun _ : String => MetadataFile}
    (filed : FiledBy MetadataFile.path start)
    (external : ∀ file ∈ files, isInternalArchivePath file.path = false) :
    FiledBy MetadataFile.path
        (files.foldl (fun held file =>
          if isInternalArchivePath file.path then held
          else held.insert file.path (heldFile recorded file)) start) ∧
      ∀ path, (files.foldl (fun held file =>
          if isInternalArchivePath file.path then held
          else held.insert file.path (heldFile recorded file)) start).lookup
            path =
        ((manifestEntry files path).map (heldFile recorded)).or
          (start.lookup path) := by
  induction files generalizing start with
  | nil => exact ⟨filed, fun path => rfl⟩
  | cons file files inductionHypothesis =>
      have here := external file (List.mem_cons_self ..)
      obtain ⟨later, found⟩ := inductionHypothesis
        (filed.insert (heldFile recorded file)) fun other member =>
          external other (List.mem_cons_of_mem _ member)
      rw [List.foldl_cons, if_neg (by simp [here])]
      refine ⟨later, fun path => (found path).trans ?_⟩
      rw [manifestEntry, manifestEntry, List.reverse_cons, List.find?_append]
      cases files.reverse.find? (·.path = path) with
      | some entry => rfl
      | none =>
          by_cases same : file.path = path
          · subst same
            simp [heldFile]
          · have apart : path ≠ (heldFile recorded file).path := Ne.symm same
            rw [Finmap.lookup_insert_of_ne _ apart]
            simp [same]

theorem foldl_withRecorded
    {files : List UpstreamFile}
    {held : Finmap fun _ : String => MetadataFile}
    (filed : FiledBy MetadataFile.path held) :
    FiledBy MetadataFile.path (withRecorded held files) ∧
      ∀ path, (withRecorded held files).lookup path =
        (held.lookup path).or
          ((files.find? (·.path = path)).map recordedFile) := by
  unfold withRecorded
  induction files generalizing held with
  | nil =>
      refine ⟨filed, fun path => ?_⟩
      show held.lookup path = _
      cases held.lookup path <;> rfl
  | cons file files inductionHypothesis =>
      rw [List.foldl_cons]
      split
      · next there =>
          obtain ⟨later, found⟩ := inductionHypothesis filed
          refine ⟨later, fun path => (found path).trans ?_⟩
          by_cases same : file.path = path
          · subst same
            obtain ⟨value, present⟩ := Finmap.mem_iff.mp there
            rw [present]
            rfl
          · rw [List.find?_cons_of_neg (by simp [same])]
      · next absent =>
          obtain ⟨later, found⟩ :=
            inductionHypothesis (filed.insert (recordedFile file))
          refine ⟨later, fun path => (found path).trans ?_⟩
          by_cases same : file.path = path
          · subst same
            have placed : (held.insert (recordedFile file).path
                (recordedFile file)).lookup file.path =
                  some (recordedFile file) :=
              Finmap.lookup_insert _
            rw [Finmap.lookup_eq_none.mpr absent, placed,
              List.find?_cons_of_pos (by simp)]
            rfl
          · have apart : path ≠ (recordedFile file).path := Ne.symm same
            rw [Finmap.lookup_insert_of_ne _ apart,
              List.find?_cons_of_neg (by simp [same])]

/-- What is said of a path: what the manifest lists, or what is recorded. -/
theorem lookup_metadata
    (recorded : List UpstreamFile)
    {files : List ManifestFile}
    (external : ∀ file ∈ files, isInternalArchivePath file.path = false) :
    FiledBy MetadataFile.path
        (withRecorded (heldFiles (recordedByPath recorded) files)
          (valuesOf (recordedByPath recorded))) ∧
      ∀ path, (withRecorded (heldFiles (recordedByPath recorded) files)
          (valuesOf (recordedByPath recorded))).lookup path =
        ((manifestEntry files path).map
          (heldFile (recordedByPath recorded))).or
            ((entryOf recorded path).map recordedFile) := by
  obtain ⟨filed, held⟩ := @foldl_held (recordedByPath recorded) _ _
    (FiledBy.empty _) external
  obtain ⟨later, found⟩ := @foldl_withRecorded
    (valuesOf (recordedByPath recorded)) _ filed
  refine ⟨later, fun path => ?_⟩
  rw [← lookup_recordedByPath,
    ← (recordedByPath_filed recorded).find_valuesOf]
  refine (found path).trans ?_
  rw [held]
  simp

end loops

/-! ## Held and recorded -/

/-- The metadata is the union of the manifest and the record, and says of every
path what its source says. -/
structure Unites
    (repoType : RepositoryType)
    (revision : RevisionDir)
    (manifest : Manifest)
    (recorded : List UpstreamFile)
    (metadata : RepositoryMetadata) :
    Prop where
  ascending : (metadata.files.map MetadataFile.path).Pairwise (· < ·)
  paths : ∀ path, path ∈ metadata.files.map MetadataFile.path ↔
    path ∈ manifest.paths ∨ path ∈ recorded.map UpstreamFile.path
  digest : ∀ file ∈ metadata.files,
    file.digest ≠ none ↔ file.path ∈ manifest.paths
  served : ∀ file ∈ metadata.files, ∀ digest, file.digest = some digest →
    ∃ resolved, revision.resolveFile repoType file.path = .ok resolved ∧
      resolved.sha256 = digest ∧ file.size = some resolved.size
  unheld : ∀ file ∈ metadata.files, file.path ∉ manifest.paths →
    ∃ entry, entryOf recorded file.path = some entry ∧
      file.size = entry.size
  oid : ∀ file ∈ metadata.files,
    file.oid = (entryOf recorded file.path).bind UpstreamFile.blobId

theorem entryOf_isSome
    {files : List UpstreamFile}
    {path : String} :
    entryOf files path ≠ none ↔ path ∈ files.map UpstreamFile.path := by
  rw [entryOf, ne_eq, List.find?_eq_none]
  simp

theorem manifestEntry_isSome
    {files : List ManifestFile}
    {path : String} :
    manifestEntry files path ≠ none ↔
      path ∈ files.map ManifestFile.path := by
  rw [manifestEntry, ne_eq, List.find?_eq_none]
  simp

section unites

variable {sha256 : Bytes → String} {repoType : RepositoryType}
  {revision : RevisionDir} {manifest : Manifest}

theorem unites_of_stocked
    (stocked : revision.Stocked sha256 repoType manifest)
    (recorded : List UpstreamFile)
    (commit : String) :
    Unites repoType revision manifest recorded {
      commit := commit
      files := valuesOf (withRecorded
        (heldFiles (recordedByPath recorded) manifest.files)
        (valuesOf (recordedByPath recorded))) } := by
  obtain ⟨filed, said⟩ := @lookup_metadata recorded manifest.files
    fun file member => (stocked.stored file member).1.not_internal
  -- what is said of a path, by the two sources
  have told : ∀ file ∈ valuesOf (withRecorded
      (heldFiles (recordedByPath recorded) manifest.files)
      (valuesOf (recordedByPath recorded))),
      (∃ entry ∈ manifest.files, entry.path = file.path ∧
        file = heldFile (recordedByPath recorded) entry) ∨
      (file.path ∉ manifest.paths ∧ ∃ entry,
        entryOf recorded file.path = some entry ∧
          file = recordedFile entry) := by
    intro file member
    have found := (said file.path).symm.trans (filed.mem_iff.mp member)
    cases listed : manifestEntry manifest.files file.path with
    | some entry =>
        rw [listed] at found
        refine Or.inl ⟨entry,
          List.mem_reverse.mp (List.mem_of_find?_eq_some listed), ?_,
            (Option.some.inj found).symm⟩
        simpa using List.find?_some listed
    | none =>
        rw [listed] at found
        obtain ⟨entry, inRecord, same⟩ := Option.map_eq_some_iff.mp found
        refine Or.inr ⟨fun inside => ?_, entry, inRecord, same.symm⟩
        exact manifestEntry_isSome.mpr inside listed
  refine ⟨filed.ascending, ?_, ?_, ?_, ?_, ?_⟩
  · intro path
    rw [← entryOf_isSome, Manifest.paths, ← manifestEntry_isSome,
      List.mem_map]
    have either : (∃ file ∈ valuesOf (withRecorded
        (heldFiles (recordedByPath recorded) manifest.files)
        (valuesOf (recordedByPath recorded))), file.path = path) ↔
        (withRecorded (heldFiles (recordedByPath recorded) manifest.files)
          (valuesOf (recordedByPath recorded))).lookup path ≠ none := by
      rw [Option.ne_none_iff_exists']
      constructor
      · rintro ⟨file, member, rfl⟩
        exact ⟨file, filed.mem_iff.mp member⟩
      · rintro ⟨file, found⟩
        have named := filed path file found
        exact ⟨file, filed.mem_iff.mpr (named ▸ found), named⟩
    rw [either, said]
    cases manifestEntry manifest.files path <;>
      cases entryOf recorded path <;> simp
  · intro file member
    rcases told file member with ⟨entry, among, named, same⟩ |
      ⟨unlisted, entry, _, same⟩
    · refine iff_of_true (by rw [same]; simp [heldFile]) ?_
      exact named ▸ List.mem_map_of_mem among
    · exact iff_of_false (by rw [same]; simp [recordedFile]) unlisted
  · intro file member digest claimed
    rcases told file member with ⟨entry, among, named, same⟩ |
      ⟨_, entry, _, same⟩
    · obtain ⟨resolved, found, sized, hashed, _⟩ := stocked.resolves among
      rw [named] at found
      rw [same] at claimed
      refine ⟨resolved, found, hashed.trans (Option.some.inj claimed), ?_⟩
      rw [same, sized]
      rfl
    · rw [same] at claimed
      cases claimed
  · intro file member unlisted
    rcases told file member with ⟨entry, among, named, _⟩ |
      ⟨_, entry, inRecord, same⟩
    · exact absurd (named ▸ List.mem_map_of_mem among) unlisted
    · exact ⟨entry, inRecord, by rw [same]; rfl⟩
  · intro file member
    rcases told file member with ⟨entry, _, named, same⟩ |
      ⟨_, entry, inRecord, same⟩
    · rw [← named, ← lookup_recordedByPath, same]
      rfl
    · rw [inRecord, same]
      rfl

/-- What is asked about a revision that stands there is answered with the
union. -/
theorem archivedMetadata_of_stocked
    {repository : RepositoryDir}
    {repoId commit : String}
    {stored : Stored UpstreamRecord}
    {recorded : Option (List UpstreamFile)}
    (stocked : revision.Stocked sha256 repoType manifest)
    (stands : repository.revision commit = some revision)
    (read : upstreamFilesOf repoType repoId commit stored = .ok recorded) :
    ∃ metadata,
      archivedMetadata repoType repoId commit repository stored =
          .ok metadata ∧
        metadata.commit = commit ∧
        Unites repoType revision manifest (recorded.getD []) metadata := by
  refine ⟨_, ?_, rfl, unites_of_stocked stocked (recorded.getD []) commit⟩
  obtain ⟨_, named, rest⟩ := bind_eq_ok.mp read
  obtain ⟨_, valid, _⟩ := bind_eq_ok.mp rest
  have complete : isCompleteRevision repoType repoId commit repository =
      .ok true := by
    refine bind_eq_ok.mpr ⟨_, named, bind_eq_ok.mpr ⟨_, valid, ?_⟩⟩
    rw [stands]
    exact bind_eq_ok.mpr ⟨manifest,
      RevisionDir.readManifestFor_eq_ok.mpr ⟨stocked.read, stocked.typed⟩,
      congrArg Except.ok stocked.complete⟩
  have validated : validatedManifest repoType repoId commit repository =
      .ok manifest := by
    unfold validatedManifest
    rw [complete, stands]
    obtain ⟨found, files, tree⟩ := revision
    obtain rfl := stocked.read
    rfl
  unfold archivedMetadata
  rw [validated, read]
  rfl

end unites

/-! ## Reachable revisions -/

section reachable

open Concurrency Program Relation Operations

variable {ι : Type} [DecidableEq ι] {sha256 : Bytes → String}
  {repoType : RepositoryType} {calls : ι → Call}

/-- Whatever publications and extensions have done, and wherever they are, the
metadata of a revision is the union of its manifest and its record, as long as
the paths they were asked for are plainly spelled and nothing published in
place has links. -/
theorem metadata_unites
    (plain : ∀ actor, (calls actor).Plain)
    (keeping : ∀ actor, (calls actor).removes = false)
    {repository : RepositoryDir}
    (clean : Clean sha256 repoType repository)
    {after : Calls interface ι (Store ι) (Except ArchiveError Unit)}
    (run : ReflTransGen (Calls.Any (exec repoType calls))
      (.initial (.idle repository)
        fun actor => (calls actor).program sha256 repoType) after)
    {repoId commit : String}
    {revision : RevisionDir}
    {stored : Stored UpstreamRecord}
    {recorded : Option (List UpstreamFile)}
    (stands : after.shared.dir.revision commit = some revision)
    (read : upstreamFilesOf repoType repoId commit stored = .ok recorded) :
    ∃ manifest metadata, revision.manifest = .decoded manifest ∧
      archivedMetadata repoType repoId commit after.shared.dir stored =
        .ok metadata ∧
      metadata.commit = commit ∧
      Unites repoType revision manifest (recorded.getD []) metadata := by
  have careful : ReflTransGen
      (Calls.Careful (exec repoType calls) (Conflict calls))
      (.initial (.idle repository)
        fun actor => (calls actor).program sha256 repoType) after := by
    refine ReflTransGen.mono ?_ _ _ run
    rintro before next ⟨actor, step, _⟩
    refine ⟨actor, step, ?_⟩
    rintro other (⟨_, removes, _⟩ | ⟨_, removes, _⟩)
    · rw [keeping] at removes
      cases removes
    · rw [keeping] at removes
      cases removes
  have kept := ((contract sha256 repoType calls plain).kept_initial
    (sound_idle clean) fun _ => ⟨rfl, rfl, rfl, rfl⟩).reaches careful
  have unharmed : after.shared.Unharmed commit := by
    intro actor removing
    have removes := (kept.invariant.removals actor commit removing).1
    rw [keeping] at removes
    cases removes
  obtain ⟨manifest, intact⟩ :=
    kept.invariant.revisions commit revision stands unharmed
  obtain ⟨metadata, answer, same, unites⟩ :=
    archivedMetadata_of_stocked intact.toStocked stands read
  exact ⟨manifest, metadata, intact.read, answer, same, unites⟩

/-- A publication of one empty file. -/
def samplePublication : Publishing.Source :=
  .files ⟨"n/r", "main", "c0", [⟨"a/b", .ok []⟩]⟩

/-- The revision it makes. -/
def samplePublished : RevisionDir :=
  match samplePublication.revision Extension.sampleDigest .model with
  | .ok revision => revision
  | .error _ => .blank

/-- An archive without repositories. -/
def sampleEmpty : RepositoryDir := ⟨none, []⟩

/-- The archive once it is published. -/
def sampleHeld : RepositoryDir := sampleEmpty.putRevision "c0" samplePublished

/-- What upstream lists: the file, and one that was not acquired. -/
def sampleRecord : List UpstreamFile :=
  [⟨"a/b", some 0, some "ff", none⟩, ⟨"c", some 7, none, none⟩]

theorem samplePublication_revision :
    samplePublication.revision Extension.sampleDigest .model =
      .ok samplePublished := by
  have made : (samplePublication.revision Extension.sampleDigest
      .model).isOk = true := by
    decide +kernel
  unfold samplePublished
  revert made
  cases samplePublication.revision Extension.sampleDigest .model with
  | ok revision => exact fun _ => rfl
  | error error => exact nofun

theorem samplePublication_runs :
    ((Call.publish samplePublication).program Extension.sampleDigest
        .model).Runs
      (exec .model (fun _ : Unit => .publish samplePublication) ())
      (.idle sampleEmpty) (.ok ()) (.idle sampleHeld) := by
  have checked : checkSource samplePublication = .ok () := by decide +kernel
  show (Operations.publish Extension.sampleDigest .model
    samplePublication).run.Runs _ _ _ _
  unfold Operations.publish
  rw [checked]
  refine ⟨.ok (), .idle sampleEmpty, rfl, false, .idle sampleEmpty,
    ⟨rfl, rfl⟩, ?_⟩
  rw [samplePublication_revision]
  exact ⟨.ok (), .idle sampleHeld, Or.inl ⟨rfl, nofun, rfl⟩, .ok (), _, rfl,
    rfl, rfl⟩

theorem samplePublication_eq :
    ∃ next, (Call.publish samplePublication).program Extension.sampleDigest
      .model = .call .createRevisions next := by
  have checked : checkSource samplePublication = .ok () := by decide +kernel
  show ∃ next, (Operations.publish Extension.sampleDigest .model
    samplePublication).run = .call .createRevisions next
  unfold Operations.publish
  rw [checked]
  exact ⟨_, rfl⟩

theorem plain_samplePublication : samplePublication.Plain where
  canonical path member := by
    obtain rfl := List.mem_singleton.mp member
    exact ⟨by decide +kernel, by decide +kernel⟩
  linkless := nofun

/-- After the publication the metadata names the file that is held and the one
that is recorded. -/
theorem metadata_unites_sample :
    ∃ manifest metadata, samplePublished.manifest = .decoded manifest ∧
      archivedMetadata .model "n/r" "c0" sampleHeld
          (.decoded ⟨1, .model, "n/r", "c0", sampleRecord⟩) = .ok metadata ∧
      metadata.commit = "c0" ∧
      Unites .model samplePublished manifest sampleRecord metadata := by
  obtain ⟨next, begins⟩ := samplePublication_eq
  have runs := samplePublication_runs
  rw [begins] at runs
  have reached : ReflTransGen
      (Calls.Any (exec .model fun _ : Unit => .publish samplePublication))
      (.initial (.idle sampleEmpty) fun _ =>
        (Call.publish samplePublication).program Extension.sampleDigest .model)
      _ :=
    Calls.reaches_of_runs id (fun _ => nofun) begins runs
  have clean : Clean Extension.sampleDigest .model sampleEmpty := by
    constructor
    · intro name text found
      cases found
    · intro commit revision found
      cases found
  have read : upstreamFilesOf .model "n/r" "c0"
      (.decoded ⟨1, .model, "n/r", "c0", sampleRecord⟩) =
        .ok (some sampleRecord) := by
    decide +kernel
  exact @metadata_unites Unit _ _ _ (fun _ => .publish samplePublication)
    (fun _ => plain_samplePublication) (fun _ => rfl) _ clean _ reached _ _ _
    _ _ rfl read

/-- The same file under another spelling is added. -/
def sampleExtended : RevisionDir :=
  (Extension.extendAlone Extension.sampleDigest .model
    ⟨"n/r", "c0", ["a//b"]⟩ (fun _ => .ok [0, 0]) samplePublished).2

/-- What is reported is not what is served: the extension has replaced the
file, and its entry is as it was. -/
theorem metadata_disagrees :
    samplePublication.revision Extension.sampleDigest .model =
        .ok samplePublished ∧
      (Extension.extendAlone Extension.sampleDigest .model
        ⟨"n/r", "c0", ["a//b"]⟩ (fun _ => .ok [0, 0]) samplePublished).1 =
          .ok ⟨"c0", ["a//b"], []⟩ ∧
      ∃ metadata, archivedMetadata .model "n/r" "c0"
          (sampleEmpty.putRevision "c0" sampleExtended) .missing =
            .ok metadata ∧
        ∃ file ∈ metadata.files, file.path = "a/b" ∧ file.size = some 0 ∧
          (sampleExtended.resolveFile .model "a/b").map ResolvedFile.size =
            .ok 2 := by
  refine ⟨samplePublication_revision, by decide +kernel, ?_⟩
  let listed : List ManifestFile :=
    [⟨"a/b", 0, Extension.sampleDigest []⟩,
      ⟨"a//b", 2, Extension.sampleDigest [0, 0]⟩]
  have validated : validatedManifest .model "n/r" "c0"
      (sampleEmpty.putRevision "c0" sampleExtended) =
        .ok ⟨true, .model, "n/r", "main", listed⟩ := by
    decide +kernel
  have read : upstreamFilesOf .model "n/r" "c0" .missing = .ok none := by
    decide +kernel
  have external : ∀ file ∈ listed,
      isInternalArchivePath file.path = false := by
    decide +kernel
  obtain ⟨filed, said⟩ := @lookup_metadata [] listed external
  have found := said "a/b"
  refine ⟨_, by unfold archivedMetadata; rw [validated, read]; rfl,
    _, filed.mem_iff.mpr (by
      show _ = some (heldFile (recordedByPath [])
        ⟨"a/b", 0, Extension.sampleDigest []⟩)
      exact found), rfl, rfl, by decide +kernel⟩

end reachable

end Http
end ModelKeep
