import ModelKeep.Fetcher.ResolveOnly
import ModelKeep.Http.Download

/-!
# Listed files are served

A metadata request is answered from the archive, or with what upstream lists,
or from the archive after an acquisition.  The archive moves on meanwhile and
afterwards; what a client is told of a file that the archive holds stays right.
-/

namespace ModelKeep
namespace Http

open Concurrency Program Relation
open FileSystem (UpstreamFile)
open SortedMap

/-! ## The handler -/

/-- What the handler asks of the archive, of upstream and of the
acquisitions. -/
inductive MetadataOp
  /-- The directory of a revision is there. -/
  | isDir (commit : String)
  | resolveRef (reference : String)
  /-- `upstream_metadata`, on a thread of its own, which may panic. -/
  | upstreamMetadata (revision : String)
  /-- `ensure_bounded_for_type` without a path, on a thread of its own. -/
  | ensureBounded (revision : String)
  | isCompleteRevision (commit : String)
  | manifest (commit : String)
  | upstreamFiles (commit : String)

abbrev MetadataOp.Reply : MetadataOp → Type
  | .isDir _ => Except ArchiveError Bool
  | .resolveRef _ => Except ArchiveError String
  | .upstreamMetadata _ =>
      Option (Except PullThroughError (Option Fetcher.RepositoryFiles))
  | .ensureBounded _ => Option (Except PullThroughError (Option String))
  | .isCompleteRevision _ => Except ArchiveError Bool
  | .manifest _ => Except ArchiveError (Stored Manifest)
  | .upstreamFiles _ => Except ArchiveError (Option (List UpstreamFile))

abbrev metadataInterface : Interface := ⟨MetadataOp, MetadataOp.Reply⟩

def inquire (op : MetadataOp) : Program metadataInterface op.Reply :=
  .call op .done

/-- A part of the handler; it may end with a status. -/
abbrev MetadataHandler (α : Type) : Type :=
  ExceptT FileStatus (Program metadataInterface) α

def statusOfArchive (error : ArchiveError) : FileStatus :=
  .ofCode (statusForArchiveError error)

/-- `archived_commit` -/
def archivedCommit (revision : String) :
    Program metadataInterface (Except ArchiveError String) :=
  if isHfCommit revision then do
    match ← inquire (.isDir revision) with
    | .error error => return .error error
    | .ok true => return .ok revision
    | .ok false => return .error (.io .notFound)
  else inquire (.resolveRef revision)

/-- `RepositoryMetadata::from_upstream` -/
def RepositoryMetadata.fromUpstream (metadata : Fetcher.RepositoryFiles) :
    RepositoryMetadata where
  commit := metadata.commit
  files := (metadata.files.map fun file =>
      (⟨file.path, file.size, file.blobId, none⟩ :
        MetadataFile)).insertionSort fun left right => left.path ≤ right.path

/-- `validated_manifest`; the manifest is read again once it is known to be
complete. -/
def readValidatedManifest (commit : String) : MetadataHandler Manifest := do
  let complete ← always (inquire (.isCompleteRevision commit))
  match complete with
  | .error error => check (.error (statusOfArchive error))
  | .ok false => check (.error .internalServerError)
  | .ok true => do
      let stored ← always (inquire (.manifest commit))
      match stored with
      | .error error => check (.error (statusOfArchive error))
      | .ok .missing => check (.error .notFound)
      | .ok (.unreadable _) => check (.error .internalServerError)
      | .ok (.decoded manifest) => check (.ok manifest)

/-- What is listed of a manifest and a record. -/
def listed (commit : String) (manifest : Manifest)
    (recorded : List UpstreamFile) : RepositoryMetadata where
  commit := commit
  files := valuesOf (withRecorded
    (heldFiles (recordedByPath recorded) manifest.files)
    (valuesOf (recordedByPath recorded)))

/-- `archived_metadata` -/
def readArchivedMetadata (commit : String) :
    MetadataHandler RepositoryMetadata := do
  let manifest ← readValidatedManifest commit
  let recorded ← always (inquire (.upstreamFiles commit))
  match recorded with
  | .error error => check (.error (statusOfArchive error))
  | .ok files => check (.ok (listed commit manifest (files.getD [])))

/-- `await_cold_miss_acquisition` without a path. -/
def awaitAcquisition (revision : String) : MetadataHandler (Option String) := do
  let acquired ← always (inquire (.ensureBounded revision))
  match acquired with
  | none => check (.error .internalServerError)
  | some (.error error) => check (.error (statusForPullThroughError error))
  | some (.ok commit) => check (.ok commit)

/-- The answer for a revision that the archive does not hold. -/
def missedMetadata (revision : String) :
    MetadataHandler (Option RepositoryMetadata) := do
  let upstream ← always (inquire (.upstreamMetadata revision))
  match upstream with
  | none => check (.error .internalServerError)
  | some (.error error) => check (.error (statusForPullThroughError error))
  | some (.ok (some metadata)) =>
      check (.ok (some (.fromUpstream metadata)))
  | some (.ok none) => do
      let acquired ← awaitAcquisition revision
      match acquired with
      | none => check (.ok none)
      | some commit => do
          let metadata ← readArchivedMetadata commit
          check (.ok (some metadata))

/-- `repository_metadata`; there is an upstream or there is none. -/
def repositoryMetadata (pullthrough : Bool) (revision : String) :
    MetadataHandler (Option RepositoryMetadata) := do
  let found ← always (archivedCommit revision)
  match found with
  | .ok commit => do
      let metadata ← readArchivedMetadata commit
      check (.ok (some metadata))
  | .error (.io .notFound) =>
      if pullthrough then missedMetadata revision
      else check (.error .notFound)
  | .error error => check (.error (statusOfArchive error))

/-! ## Where an answer comes from -/

section answers

variable {σ : Type} {exec : Semantics metadataInterface σ}
  {before after : σ} {commit : String} {metadata : RepositoryMetadata}

/-- Any number of operations. -/
abbrev Goes (exec : Semantics metadataInterface σ) : σ → σ → Prop :=
  ReflTransGen fun before after => ∃ op reply, exec op before reply after

theorem goes_of_runs
    {α : Type}
    {program : Program metadataInterface α}
    {result : α}
    (runs : Runs exec program before result after) :
    Goes exec before after := by
  induction program generalizing before with
  | done value =>
      cases runs.2
      exact .refl
  | call op next inductionHypothesis =>
      obtain ⟨reply, middle, issued, runs⟩ := runs
      exact .head ⟨op, reply, issued⟩ (inductionHypothesis reply runs)

/-- The manifest and the record that an answer of the archive was made of,
and when they were read. -/
structure Composed
    (exec : Semantics metadataInterface σ)
    (before : σ)
    (metadata : RepositoryMetadata)
    (after : σ) : Prop where
  read : ∃ start middle manifest recorded, Goes exec before start ∧
    exec (.manifest metadata.commit) start (.ok (.decoded manifest)) middle ∧
    Goes exec middle after ∧
    metadata = listed metadata.commit manifest recorded

theorem Composed.later
    {earlier : σ}
    (composed : Composed exec before metadata after)
    (goes : Goes exec earlier before) :
    Composed exec earlier metadata after := by
  obtain ⟨start, middle, manifest, recorded, first, issued, rest, same⟩ :=
    composed.read
  exact ⟨start, middle, manifest, recorded, goes.trans first, issued, rest,
    same⟩

theorem composed_of_read
    (returned : Returns exec (readArchivedMetadata commit) before
      (.ok metadata) after) :
    Composed exec before metadata after := by
  obtain ⟨manifest, later, validated, onward⟩ :=
    returns_bind_ok.mp returned
  obtain ⟨complete, start, asked, rest⟩ := returns_always_bind.mp validated
  rcases complete with error | _ | _
  · cases (returns_check.mp rest).1
  · cases (returns_check.mp rest).1
  obtain ⟨stored, middle, issued, ended⟩ := returns_always_bind.mp rest
  replace issued := runs_perform.mp issued
  rcases stored with error | _ | message | decoded
  · cases (returns_check.mp ended).1
  · cases (returns_check.mp ended).1
  · cases (returns_check.mp ended).1
  obtain ⟨same, rfl⟩ := returns_check.mp ended
  cases same
  obtain ⟨reply, last, recorded, done⟩ := returns_always_bind.mp onward
  cases reply with
  | error error => cases (returns_check.mp done).1
  | ok files =>
      obtain ⟨same, rfl⟩ := returns_check.mp done
      cases same
      exact ⟨start, later, manifest, files.getD [], goes_of_runs asked,
        issued, goes_of_runs recorded, rfl⟩

/-- An answer is what upstream lists, or composed in the archive. -/
theorem composed_of_repositoryMetadata
    {pullthrough : Bool}
    {revision : String}
    (returned : Returns exec (repositoryMetadata pullthrough revision) before
      (.ok (some metadata)) after) :
    (∀ file ∈ metadata.files, file.digest = none) ∨
      Composed exec before metadata after := by
  obtain ⟨found, middle, asked, rest⟩ := returns_always_bind.mp returned
  have goes := goes_of_runs asked
  split at rest
  · obtain ⟨told, last, read, done⟩ := returns_bind_ok.mp rest
    obtain ⟨same, rfl⟩ := returns_check.mp done
    cases same
    exact Or.inr ((composed_of_read read).later goes)
  · split at rest
    · obtain ⟨upstream, later, queried, onward⟩ :=
        returns_always_bind.mp rest
      have further := goes.trans (goes_of_runs queried)
      split at onward
      · cases (returns_check.mp onward).1
      · cases (returns_check.mp onward).1
      · obtain ⟨same, rfl⟩ := returns_check.mp onward
        cases same
        left
        intro file member
        rw [RepositoryMetadata.fromUpstream, List.mem_insertionSort,
          List.mem_map] at member
        obtain ⟨_, _, rfl⟩ := member
        rfl
      · obtain ⟨acquired, place, awaited, ended⟩ :=
          returns_bind_ok.mp onward
        have reached := further.trans (goes_of_runs awaited)
        cases acquired with
        | none => cases (returns_check.mp ended).1
        | some commit =>
            obtain ⟨told, last, read, done⟩ := returns_bind_ok.mp ended
            obtain ⟨same, rfl⟩ := returns_check.mp done
            cases same
            exact Or.inr ((composed_of_read read).later reached)
    · cases (returns_check.mp rest).1
  · cases (returns_check.mp rest).1

end answers

/-! ## While the archive moves on -/

open Operations

/-- `manifest_for_type` -/
def manifestOf (repoId commit : String) (repository : RepositoryDir) :
    Except ArchiveError (Stored Manifest) := do
  let _ ← validateRepoId repoId
  validateRevision commit
  match repository.revision commit with
  | none => .error (.io .notFound)
  | some revision => .ok revision.manifest

/-- `revision_path_for_type`, and whether a directory is there. -/
def hasRevision (repoId commit : String) (repository : RepositoryDir) :
    Except ArchiveError Bool := do
  let _ ← validateRepoId repoId
  validateRevision commit
  return (repository.revision commit).isSome

/-- What the handler finds in a repository that moves on before each of its
steps.  A directory that cannot be looked at is none; the record of a commit,
upstream and an acquisition may tell anything. -/
def finds
    {μ : Type}
    (step : μ → μ → Prop)
    (dir : μ → RepositoryDir)
    (repoType : RepositoryType)
    (repoId : String) :
    Semantics metadataInterface μ
  | .isDir commit, before, reply, after =>
      ReflTransGen step before after ∧
        (reply = hasRevision repoId commit (dir after) ∨ reply = .ok false)
  | .resolveRef reference, before, reply, after =>
      ReflTransGen step before after ∧
        Reads (resolveRef repoId (dir after) reference) reply
  | .upstreamMetadata _, before, _, after => ReflTransGen step before after
  | .ensureBounded _, before, _, after => ReflTransGen step before after
  | .isCompleteRevision commit, before, reply, after =>
      ReflTransGen step before after ∧
        Reads (isCompleteRevision repoType repoId commit (dir after)) reply
  | .manifest commit, before, reply, after =>
      ReflTransGen step before after ∧
        Reads (manifestOf repoId commit (dir after)) reply
  | .upstreamFiles _, before, _, after => ReflTransGen step before after

theorem reaches_of_goes
    {μ : Type}
    {step : μ → μ → Prop}
    {dir : μ → RepositoryDir}
    {repoType : RepositoryType}
    {repoId : String}
    {before after : μ}
    (goes : Goes (finds step dir repoType repoId) before after) :
    ReflTransGen step before after := by
  induction goes with
  | refl => exact .refl
  | tail _ asked inductionHypothesis =>
      obtain ⟨op, reply, issued⟩ := asked
      apply inductionHypothesis.trans
      cases op with
      | isDir commit => exact issued.1
      | resolveRef reference => exact issued.1
      | upstreamMetadata revision => exact issued
      | ensureBounded revision => exact issued
      | isCompleteRevision commit => exact issued.1
      | manifest commit => exact issued.1
      | upstreamFiles commit => exact issued

theorem manifestOf_eq_ok
    {repoId commit : String}
    {repository : RepositoryDir}
    {stored : Stored Manifest} :
    manifestOf repoId commit repository = .ok stored ↔
      (∃ parts, validateRepoId repoId = .ok parts) ∧
        validateRevision commit = .ok () ∧
        ∃ revision, repository.revision commit = some revision ∧
          revision.manifest = stored := by
  unfold manifestOf
  constructor
  · intro read
    obtain ⟨parts, named, read⟩ := bind_eq_ok.mp read
    obtain ⟨_, proper, read⟩ := bind_eq_ok.mp read
    refine ⟨⟨parts, named⟩, proper, ?_⟩
    cases stands : repository.revision commit with
    | none =>
        rw [stands] at read
        cases read
    | some revision =>
        rw [stands] at read
        exact ⟨revision, rfl, Except.ok.inj read⟩
  · rintro ⟨⟨parts, named⟩, proper, revision, stands, rfl⟩
    refine bind_eq_ok.mpr ⟨parts, named, bind_eq_ok.mpr ⟨(), proper, ?_⟩⟩
    rw [stands]

section calls

variable
  {ι : Type}
  [DecidableEq ι]
  {repoType : RepositoryType}
  {calls : ι → Call}

/-- From a moment on every answer about the file is right about the content,
and whatever is missing of it can be had. -/
structure Serves
    (repoType : RepositoryType)
    (calls : ι → Call)
    (repoId commit path : String)
    (content : Bytes)
    (digest : String)
    (now : Moment ι) :
    Prop where
  right : ∀ before, ReflTransGen (Moves repoType calls) now before →
    ∀ settings revision headers headOnly response after,
      Runs (observes (Moves repoType calls) directory repoType repoId)
        (fileResponse settings revision path headers headOnly) before
        (some (.ok (.file response))) after →
      response.repoCommit = commit →
        ∃ range, Represents content digest commit headers headOnly range
          response
  rest : ∀ later, ReflTransGen (Moves repoType calls) now later →
    ∀ received, received <+: content → received ≠ content →
      ∀ settings, ∃ response,
        Runs (observes (Moves repoType calls) directory repoType repoId)
          (fileResponse settings commit path (missing received.length) false)
          later (some (.ok (.file response))) later ∧
        received ++ response.body = content ∧
        response.etag = etagOf digest

/-- What an answer says of the files that the archive holds is true. -/
structure Truthful
    (hash : Bytes → Bytes)
    (repoType : RepositoryType)
    (calls : ι → Call)
    (repoId : String)
    (now : Moment ι)
    (metadata : RepositoryMetadata)
    (told : Moment ι) :
    Prop where
  /-- A file that is listed with a digest is served. -/
  served : ∀ file ∈ metadata.files, ∀ digest, file.digest = some digest →
    ∃ content, file.size = some content.length ∧
      hexDigest (hash content) = digest ∧
      (content.length < 2 ^ 64 →
        Serves repoType calls repoId metadata.commit file.path content digest
          told)
  /-- Unless upstream lists it, every file that was there is listed. -/
  whole : (∀ file ∈ metadata.files, file.digest = none) ∨
    ∀ path resolved,
      (directory now).resolveFile repoType repoId metadata.commit path =
          .ok resolved →
        ∃ file ∈ metadata.files, file.path = path ∧
          file.size = some resolved.size ∧
          file.digest = some resolved.sha256

theorem Holds.serves
    {hash : Bytes → Bytes}
    {repoId commit path digest : String}
    {content : Bytes}
    {now : Moment ι}
    (holds : Holds (Moves repoType calls) directory repoType repoId commit
      path content digest now)
    (hashed : hexDigest (hash content) = digest)
    (proper : isHfCommit commit = true)
    (external : isInternalArchivePath path = false)
    (sized : content.length < 2 ^ 64) :
    Serves repoType calls repoId commit path content digest now where
  right before onward settings revision headers headOnly response after
      answered ofCommit :=
    (holds.later onward).represents sized answered ofCommit
  rest later onward received begun unfinished settings := by
    have etag : IsHeaderValue (etagOf digest) := by
      rw [← hashed]
      exact isHeaderValue_etagOf_hexDigest _
    obtain ⟨response, answered, body, tag, _⟩ :=
      (holds.later onward).continues sized etag
        (isHeaderValue_of_isHfCommit proper) proper external begun unfinished
        settings
    exact ⟨response, answered, body, tag⟩

/-- A manifest that was read lists what the revision has at that moment. -/
theorem unites_of_read
    {sha256 : Bytes → String}
    {plain : ∀ actor, (calls actor).Plain}
    {repoId commit : String}
    {now : Moment ι}
    {manifest : Manifest}
    (kept : (contract sha256 repoType calls plain).Kept now)
    (spared : Spared calls commit)
    (read : manifestOf repoId commit (directory now) =
      .ok (.decoded manifest))
    (recorded : List UpstreamFile) :
    (∀ entry ∈ manifest.files, CanonicalPath entry.path) ∧
      ∃ revision, revision.manifest = .decoded manifest ∧
        Unites repoType revision manifest recorded
          (listed commit manifest recorded) ∧
        ∀ path resolved, validateRelativeFilePath path = .ok () →
          (revision.resolveFile repoType path = .ok resolved ↔
            (directory now).resolveFile repoType repoId commit path =
              .ok resolved) := by
  obtain ⟨parts, proper, revision, stands, decoded⟩ :=
    manifestOf_eq_ok.mp read
  obtain ⟨other, intact⟩ := kept.invariant.intact spared stands
  obtain rfl : other = manifest :=
    Stored.decoded.inj (intact.read.symm.trans decoded)
  refine ⟨fun entry member => (intact.stored entry member).1, revision,
    decoded, unites_of_stocked intact.toStocked recorded commit, ?_⟩
  intro path resolved valid
  constructor
  · exact fun found =>
      resolveFile_eq_ok.mpr ⟨valid, parts, proper, revision, stands, found⟩
  · intro found
    obtain ⟨_, _, _, again, standsToo, found⟩ := resolveFile_eq_ok.mp found
    cases stands.symm.trans standsToo
    exact found

/-- A file that the revision has is listed, with its size and its digest. -/
theorem Unites.lists
    {revision : RevisionDir}
    {manifest : Manifest}
    {recorded : List UpstreamFile}
    {metadata : RepositoryMetadata}
    {path : String}
    {resolved : ResolvedFile}
    (unites : Unites repoType revision manifest recorded metadata)
    (decoded : revision.manifest = .decoded manifest)
    (found : revision.resolveFile repoType path = .ok resolved) :
    ∃ file ∈ metadata.files, file.path = path ∧
      file.size = some resolved.size ∧
      file.digest = some resolved.sha256 := by
  obtain ⟨_, other, entry, _, _, read, _, named, _⟩ :=
    RevisionDir.resolveFile_eq_ok.mp found
  obtain rfl : other = manifest := by
    have live := (RevisionDir.readManifestFor_eq_ok.mp read).1
    exact Stored.decoded.inj (live.symm.trans decoded)
  have inside : path ∈ other.paths := by
    have here : entry.path = path := by simpa using List.find?_some named
    exact here ▸ List.mem_map_of_mem (List.mem_of_find?_eq_some named)
  obtain ⟨file, member, rfl⟩ :=
    List.mem_map.mp ((unites.paths path).mpr (Or.inl inside))
  obtain ⟨digest, claimed⟩ := Option.ne_none_iff_exists'.mp
    ((unites.digest file member).mpr inside)
  obtain ⟨again, foundToo, rfl, sized⟩ :=
    unites.served file member digest claimed
  cases found.symm.trans foundToo
  exact ⟨file, member, rfl, sized, claimed⟩

end calls

/-! ## A sample request -/

/-- The manifest of the sample. -/
def sampleManifest : Manifest :=
  ⟨true, .model, "org/model", "main",
    [⟨"a", 2, hexDigest (sampleHash [97, 98])⟩]⟩

/-- The sample before its calls have begun. -/
def sampleOpening : Moment Unit :=
  opening (fun content => hexDigest (sampleHash content)) .model sampleCalls
    sampleRepository

/-- The metadata of the sample is asked for by its commit. -/
theorem returns_sample :
    Returns (finds (Moves .model sampleCalls) directory .model "org/model")
      (repositoryMetadata false sampleCommit) sampleOpening
      (.ok (some (listed sampleCommit sampleManifest []))) sampleOpening := by
  have there : hasRevision "org/model" sampleCommit
      (directory sampleOpening) = .ok true := by decide +kernel
  have complete : isCompleteRevision .model "org/model" sampleCommit
      (directory sampleOpening) = .ok true := by decide +kernel
  have decoded : manifestOf "org/model" sampleCommit
      (directory sampleOpening) = .ok (.decoded sampleManifest) := by
    decide +kernel
  have found : Runs
      (finds (Moves .model sampleCalls) directory .model "org/model")
      (archivedCommit sampleCommit) sampleOpening (.ok sampleCommit)
      sampleOpening := by
    unfold archivedCommit
    rw [if_pos (by decide)]
    exact ⟨.ok true, sampleOpening, ⟨.refl, Or.inl there.symm⟩, rfl, rfl⟩
  have read : Returns
      (finds (Moves .model sampleCalls) directory .model "org/model")
      (readArchivedMetadata sampleCommit) sampleOpening
      (.ok (listed sampleCommit sampleManifest [])) sampleOpening := by
    refine returns_bind_ok.mpr ⟨sampleManifest, sampleOpening, ?_, ?_⟩
    · refine returns_always_bind.mpr ⟨.ok true, sampleOpening,
        runs_perform.mpr ⟨.refl, Or.inl complete.symm⟩, ?_⟩
      exact returns_always_bind.mpr ⟨.ok (.decoded sampleManifest),
        sampleOpening, runs_perform.mpr ⟨.refl, Or.inl decoded.symm⟩, rfl,
        rfl⟩
    · exact returns_always_bind.mpr ⟨.ok none, sampleOpening,
        runs_perform.mpr .refl, rfl, rfl⟩
  exact returns_always_bind.mpr ⟨.ok sampleCommit, sampleOpening, found,
    returns_bind_ok.mpr ⟨_, _, read, rfl, rfl⟩⟩

end Http
end ModelKeep
