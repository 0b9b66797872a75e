import Mathlib.Data.List.Sort
import ModelKeep.Concurrency.RelyGuarantee
import ModelKeep.Revision

/-!
# Extending a published revision

`extend_revision_from_directory_inner` step by step.  Its file-system steps on
the published revision, on its lock file and on the replacement manifest are
operations that may fail at any time; whatever only touches the staging
directory of the call or the sources it copies is private to the call.  A call
that is cut off leaves everything as it stands and loses its lock.
-/

namespace ModelKeep

open Concurrency

/-- The archive paths to add; where each is copied from is left to
`copySource`. -/
structure RevisionExtensionRequest where
  repoId : String
  commit : String
  files : List String

/-- What an extension reports.  Both lists are sorted. -/
structure RevisionExtension where
  commit : String
  added : List String
  skipped : List String
  deriving DecidableEq

/-- The order of a `BTreeSet` of paths. -/
def sortPaths (paths : List String) : List String :=
  paths.insertionSort (· ≤ ·)

namespace Extension

/-- The steps of an extension that others can see, or that can fail. -/
inductive Op
  | revisionIsDir
  | readManifest
  | canonicalizeSourceRoot
  | createStaging
  /-- Copy one source into staging and flush it. -/
  | copySource (path : String)
  /-- Open the lock file and wait for the exclusive lock. -/
  | lock
  | createDirectory (path : List String)
  /-- Rename a staged file into the revision. -/
  | moveFile (path : List String) (content : Bytes)
  | syncDirectory (path : List String)
  | createPart
  | writePart (manifest : Manifest)
  | syncPart
  | renamePart
  | syncRevisions
  | removePart
  /-- The lock is released when its handle goes out of scope. -/
  | unlock

/-- What each step answers. -/
abbrev Op.Reply : Op → Type
  | .revisionIsDir => Bool
  | .readManifest => Except ArchiveError Manifest
  | .copySource _ => Except ArchiveError Bytes
  | .removePart => Unit
  | .unlock => Unit
  | _ => Except ArchiveError Unit

abbrev interface : Interface := ⟨Op, Op.Reply⟩

/-- A part of an extension; it may stop with an archive error. -/
abbrev Action (α : Type) : Type := ExceptT ArchiveError (Program interface) α

/-- One step. -/
def perform (op : Op) : Program interface op.Reply := .call op .done

/-- A step that may fail. -/
abbrev attempt {α : Type} (program : Program interface (Except ArchiveError α)) :
    Action α := ExceptT.mk program

/-- A check that touches nothing. -/
def check {α : Type} (outcome : Except ArchiveError α) : Action α :=
  ExceptT.mk (pure outcome)

/-- A step that cannot fail. -/
def always {α : Type} (program : Program interface α) : Action α :=
  ExceptT.mk (program >>= fun value => pure (.ok value))

/-- `read_extendable_manifest`. -/
def ensureExtendable (request : RevisionExtensionRequest) (manifest : Manifest) :
    Except ArchiveError Manifest :=
  if manifest.complete = false then
    .error (.integrityMismatch "revision is not complete")
  else if manifest.repoId ≠ "" ∧ manifest.repoId ≠ request.repoId then
    .error (.integrityMismatch ("manifest repository " ++ manifest.repoId ++
      " does not match " ++ request.repoId))
  else
    .ok manifest

/-- `read_extendable_manifest`, with its read. -/
def readExtendableManifest (request : RevisionExtensionRequest) :
    Action Manifest := do
  let manifest ← attempt (perform .readManifest)
  check (ensureExtendable request manifest)

/-- The requested paths as the first pass sorts them. -/
structure Classified where
  requested : List String
  skipped : List String
  candidates : List String

/-- The first pass over the request, against the manifest read without the
lock. -/
def classify (listed : List String) :
    List String → Classified → Except ArchiveError Classified
  | [], sorted => .ok sorted
  | path :: rest, sorted => do
      validateRelativeFilePath path
      if path ∈ sorted.requested then
        .error (.integrityMismatch ("duplicate archive path: " ++ path))
      else if path ∈ listed then
        classify listed rest
          { sorted with
            requested := sorted.requested ++ [path]
            skipped := sorted.skipped ++ [path] }
      else
        classify listed rest
          { sorted with
            requested := sorted.requested ++ [path]
            candidates := sorted.candidates ++ [path] }

/-- A file in staging, with the place its path leads to. -/
structure Staged where
  path : String
  place : List String
  content : Bytes

/-- Create a staged file anew, with the directories above it. -/
def stageFile (staging : FileTree Bytes) (place : List String)
    (content : Bytes) : Except ArchiveError (FileTree Bytes) :=
  match staging.makeDirectories place.dropLast with
  | none => .error (.io .notADirectory)
  | some prepared =>
      match prepared.createFile place content with
      | none => .error (.io .alreadyExists)
      | some staging => .ok staging

/-- Where a path leads inside staging and inside the revision. -/
def placeOf (path : String) : Except ArchiveError (List String) :=
  match filePlace path with
  | none => .error (.io .isADirectory)
  | some place => .ok place

/-- `stage_extension_files`. -/
def stageExtensionFiles :
    List String → FileTree Bytes → List Staged → Action (List Staged)
  | [], _, staged => check (.ok staged)
  | path :: rest, staging, staged => do
      check (validateRelativeFilePath path)
      let content ← attempt (perform (.copySource path))
      let place ← check (placeOf path)
      let staging ← check (stageFile staging place content)
      stageExtensionFiles rest staging (staged ++ [⟨path, place, content⟩])

/-- `fs::create_dir_all` inside the revision, outermost directory first. -/
def createDirectories : List (List String) → Action Unit
  | [] => check (.ok ())
  | path :: rest => do
      attempt (perform (.createDirectory path))
      createDirectories rest

/-- What the loop under the lock has done so far. -/
structure Placed where
  added : List Staged
  skipped : List String
  directories : List (List String)

/-- The loop under the lock: paths that were listed meanwhile are skipped, the
others are renamed into the revision. -/
def placeStaged (published : List String) :
    List Staged → Placed → Action Placed
  | [], placed => check (.ok placed)
  | file :: rest, placed =>
      if file.path ∈ published then
        placeStaged published rest
          { placed with skipped := placed.skipped ++ [file.path] }
      else do
        createDirectories (FileTree.ancestors file.place.dropLast)
        attempt (perform (.moveFile file.place file.content))
        placeStaged published rest
          { placed with
            added := placed.added ++ [file]
            directories := placed.directories.insert file.place.dropLast }

/-- Flush each directory that received a file. -/
def syncDirectories : List (List String) → Action Unit
  | [] => check (.ok ())
  | path :: rest => do
      attempt (perform (.syncDirectory path))
      syncDirectories rest

/-- The manifest that lists the old entries and the added files. -/
def extendedManifest
    (sha256 : Bytes → String)
    (repoType : RepositoryType)
    (request : RevisionExtensionRequest)
    (manifest : Manifest)
    (added : List Staged) :
    Manifest where
  complete := true
  repoType := repoType
  repoId := if manifest.repoId = "" then request.repoId else manifest.repoId
  requestedRevision :=
    if manifest.requestedRevision = "" then request.commit
    else manifest.requestedRevision
  files := manifest.files ++ added.map fun file =>
    ⟨file.path, file.content.length, sha256 file.content⟩

theorem paths_extendedManifest
    (sha256 : Bytes → String)
    (repoType : RepositoryType)
    (request : RevisionExtensionRequest)
    (manifest : Manifest)
    (moved : List Staged) :
    (extendedManifest sha256 repoType request manifest moved).paths =
      manifest.paths ++ moved.map Staged.path := by
  simp [Manifest.paths, extendedManifest]

/-- Write the replacement beside the revision and rename it into place. -/
def swapManifest (replacement : Manifest) : Action Unit := do
  attempt (perform .createPart)
  attempt (perform (.writePart replacement))
  attempt (perform .syncPart)
  attempt (perform .renamePart)
  attempt (perform (.syncDirectory []))
  attempt (perform .syncRevisions)

/-- `replace_revision_manifest`; a failure removes what was written. -/
def replaceRevisionManifest (replacement : Manifest) : Action Unit :=
  attempt do
    match ← (swapManifest replacement).run with
    | .ok () => return .ok ()
    | .error error => do
        perform .removePart
        return .error error

/-- What happens between the lock and its release. -/
def extendUnderLock
    (sha256 : Bytes → String)
    (repoType : RepositoryType)
    (request : RevisionExtensionRequest)
    (staged : List Staged)
    (skipped : List String) :
    Action RevisionExtension := do
  let manifest ← readExtendableManifest request
  let placed ← placeStaged manifest.paths staged ⟨[], skipped, []⟩
  if placed.added = [] then
    check (.ok ⟨request.commit, [], sortPaths placed.skipped⟩)
  else do
    syncDirectories placed.directories
    attempt (perform (.syncDirectory []))
    replaceRevisionManifest
      (extendedManifest sha256 repoType request manifest placed.added)
    check (.ok ⟨request.commit,
      sortPaths (placed.added.map Staged.path), sortPaths placed.skipped⟩)

/-- `extend_revision_from_directory_for_type`. -/
def extendRevision
    (sha256 : Bytes → String)
    (repoType : RepositoryType)
    (request : RevisionExtensionRequest) :
    Action RevisionExtension := do
  let _ ← check (validateRepoId request.repoId)
  check (validateRevision request.commit)
  let isDir ← always (perform .revisionIsDir)
  if isDir = false then
    check (.error (.io .notFound))
  else do
    let manifest ← readExtendableManifest request
    let sorted ← check (classify manifest.paths request.files ⟨[], [], []⟩)
    if sorted.candidates = [] then
      check (.ok ⟨request.commit, [], sortPaths sorted.skipped⟩)
    else do
      attempt (perform .canonicalizeSourceRoot)
      attempt (perform .createStaging)
      let staged ← stageExtensionFiles sorted.candidates .empty []
      attempt (perform .lock)
      attempt do
        let outcome ←
          (extendUnderLock sha256 repoType request staged sorted.skipped).run
        perform .unlock
        return outcome

/-! ## What the steps do -/

variable {ι : Type}

/-- The replacement manifest a call writes. -/
inductive PartFile
  | absent
  | partWritten
  | whole (manifest : Manifest)

/-- What the calls share.  The paths a call has renamed into the revision are
recorded for the statements only. -/
structure Shared (ι : Type) where
  revision : RevisionDir
  lock : Option ι
  part : ι → PartFile
  placed : ι → List String

section steps

variable [DecidableEq ι]

/-- The state after a directory or a file of the revision has changed. -/
def Shared.setTree (shared : Shared ι) (tree : FileTree Bytes) : Shared ι :=
  { shared with revision := { shared.revision with tree := tree } }

/-- The call keeps this in its replacement manifest. -/
def Shared.setPart (shared : Shared ι) (actor : ι) (part : PartFile) :
    Shared ι :=
  { shared with part := Function.update shared.part actor part }

/-- A file has been renamed into the revision. -/
def Shared.place (shared : Shared ι) (actor : ι) (path : List String)
    (tree : FileTree Bytes) : Shared ι :=
  { shared.setTree tree with
    placed := Function.update shared.placed actor
      (joinPath path :: shared.placed actor) }

/-- The written replacement is live. -/
def Shared.swap (shared : Shared ι) (actor : ι) : Shared ι :=
  match shared.part actor with
  | .whole manifest =>
      { shared.setPart actor .absent with
        revision := { shared.revision with manifest := .decoded manifest } }
  | _ =>
      { shared.setPart actor .absent with
        revision :=
          { shared.revision with manifest := .unreadable "unexpected end" } }

/-- The lock of this call, if it has it, is free again. -/
def Shared.unlock (shared : Shared ι) (actor : ι) : Shared ι :=
  { shared with
    lock := if shared.lock = some actor then none else shared.lock }

/-- What a step that can fail with an I/O error does. -/
def Fallible {α : Type} (effect : Shared ι → Shared ι → Prop)
    (value : α) (before : Shared ι) (reply : Except ArchiveError α)
    (after : Shared ι) : Prop :=
  (reply = .ok value ∧ effect before after) ∨
    (∃ kind, reply = .error (.io kind) ∧ after = before)

/-- The steps of one call.  The published revision is never removed, so its
directory is always there. -/
def exec (repoType : RepositoryType) (actor : ι) :
    Semantics interface (Shared ι)
  | .revisionIsDir, before, reply, after => reply = true ∧ after = before
  | .readManifest, before, reply, after =>
      after = before ∧
        (reply = before.revision.readManifestFor repoType ∨
          ∃ kind, reply = .error (.io kind))
  | .canonicalizeSourceRoot, before, _, after => after = before
  | .createStaging, before, _, after => after = before
  | .copySource _, before, _, after => after = before
  | .lock, before, reply, after =>
      Fallible (fun before after => before.lock = none ∧
        after = { before with lock := some actor }) () before reply after
  | .createDirectory path, before, reply, after =>
      Fallible (fun before after => ∃ tree,
        before.revision.tree.makeDirectory path = some tree ∧
          after = before.setTree tree) () before reply after
  | .moveFile path content, before, reply, after =>
      Fallible (fun before after => ∃ tree,
        before.revision.tree.placeFile path content = some tree ∧
          after = before.place actor path tree) () before reply after
  | .syncDirectory _, before, _, after => after = before
  | .createPart, before, reply, after =>
      Fallible (fun before after =>
        after = before.setPart actor .partWritten) () before reply after
  | .writePart manifest, before, reply, after =>
      Fallible (fun before after =>
        after = before.setPart actor (.whole manifest)) () before reply after
  | .syncPart, before, _, after => after = before
  | .renamePart, before, reply, after =>
      Fallible (fun before after => after = before.swap actor) () before
        reply after
  | .syncRevisions, before, _, after => after = before
  | .removePart, before, _, after =>
      after = before.setPart actor .absent ∨ after = before
  | .unlock, before, _, after => after = before.unlock actor

/-- All calls on one revision.  A call that is cut off loses its lock. -/
def machine (repoType : RepositoryType) : Machine interface ι (Shared ι) where
  exec := exec repoType
  release := fun actor before after => after = before.unlock actor
  ambient := fun _ _ => False

end steps

/-! ## A call on its own -/

section alone

variable [DecidableEq ι]

/-- The steps of a call that meets no fault and no other call.  The sources
are given by the archive path they are copied to. -/
def soloStep
    (repoType : RepositoryType)
    (sources : String → Except ArchiveError Bytes)
    (actor : ι) :
    (op : Op) → Shared ι → op.Reply × Shared ι
  | .revisionIsDir, shared => (true, shared)
  | .readManifest, shared =>
      (shared.revision.readManifestFor repoType, shared)
  | .canonicalizeSourceRoot, shared => (.ok (), shared)
  | .createStaging, shared => (.ok (), shared)
  | .copySource path, shared => (sources path, shared)
  | .lock, shared =>
      if shared.lock = none then
        (.ok (), { shared with lock := some actor })
      else
        (.error (.io .other), shared)
  | .createDirectory path, shared =>
      match shared.revision.tree.makeDirectory path with
      | some tree => (.ok (), shared.setTree tree)
      | none => (.error (.io .notADirectory), shared)
  | .moveFile path content, shared =>
      match shared.revision.tree.placeFile path content with
      | some tree => (.ok (), shared.place actor path tree)
      | none => (.error (.io .isADirectory), shared)
  | .syncDirectory _, shared => (.ok (), shared)
  | .createPart, shared => (.ok (), shared.setPart actor .partWritten)
  | .writePart manifest, shared =>
      (.ok (), shared.setPart actor (.whole manifest))
  | .syncPart, shared => (.ok (), shared)
  | .renamePart, shared => (.ok (), shared.swap actor)
  | .syncRevisions, shared => (.ok (), shared)
  | .removePart, shared => ((), shared.setPart actor .absent)
  | .unlock, shared => ((), shared.unlock actor)

/-- A call on its own is one of the ways it can run among others. -/
theorem exec_soloStep
    (repoType : RepositoryType)
    (sources : String → Except ArchiveError Bytes)
    (actor : ι)
    (op : Op)
    (shared : Shared ι) :
    exec repoType actor op shared
      (soloStep repoType sources actor op shared).1
      (soloStep repoType sources actor op shared).2 := by
  cases op with
  | revisionIsDir => exact ⟨rfl, rfl⟩
  | readManifest => exact ⟨rfl, Or.inl rfl⟩
  | lock =>
      unfold soloStep
      dsimp only
      split
      · next free => exact Or.inl ⟨rfl, free, rfl⟩
      · exact Or.inr ⟨_, rfl, rfl⟩
  | createDirectory path =>
      unfold soloStep
      dsimp only
      split
      · next tree made => exact Or.inl ⟨rfl, tree, made, rfl⟩
      · exact Or.inr ⟨_, rfl, rfl⟩
  | moveFile path content =>
      unfold soloStep
      dsimp only
      split
      · next tree placed => exact Or.inl ⟨rfl, tree, placed, rfl⟩
      · exact Or.inr ⟨_, rfl, rfl⟩
  | createPart => exact Or.inl ⟨rfl, rfl⟩
  | writePart manifest => exact Or.inl ⟨rfl, rfl⟩
  | renamePart => exact Or.inl ⟨rfl, rfl⟩
  | removePart => exact Or.inl rfl
  | unlock => rfl
  | canonicalizeSourceRoot => rfl
  | createStaging => rfl
  | copySource path => rfl
  | syncDirectory path => rfl
  | syncPart => rfl
  | syncRevisions => rfl

/-- No call is in progress on the revision. -/
def Shared.still (revision : RevisionDir) : Shared ι :=
  ⟨revision, none, fun _ => .absent, fun _ => []⟩

/-- What one call on its own returns, and what it leaves. -/
def extendAlone
    (sha256 : Bytes → String)
    (repoType : RepositoryType)
    (request : RevisionExtensionRequest)
    (sources : String → Except ArchiveError Bytes)
    (revision : RevisionDir) :
    Except ArchiveError RevisionExtension × RevisionDir :=
  let ended := (extendRevision sha256 repoType request).run.run
    (soloStep repoType sources ()) (.still revision)
  (ended.1, ended.2.revision)

end alone

end Extension
end ModelKeep
