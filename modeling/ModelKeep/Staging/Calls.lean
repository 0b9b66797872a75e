import ModelKeep.Concurrency.RelyGuarantee
import ModelKeep.Staging.Area

/-!
# Acquiring, preserving and recovering fetch staging

The calls on the temporary area, file-system step by file-system step.  A step
names a directory by its path, as the code does, so a rename by somebody else
makes the next step on the old name fail.  What the steps do to an area on
which no other call is running is `Effect`; the module `Exclusive` lets the
calls interleave.
-/

namespace ModelKeep

open Concurrency Program

/-- Why fetch staging could not be acquired. -/
inductive FetchStagingError
  | inFlight (staging : EntryName)
  | archive (error : ArchiveError)
  deriving DecidableEq

structure FetchStaging where
  path : EntryName
  resumed : Bool
  resolvedCommit : Option String
  deriving DecidableEq

/-- The identity an acquisition asks staging for. -/
structure StagingRequest where
  repoType : RepositoryType
  repoId : String
  requestedRevision : String
  files : List String
  deriving DecidableEq

/-- What recovery was doing when an entry failed. -/
inductive RecoveryAction
  | examine
  | preserveForResume
  | discard
  deriving DecidableEq

structure SkippedStagingEntry where
  action : RecoveryAction
  error : ArchiveError
  deriving DecidableEq

namespace Staging

/-- `STAGING_LEASE_SECONDS`. -/
def stagingLeaseSeconds : Nat := 120

/-- A directory entry as `read_dir` hands it out, with its file type. -/
abbrev DirEntry : Type := Except ArchiveError (EntryName × Bool)

/-- The steps of the calls. -/
inductive Op
  | readDir
  | readIdentity (name : EntryName)
  | readLease (name : EntryName)
  /-- Read a lease and, before anything else can happen, the time. -/
  | readLeaseAndTime (name : EntryName)
  | unixTimestamp
  /-- The expiry of a lease that starts now. -/
  | leaseExpiry
  | operationId
  | createDir (name : EntryName)
  /-- Create a temporary file in a staging directory. -/
  | createPart (name : EntryName)
  /-- Write and flush what this call alone has open. -/
  | flush
  /-- Rename the temporary file to the lease file. -/
  | renameLease (name : EntryName) (expiresAt : Nat)
  /-- Rename the temporary file to the identity file. -/
  | renameIdentity (name : EntryName) (metadata : FetchStagingMetadata)
  | rename (old new : EntryName)
  /-- `remove_dir_all` opens a directory once and empties it by its inode. -/
  | openDir (name : EntryName)
  | listParts (inode : Nat)
  | unlink (inode : Nat) (part : StagingDir.Part)
  | rmdir (name : EntryName)
  | syncDirectory
  /-- The fetch helper works in the directory. -/
  | transfer (name : EntryName) (payload : FileTree Bytes)
  /-- An acquisition has its staging and runs. -/
  | hold (staging : FetchStaging)
  /-- An acquisition stops using its staging. -/
  | handBack
  /-- A call is over. -/
  | leave

/-- What each step answers. -/
abbrev Op.Reply : Op → Type
  | .readDir => Except ArchiveError (List DirEntry)
  | .readIdentity _ => Except ArchiveError FetchStagingMetadata
  | .readLease _ => Except ArchiveError Nat
  | .readLeaseAndTime _ => Except ArchiveError (Nat × Nat)
  | .unixTimestamp => Nat
  | .leaseExpiry => Nat
  | .operationId => String
  | .openDir _ => Except ArchiveError Nat
  | .listParts _ => Except ArchiveError (List StagingDir.Part)
  | .hold _ => Unit
  | .handBack => Unit
  | .leave => Unit
  | _ => Except ArchiveError Unit

abbrev interface : Interface := ⟨Op, Op.Reply⟩

/-- A part of a call; it may stop with an error. -/
abbrev Action (ε α : Type) : Type := ExceptT ε (Program interface) α

/-- One step. -/
def perform (op : Op) : Program interface op.Reply := .call op .done

/-- The error conversion of the `?` operator. -/
def archived {α : Type} (action : Action ArchiveError α) :
    Action FetchStagingError α :=
  attempt (action.run >>= fun outcome =>
    .done (outcome.mapError .archive))

/-! ## Leases and identities -/

/-- `write_staging_lease_with_expiry`. -/
def writeStagingLeaseWithExpiry (staging : EntryName) (expiresAt : Nat) :
    Action ArchiveError Unit := do
  attempt (perform (.createPart staging))
  attempt (perform .flush)
  attempt (perform (.renameLease staging expiresAt))

/-- `write_staging_lease`. -/
def writeStagingLease (staging : EntryName) : Action ArchiveError Unit := do
  let expiresAt ← always (perform .leaseExpiry)
  writeStagingLeaseWithExpiry staging expiresAt

/-- The checks of `read_fetch_staging_metadata`. -/
def checkMetadata (metadata : FetchStagingMetadata) :
    Except ArchiveError FetchStagingMetadata :=
  if metadata.version ≠ 1 ∨
      metadata.resolvedCommit.any (fun commit => !isHfCommit commit) then
    .error (.integrityMismatch "invalid fetch staging metadata")
  else do
    let _ ← validateRepoId metadata.repoId
    validateComponent metadata.requestedRevision
    metadata.files.forM validateRelativeFilePath
    return metadata

/-- `read_fetch_staging_metadata`. -/
def readFetchStagingMetadata (staging : EntryName) :
    Action ArchiveError FetchStagingMetadata := do
  let metadata ← attempt (perform (.readIdentity staging))
  check (checkMetadata metadata)

/-- `write_fetch_staging_metadata`. -/
def writeFetchStagingMetadata
    (staging : EntryName)
    (metadata : FetchStagingMetadata) :
    Action ArchiveError Unit := do
  attempt (perform (.createPart staging))
  attempt (perform .flush)
  attempt (perform (.renameIdentity staging metadata))
  attempt (perform .syncDirectory)

/-- `record_fetch_resolved_commit_for_type`. -/
def recordFetchResolvedCommit
    (staging : EntryName)
    (request : StagingRequest)
    (commit : String) :
    Action ArchiveError Unit := do
  check (validateRevision commit)
  let metadata ← readFetchStagingMetadata staging
  if metadata.repoType ≠ request.repoType ∨
      metadata.repoId ≠ request.repoId ∨
      metadata.requestedRevision ≠ request.requestedRevision ∨
      metadata.files ≠ request.files then
    check (.error (.integrityMismatch "fetch staging identity changed"))
  else if metadata.resolvedCommit.any (fun resolved => resolved ≠ commit) then
    check (.error (.integrityMismatch "resolved fetch commit changed"))
  else
    writeFetchStagingMetadata staging
      { metadata with resolvedCommit := some commit }

/-! ## Acquiring -/

/-- `staging_selection_is_adoptable`. -/
def stagingSelectionIsAdoptable (recorded requested : List String) : Bool :=
  recorded = [] || recorded = requested

/-- The identity names the repository and the revision of the request. -/
def namesSameRevision (metadata : FetchStagingMetadata)
    (request : StagingRequest) : Bool :=
  metadata.repoType = request.repoType && metadata.repoId = request.repoId &&
    metadata.requestedRevision = request.requestedRevision

/-- `create_staging`; `attempts` are left. -/
def createStaging (named : String → EntryName) :
    Nat → Action ArchiveError EntryName
  | 0 => check (.error (.io .alreadyExists))
  | attempts + 1 => do
      let operation ← always (perform .operationId)
      match ← always (perform (.createDir (named operation))) with
      | .ok () => do
          writeStagingLease (named operation)
          attempt (perform .syncDirectory)
          check (.ok (named operation))
      | .error error =>
          if error.ioKind = some .alreadyExists then
            createStaging named attempts
          else
            check (.error error)

/-- Unrestricted staging that a narrower request adopts is recorded under that
request from here on. -/
def relabel
    (claimed : EntryName)
    (metadata : FetchStagingMetadata)
    (files : List String) :
    Action ArchiveError Unit :=
  if metadata.files ≠ files then
    writeFetchStagingMetadata claimed { metadata with files := files }
  else
    check (.ok ())

/-- What a claim does once the directory has its new name. -/
def finishClaim
    (claimed : EntryName)
    (metadata : FetchStagingMetadata)
    (files : List String) :
    Action ArchiveError (Option FetchStaging) := do
  writeStagingLease claimed
  relabel claimed metadata files
  attempt (perform .syncDirectory)
  check (.ok (some ⟨claimed, true, metadata.resolvedCommit⟩))

/-- `claim_fetch_staging`. -/
def claimFetchStaging
    (old : EntryName)
    (metadata : FetchStagingMetadata)
    (files : List String) :
    Action ArchiveError (Option FetchStaging) := do
  let operation ← always (perform .operationId)
  match ← always (writeStagingLease old).run with
  | .error error =>
      if error.ioKind = some .notFound then check (.ok none)
      else check (.error error)
  | .ok () =>
      match ← always (perform (.rename old (.active operation))) with
      | .error error =>
          if error.ioKind = some .notFound then check (.ok none)
          else check (.error error)
      | .ok () => finishClaim (.active operation) metadata files

/-- A loop that ends with the first entry that yields something. -/
def firstOf
    {ε β : Type}
    (visit : DirEntry → Action ε (Option β)) :
    List DirEntry → Action ε (Option β)
  | [] => check (.ok none)
  | entry :: rest => do
      match ← visit entry with
      | some found => check (.ok (some found))
      | none => firstOf visit rest

/-- The lease of a candidate, read and weighed; `claim` follows when it has
expired and `alive` when it has not. -/
def weighLease
    (name : EntryName)
    (now : Nat)
    (alive expired : Action FetchStagingError (Option FetchStaging)) :
    Action FetchStagingError (Option FetchStaging) := do
  match ← always (perform (.readLease name)) with
  | .error error =>
      if error.ioKind = some .notFound then check (.ok none)
      else check (.error (.archive error))
  | .ok expiresAt => if now < expiresAt then alive else expired

/-- The loop body over abandoned directories. -/
def visitAbandoned (request : StagingRequest) (now : Nat) (entry : DirEntry) :
    Action FetchStagingError (Option FetchStaging) := do
  match ← check (entry.mapError .archive) with
  | (.abandoned id, true) => do
      match ← always (readFetchStagingMetadata (.abandoned id)).run with
      | .error _ => check (.ok none)
      | .ok metadata =>
          if namesSameRevision metadata request &&
              stagingSelectionIsAdoptable metadata.files request.files &&
              metadata.resolvedCommit.isSome then
            weighLease (.abandoned id) now
              (check (.error (.inFlight (.abandoned id))))
              (archived
                (claimFetchStaging (.abandoned id) metadata request.files))
          else
            check (.ok none)
  | _ => check (.ok none)

/-- The loop body over active directories.  A live one refuses the identity it
records; an expired one is claimed like an abandoned one. -/
def visitActive (request : StagingRequest) (now : Nat) (entry : DirEntry) :
    Action FetchStagingError (Option FetchStaging) := do
  match ← check (entry.mapError .archive) with
  | (.active id, true) => do
      match ← always (readFetchStagingMetadata (.active id)).run with
      | .error _ => check (.ok none)
      | .ok metadata =>
          if namesSameRevision metadata request then
            weighLease (.active id) now
              (if metadata.files = request.files then
                check (.error (.inFlight (.active id)))
              else
                check (.ok none))
              (if stagingSelectionIsAdoptable metadata.files request.files &&
                  metadata.resolvedCommit.isSome then
                archived
                  (claimFetchStaging (.active id) metadata request.files)
              else
                check (.ok none))
          else
            check (.ok none)
  | _ => check (.ok none)

/-- The checks that come before anything is read. -/
def validateRequest (request : StagingRequest) : Except ArchiveError Unit := do
  let _ ← validateRepoId request.repoId
  validateComponent request.requestedRevision
  request.files.forM validateRelativeFilePath

/-- Fresh staging, when nothing was found to resume. -/
def createFetchStaging (request : StagingRequest) :
    Action ArchiveError FetchStaging := do
  let path ← createStaging .active 16
  writeFetchStagingMetadata path
    ⟨1, request.repoType, request.repoId, request.requestedRevision,
      request.files, none⟩
  check (.ok ⟨path, false, none⟩)

/-- `acquire_fetch_staging_for_type`. -/
def acquireFetchStaging (request : StagingRequest) :
    Action FetchStagingError FetchStaging := do
  archived (check (validateRequest request))
  let now ← always (perform .unixTimestamp)
  let listed ← archived (attempt (perform .readDir))
  match ← firstOf (visitAbandoned request now) listed with
  | some claimed => check (.ok claimed)
  | none => do
      let listed ← archived (attempt (perform .readDir))
      match ← firstOf (visitActive request now) listed with
      | some claimed => check (.ok claimed)
      | none => archived (createFetchStaging request)

/-! ## Preserving and recovering -/

/-- Empty an open directory piece by piece. -/
def unlinkParts (inode : Nat) : List StagingDir.Part → Action ArchiveError Unit
  | [] => check (.ok ())
  | part :: rest => do
      attempt (perform (.unlink inode part))
      unlinkParts inode rest

/-- `remove_dir_all`. -/
def removeDirAll (name : EntryName) : Action ArchiveError Unit := do
  let inode ← attempt (perform (.openDir name))
  let parts ← attempt (perform (.listParts inode))
  unlinkParts inode parts
  attempt (perform (.rmdir name))

/-- `preserve_fetch_staging`. -/
def preserveFetchStaging (staging : EntryName) :
    Action ArchiveError Bool := do
  let metadata ← readFetchStagingMetadata staging
  if metadata.resolvedCommit = none then do
    removeDirAll staging
    check (.ok false)
  else do
    let operation ← always (perform .operationId)
    attempt (perform (.rename staging (.abandoned operation)))
    writeStagingLeaseWithExpiry (.abandoned operation) 0
    attempt (perform .syncDirectory)
    check (.ok true)

/-- A step that names what recovery was doing when it failed. -/
def during {α : Type} (action : RecoveryAction)
    (step : Action ArchiveError α) : Action SkippedStagingEntry α :=
  attempt (step.run >>= fun outcome =>
    .done (outcome.mapError fun error => ⟨action, error⟩))

/-- Whether a name is one of the two the acquisitions use. -/
def isFetchName : EntryName → Bool
  | .other _ => false
  | _ => true

/-- What becomes of expired staging: what can be resumed is kept under an
abandoned name, everything else is removed. -/
def reclaimEntry (name : EntryName) (identity : Option FetchStagingMetadata) :
    Action SkippedStagingEntry Bool :=
  let resumable := identity.any fun metadata => metadata.resolvedCommit.isSome
  match name, resumable with
  | .abandoned _, true => check (.ok false)
  | .active id, true => do
      let operation ← always (perform .operationId)
      during .preserveForResume
        (attempt (perform (.rename (.active id) (.abandoned operation))))
      during .preserveForResume (attempt (perform .syncDirectory))
      check (.ok false)
  | name, _ => do
      during .discard (removeDirAll name)
      check (.ok true)

/-- `recover_staging_entry`. -/
def recoverStagingEntry (name : EntryName) (isDirectory : Bool) :
    Action SkippedStagingEntry Bool :=
  if isDirectory = false then
    check (.ok false)
  else do
    match ← always (perform (.readLeaseAndTime name)) with
    | .error _ => check (.ok false)
    | .ok (expiresAt, now) =>
        if now < expiresAt then
          check (.ok false)
        else if isFetchName name then do
          let identity ← always (readFetchStagingMetadata name).run
          reclaimEntry name identity.toOption
        else
          reclaimEntry name none

/-- What recovery reports: how many entries it discarded and which ones it
could not reclaim. -/
structure Recovery where
  recovered : Nat
  skipped : List (EntryName × SkippedStagingEntry)

/-- The loop over the entries; a failure belongs to its entry alone. -/
def recoverEntries :
    List DirEntry → Recovery → Program interface Recovery
  | [], recovery => .done recovery
  | .error _ :: rest, recovery => recoverEntries rest recovery
  | .ok (name, isDirectory) :: rest, recovery => do
      match ← (recoverStagingEntry name isDirectory).run with
      | .ok true =>
          recoverEntries rest
            { recovery with recovered := recovery.recovered + 1 }
      | .ok false => recoverEntries rest recovery
      | .error skipped =>
          recoverEntries rest
            { recovery with
              skipped := recovery.skipped ++ [(name, skipped)] }

/-- `recover_incomplete`. -/
def recoverIncomplete : Action ArchiveError Recovery := do
  let listed ← attempt (perform .readDir)
  always (recoverEntries listed ⟨0, []⟩)

/-! ## What the steps do -/

/-- The area and the time. -/
structure World where
  area : TemporaryArea
  clock : Nat

/-- Find the directory with an inode. -/
def nameOf (area : TemporaryArea) (inode : Nat) : Option EntryName :=
  area.names.find? fun name =>
    (area.entry name).any fun found => found.inode = inode

/-- A step on a directory that has to be there. -/
def World.within
    {α : Type}
    (world : World)
    (name : EntryName)
    (step : AreaEntry → Except ArchiveError α × TemporaryArea) :
    Except ArchiveError α × World :=
  match world.area.entry name with
  | none => (.error (.io .notFound), world)
  | some found =>
      ((step found).1, { world with area := (step found).2 })

/-- The steps whose answer is settled by the world. -/
def respond : (op : Op) → World → op.Reply × World
  | .readDir, world =>
      (.ok (world.area.names.dedup.map fun name => .ok (name, true)), world)
  | .readIdentity name, world =>
      world.within name fun found => (found.dir.readIdentity, world.area)
  | .readLease name, world =>
      world.within name fun found =>
        (found.dir.lease.expiry, world.area)
  | .readLeaseAndTime name, world =>
      world.within name fun found =>
        (found.dir.lease.expiry.map fun expiresAt =>
          (expiresAt, world.clock), world.area)
  | .unixTimestamp, world => (world.clock, world)
  | .leaseExpiry, world => (world.clock + stagingLeaseSeconds, world)
  | .operationId, world =>
      let id := String.ofList (List.replicate
        ((world.area.spent.map String.length).foldr max 0 + 1) 'f')
      (id, { world with area := world.area.draw id })
  | .createDir name, world =>
      match world.area.create name with
      | none => (.error (.io .alreadyExists), world)
      | some area => (.ok (), { world with area := area })
  | .createPart name, world =>
      world.within name fun _ => (.ok (), world.area)
  | .flush, world => (.ok (), world)
  | .renameLease name expiresAt, world =>
      world.within name fun _ => (.ok (), world.area.update name fun dir =>
        { dir with lease := .expires expiresAt })
  | .renameIdentity name metadata, world =>
      world.within name fun _ => (.ok (), world.area.update name fun dir =>
        { dir with identity := .decoded metadata })
  | .rename old new, world =>
      world.within old fun _ =>
        match world.area.move old new with
        | none => (.error (.io .other), world.area)
        | some area => (.ok (), area)
  | .openDir name, world =>
      world.within name fun found => (.ok found.inode, world.area)
  | .listParts _, world =>
      (.ok [.lease, .identity, .upstreamFiles, .payload], world)
  | .unlink inode part, world =>
      match nameOf world.area inode with
      | none => (.error (.io .notFound), world)
      | some name =>
          (.ok (), { world with
            area := world.area.update name fun dir =>
              dir.without part })
  | .rmdir name, world =>
      world.within name fun found =>
        if found.dir.isBare then
          (.ok (), world.area.remove name)
        else
          (.error (.io .other), world.area)
  | .syncDirectory, world => (.ok (), world)
  | .transfer name payload, world =>
      world.within name fun _ => (.ok (), world.area.update name fun dir =>
        { dir with payload := payload })
  | .hold _, world => ((), world)
  | .handBack, world => ((), world)
  | .leave, world => ((), world)

/-- A complete listing of the area, in some order. -/
def Listing (area : TemporaryArea) (listed : List DirEntry) : Prop :=
  ∃ entries : List (EntryName × Bool),
    listed = entries.map .ok ∧ (entries.map Prod.fst).Nodup ∧
      ∀ name, (name, true) ∈ entries ↔ (area.entry name).isSome

/-- The steps of a call that runs without others and without faults.  The
order of a listing and the operation ids are not settled. -/
def Effect : Semantics interface World
  | .readDir, before, reply, after =>
      after = before ∧ ∃ listed, reply = .ok listed ∧
        Listing before.area listed
  | .operationId, before, id, after =>
      id ∉ before.area.spent ∧
        after = { before with area := before.area.draw id }
  | .listParts _, before, reply, after =>
      after = before ∧ ∃ parts, reply = .ok parts ∧ ∀ part, part ∈ parts
  | op, before, reply, after => respond op before = (reply, after)

/-- The fresh id of `respond` is fresh. -/
theorem longer_not_mem (spent : List String) :
    String.ofList (List.replicate
      ((spent.map String.length).foldr max 0 + 1) 'f') ∉ spent := by
  intro member
  have bounded : ∀ (texts : List String), ∀ text ∈ texts,
      text.length ≤ (texts.map String.length).foldr max 0 := by
    intro texts
    induction texts with
    | nil => simp
    | cons first rest inductionHypothesis =>
        intro text member
        rw [List.map_cons, List.foldr_cons]
        rcases List.mem_cons.mp member with rfl | later
        · exact Nat.le_max_left _ _
        · exact Nat.le_trans (inductionHypothesis text later)
            (Nat.le_max_right _ _)
  have short := bounded spent _ member
  rw [String.length_ofList, List.length_replicate] at short
  omega

/-- The settled answers are one of the ways a step can go. -/
theorem effect_respond (op : Op) (world : World) :
    Effect op world (respond op world).1 (respond op world).2 := by
  cases op with
  | readDir =>
      refine ⟨rfl, _, rfl, world.area.names.dedup.map fun name => (name, true),
        by simp, ?_, ?_⟩
      · rw [List.map_map]
        simpa [Function.comp_def] using world.area.names.nodup_dedup
      · simp [world.area.mem_names]
  | operationId => exact ⟨longer_not_mem _, rfl⟩
  | listParts inode =>
      refine ⟨rfl, _, rfl, ?_⟩
      intro part
      cases part <;> simp
  | _ => rfl

end Staging
end ModelKeep
