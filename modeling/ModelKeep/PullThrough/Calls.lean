import ModelKeep.Archive
import ModelKeep.Cancellation
import ModelKeep.Selection
import ModelKeep.Upstream

/-!
# Acquisitions

Serve-driven, selection-driven and refreshing acquisitions, call by call.  A
call on the archive, on the staging area, on the fetcher or on the token is
one operation; what an acquisition logs and what it reports to its progress
sink is left out.
-/

namespace ModelKeep

open Concurrency Program

/-- What an acquisition did. -/
inductive AcquisitionOutcome
  | alreadyArchived
  | published
  | extended
  deriving DecidableEq

structure AcquisitionResult where
  commit : String
  outcome : AcquisitionOutcome
  deriving DecidableEq

structure RefreshResult where
  previous : Option String
  proposed : String
  published : Bool
  deriving DecidableEq

/-- What upstream and the archive together say about a selection. -/
inductive Reconciliation
  | notPublished
  | satisfied (result : AcquisitionResult)
  | missing (narrowed : FileSelection)

namespace PullThrough

/-- The calls of an acquisition, and the one of whoever cancels it. -/
inductive Op
  | resolveRef (repository : Repository) (reference : String)
  | isComplete (repository : Repository) (commit : String)
  | resolveFile (repository : Repository) (commit path : String)
  | upstreamFiles (repository : Repository) (commit : String)
  | manifestPaths (repository : Repository) (commit : String)
  | publish (repository : Repository) (request : Archive.SourcePublishRequest)
      (staging : EntryName)
  | extend (repository : Repository) (commit : String) (files : List String)
      (staging : EntryName)
  | recordUpstreamFiles (repository : Repository) (commit : String)
      (files : List String)
  | updateRef (repository : Repository) (reference commit : String)
  | rememberResolvedRef (repository : Repository) (reference commit : String)
  /-- The names that upstream was heard to give a commit. -/
  | rememberedRefs (repository : Repository) (commit : String)
  /-- Wait for a transfer slot; the answer says whether there was a wait. -/
  | enterTransferGate
  | isCancelled
  | commit
  | cancel
  | acquireStaging (request : StagingRequest)
  | stagedUpstreamFiles (staging : EntryName) (repoType : RepositoryType)
      (commit : String)
  | preserveStaging (staging : EntryName)
  | removeStaging (staging : EntryName)
  | inventory (request : InventoryRequest)
  | repositoryFiles (request : InventoryRequest)
  | fetch (request : FetchRequest)

/-- What each call answers. -/
abbrev Op.Reply : Op → Type
  | .resolveRef _ _ => Except ArchiveError String
  | .isComplete _ _ => Except ArchiveError Bool
  | .resolveFile _ _ _ => Except ArchiveError ResolvedFile
  | .upstreamFiles _ _ => Except ArchiveError (Option (List String))
  | .manifestPaths _ _ => Except ArchiveError (List String)
  | .publish _ _ _ => Except ArchiveError Unit
  | .extend _ _ _ _ => Except ArchiveError RevisionExtension
  | .recordUpstreamFiles _ _ _ => Except ArchiveError Bool
  | .updateRef _ _ _ => Except ArchiveError Unit
  | .rememberResolvedRef _ _ _ => Unit
  | .rememberedRefs _ _ => List String
  | .enterTransferGate => Except PullThroughError Bool
  | .isCancelled => Bool
  | .commit => Bool
  | .cancel => CancelOutcome
  | .acquireStaging _ => Except FetchStagingError FetchStaging
  | .stagedUpstreamFiles _ _ _ => List String
  | .preserveStaging _ => Except ArchiveError Bool
  | .removeStaging _ => Except ArchiveError Unit
  | .inventory _ => Except UpstreamError (Option RevisionInventory)
  | .repositoryFiles _ =>
      Except UpstreamError (Option UpstreamRepositoryFiles)
  | .fetch _ => Except UpstreamError FetchedRevision

abbrev interface : Interface := ⟨Op, Op.Reply⟩

/-- A part of an acquisition; it may stop with an error. -/
abbrev Action (α : Type) : Type :=
  ExceptT PullThroughError (Program interface) α

/-- One call. -/
def perform (op : Op) : Program interface op.Reply := .call op .done

/-- A call whose error the acquisition reports in its own terms. -/
def reporting {ε α : Type} (report : ε → PullThroughError)
    (program : Program interface (Except ε α)) : Action α :=
  attempt (program >>= fun outcome => .done (outcome.mapError report))

variable (repository : Repository) (requestedRevision : String)

/-! ## What the archive holds -/

/-- Whether every file resolves. -/
def allResolve (commit : String) : List String → Program interface Bool
  | [] => .done true
  | file :: rest => do
      match ← perform (.resolveFile repository commit file) with
      | .ok _ => allResolve commit rest
      | .error _ => .done false

/-- `revision_is_ready`. -/
def revisionIsReady (commit : String) (files : List String) :
    Program interface Bool := do
  match ← perform (.isComplete repository commit) with
  | .ok true => allResolve repository commit files
  | _ => .done false

/-- `revision_is_published`. -/
def revisionIsPublished (commit : String) : Program interface Bool := do
  match ← perform (.isComplete repository commit) with
  | .ok complete => .done complete
  | .error _ => .done false

/-- The commit the requested ref names, when it is ready. -/
def readyRef (files : List String) : Program interface (Option String) := do
  match ← perform (.resolveRef repository requestedRevision) with
  | .ok commit => do
      match ← revisionIsReady repository commit files with
      | true => .done (some commit)
      | false => .done none
  | .error _ => .done none

/-- The requested revision as a commit, when it is published. -/
def publishedDirectly : Program interface (Option String) := do
  match ← revisionIsPublished repository requestedRevision with
  | true => .done (some requestedRevision)
  | false => .done none

/-- `published_commit`. -/
def publishedCommit : Program interface (Option String) := do
  match ← perform (.resolveRef repository requestedRevision) with
  | .ok commit => do
      match ← revisionIsPublished repository commit with
      | true => .done (some commit)
      | false => publishedDirectly repository requestedRevision
  | .error _ => publishedDirectly repository requestedRevision

/-- `archived_paths`. -/
def archivedPaths (commit : String) : Action (List String) :=
  reporting .ofArchive (perform (.manifestPaths repository commit))

/-! ## Reconciling a selection -/

/-- What is left of the covered paths once the archived ones are gone. -/
def concludeFrom (commit : String) (covered archived : List String) :
    Except PullThroughError Reconciliation :=
  let missing := covered.filter fun path => path ∉ archived
  if missing = [] then
    .ok (.satisfied ⟨commit, .alreadyArchived⟩)
  else
    match FileSelection.fromPaths missing with
    | none => .error .unsafePath
    | some narrowed => .ok (.missing narrowed)

/-- What a recorded upstream file list says the selection covers. -/
def coveredByRecord (selection : FileSelection) (recorded : List String) :
    List String :=
  if selection.isUnrestricted then
    orderedPaths recorded
  else
    selection.included.filter fun path => path ∈ recorded

/-- Whether a recorded list can answer for upstream: the request names the
commit, and no pattern has to be matched. -/
def answersFromRecord (published : String) (selection : FileSelection) :
    Bool :=
  isHfCommit requestedRevision && requestedRevision = published &&
    selection.excluded = [] &&
    selection.requiredPaths.length = selection.included.length

/-- `reconcile_from_record`. -/
def reconcileFromRecord (published : String) (selection : FileSelection) :
    Action (Option Reconciliation) :=
  if answersFromRecord requestedRevision published selection then do
    match ← reporting .ofArchive
        (perform (.upstreamFiles repository published)) with
    | none => check (.ok none)
    | some recorded => do
        let archived ← archivedPaths repository published
        check ((concludeFrom published (coveredByRecord selection recorded)
          archived).map some)
  else
    check (.ok none)

/-- The second half of `reconcile_selection`: an upstream commit that is not
archived leaves nothing to reconcile against. -/
def reconcileInventory (inventory : Option RevisionInventory) :
    Action Reconciliation :=
  match inventory with
  | none => check (.ok .notPublished)
  | some inventory => do
      match ← always (revisionIsPublished repository inventory.commit) with
      | true => do
          let archived ← archivedPaths repository inventory.commit
          check (concludeFrom inventory.commit inventory.files archived)
      | false => check (.ok .notPublished)

/-- The request for the paths a selection covers. -/
def inventoryRequest (selection : FileSelection) : InventoryRequest :=
  ⟨repository.repoType, repository.repoId, requestedRevision,
    selection.included, selection.excluded⟩

/-- `reconcile_selection`. -/
def reconcileSelection (selection : FileSelection) :
    Action Reconciliation := do
  match ← always (publishedCommit repository requestedRevision) with
  | none => check (.ok .notPublished)
  | some published => do
      match ← always (perform .isCancelled) with
      | true => check (.error .cancelled)
      | false => do
          match ← reconcileFromRecord repository requestedRevision published
              selection with
          | some reconciliation => check (.ok reconciliation)
          | none => do
              let inventory ← reporting .ofUpstream (perform (.inventory
                (inventoryRequest repository requestedRevision selection)))
              reconcileInventory repository inventory

/-! ## Names that upstream was heard to use -/

/-- The loop of `adopt_resolved_refs`: only missing refs are made. -/
def adoptRefs (commit : String) : List String → Program interface Unit
  | [] => .done ()
  | reference :: rest => do
      match ← perform (.resolveRef repository reference) with
      | .ok _ => adoptRefs commit rest
      | .error _ => do
          let _ ← perform (.updateRef repository reference commit)
          adoptRefs commit rest

/-- `adopt_resolved_refs`. -/
def adoptResolvedRefs (commit : String) : Program interface Unit := do
  let references ← perform (.rememberedRefs repository commit)
  adoptRefs repository commit references

/-- `upstream_metadata_for_type`. -/
def upstreamMetadata : Action (Option UpstreamRepositoryFiles) := do
  match ← reporting .ofUpstream (perform (.repositoryFiles
      ⟨repository.repoType, repository.repoId, requestedRevision, [], []⟩))
      with
  | none => check (.ok none)
  | some reported =>
      if isHfCommit requestedRevision then
        check (.ok (some reported))
      else do
        always (perform (.rememberResolvedRef repository requestedRevision
          reported.commit))
        always (adoptResolvedRefs repository reported.commit)
        check (.ok (some reported))

/-! ## Fetching -/

/-- The failures `handle_fetch_failure` takes for interruptions. -/
def isInterruption : UpstreamError → Bool
  | .unavailable => true
  | .failed => true
  | .io _ => true
  | .storage => true
  | .cancelled => true
  | _ => false

/-- `let _ = fs::remove_dir_all(staging)`. -/
def dropStaging (staging : EntryName) : Program interface Unit := do
  let _ ← perform (.removeStaging staging)
  .done ()

/-- `handle_fetch_failure`. -/
def handleFetchFailure (staging : EntryName) (error : UpstreamError) :
    Program interface Unit :=
  if isInterruption error then do
    match ← perform (.preserveStaging staging) with
    | .ok true => .done ()
    | _ => dropStaging staging
  else
    dropStaging staging

/-- Fetch into staging; a failure decides what becomes of it. -/
def fetchInto (staging : EntryName) (request : FetchRequest) :
    Action FetchedRevision := do
  match ← always (perform (.fetch request)) with
  | .ok fetched => check (.ok fetched)
  | .error error => do
      always (handleFetchFailure staging error)
      check (.error (.ofUpstream error))

/-- The claim of the publication point; if a cancellation came first, staging
is preserved. -/
def claimPublication (staging : EntryName) : Action Unit := do
  match ← always (perform .commit) with
  | true => check (.ok ())
  | false => do
      let _ ← always (perform (.preserveStaging staging))
      check (.error .cancelled)

/-- `record_upstream_files`. -/
def recordUpstreamFiles (commit : String) (files : List String) :
    Program interface Unit :=
  if files = [] then
    .done ()
  else do
    let _ ← perform (.recordUpstreamFiles repository commit files)
    .done ()

/-- Let the ref name the commit. -/
def nameRef (reference commit : String) : Action Unit :=
  reporting .ofArchive (perform (.updateRef repository reference commit))

/-- Fetch staging under the identity of a selection. -/
def acquireStaging (selection : List String) : Action FetchStaging :=
  reporting fetchStagingFailure (perform (.acquireStaging
    ⟨repository.repoType, repository.repoId, requestedRevision, selection⟩))

/-! ## Pull-through -/

/-- `extend_published_revision`. -/
def extendPublishedRevision (fetched : FetchedRevision)
    (staging : EntryName) : Action AcquisitionOutcome := do
  let extension ← reporting .ofArchive
    (perform (.extend repository fetched.commit fetched.files staging))
  check (.ok (if extension.added = [] then .alreadyArchived else .extended))

/-- Publish what was fetched, or extend the revision that is there. -/
def storeFetched (fetched : FetchedRevision) (staging : EntryName) :
    Action AcquisitionOutcome := do
  match ← always (revisionIsPublished repository fetched.commit) with
  | true => extendPublishedRevision repository fetched staging
  | false => do
      match ← always (perform (.publish repository
          ⟨requestedRevision, fetched.commit, fetched.files⟩ staging)) with
      | .ok () => check (.ok .published)
      | .error (.alreadyPublished published) => do
          match ← always (revisionIsPublished repository fetched.commit) with
          | true => extendPublishedRevision repository fetched staging
          | false =>
              check (.error (.ofArchive (.alreadyPublished published)))
      | .error error => check (.error (.ofArchive error))

/-- A ref that was asked for names what was fetched; a commit needs none. -/
def nameRequested (commit : String) : Action Unit :=
  if isHfCommit requestedRevision then check (.ok ())
  else nameRef repository requestedRevision commit

/-- What follows a fetch that succeeded. -/
def storeAndName (fetched : FetchedRevision) (staging : EntryName) :
    Action AcquisitionResult := do
  let recorded ← always (perform (.stagedUpstreamFiles staging
    repository.repoType fetched.commit))
  claimPublication staging
  let stored ← always
    (storeFetched repository requestedRevision fetched staging).run
  always (dropStaging staging)
  let outcome ← check stored
  always (recordUpstreamFiles repository fetched.commit recorded)
  nameRequested repository requestedRevision fetched.commit
  always (adoptResolvedRefs repository fetched.commit)
  check (.ok ⟨fetched.commit, outcome⟩)

/-- The transfer of a selection. -/
def transferSelection (selection : FileSelection) :
    Action AcquisitionResult := do
  let staging ← acquireStaging repository requestedRevision selection.identity
  let fetched ← fetchInto staging.path
    ⟨repository.repoType, repository.repoId, requestedRevision,
      selection.included, selection.excluded, staging.path,
      staging.resolvedCommit⟩
  storeAndName repository requestedRevision fetched staging.path

/-- After a wait for a slot a selection-driven acquisition looks again. -/
def transferRemaining (reconcile waited : Bool) (selection : FileSelection) :
    Action AcquisitionResult :=
  if reconcile && waited then do
    match ← reconcileSelection repository requestedRevision selection with
    | .satisfied result => check (.ok result)
    | .missing remaining =>
        transferSelection repository requestedRevision remaining
    | .notPublished => transferSelection repository requestedRevision selection
  else
    transferSelection repository requestedRevision selection

/-- Wait for a slot, then transfer. -/
def fetchAndPublishWaiting (reconcile : Bool) (selection : FileSelection) :
    Action AcquisitionResult := do
  let waited ← attempt (perform .enterTransferGate)
  match ← always (perform .isCancelled) with
  | true => check (.error .cancelled)
  | false =>
      transferRemaining repository requestedRevision reconcile waited selection

/-- `fetch_and_publish_selection`. -/
def fetchAndPublishSelection (reconcile : Bool) (selection : FileSelection) :
    Action AcquisitionResult := do
  match ← always (readyRef repository requestedRevision
      selection.requiredPaths) with
  | some commit => check (.ok ⟨commit, .alreadyArchived⟩)
  | none =>
      fetchAndPublishWaiting repository requestedRevision reconcile selection

/-- `acquire_reconciled`. -/
def acquireReconciled (selection : FileSelection) :
    Action AcquisitionResult := do
  match ← reconcileSelection repository requestedRevision selection with
  | .satisfied result => check (.ok result)
  | .missing narrowed =>
      fetchAndPublishSelection repository requestedRevision true narrowed
  | .notPublished =>
      fetchAndPublishSelection repository requestedRevision true selection

/-- The body of a flight of `run_acquisition`, by who started it. -/
def acquisition (reconcile : Bool) (selection : FileSelection) :
    Action AcquisitionResult :=
  if reconcile then acquireReconciled repository requestedRevision selection
  else fetchAndPublishSelection repository requestedRevision false selection

/-- What a caller of `run_acquisition` learns: nothing, when its deadline
comes before the flight ends. -/
def runAcquisition (inTime : Bool) (selection : FileSelection) :
    Action (Option String) :=
  if inTime then do
    let result ← acquisition repository requestedRevision false selection
    check (.ok (some result.commit))
  else
    check (.ok none)

/-- `ensure_bounded_for_type`. -/
def ensureBounded (inTime : Bool) (files : List String) :
    Action (Option String) :=
  match FileSelection.fromPaths files with
  | none => check (.error .unsafePath)
  | some selection => do
      match ← always (readyRef repository requestedRevision
          selection.requiredPaths) with
      | some commit => check (.ok (some commit))
      | none => do
          match ← always (revisionIsReady repository requestedRevision
              selection.requiredPaths) with
          | true => check (.ok (some requestedRevision))
          | false =>
              runAcquisition repository requestedRevision inTime selection

/-! ## Refreshing -/

/-- The publication of a refresh; a commit that is ready is left as it is. -/
def publishUnready (fetched : FetchedRevision) (staging : EntryName) :
    Action Unit := do
  match ← always (revisionIsReady repository fetched.commit []) with
  | true => check (.ok ())
  | false => do
      match ← always (perform (.publish repository
          ⟨requestedRevision, fetched.commit, fetched.files⟩ staging)) with
      | .ok () => check (.ok ())
      | .error (.alreadyPublished published) => do
          match ← always (revisionIsReady repository fetched.commit []) with
          | true => check (.ok ())
          | false =>
              check (.error (.ofArchive (.alreadyPublished published)))
      | .error error => check (.error (.ofArchive error))

/-- What a refresh does once it may publish. -/
def finishRefresh (dryRun : Bool) (previous : Option String)
    (fetched : FetchedRevision) (staging : EntryName)
    (recorded : List String) : Action RefreshResult :=
  if dryRun then do
    always (dropStaging staging)
    check (.ok ⟨previous, fetched.commit, false⟩)
  else do
    publishUnready repository requestedRevision fetched staging
    always (recordUpstreamFiles repository fetched.commit recorded)
    always (dropStaging staging)
    nameRef repository requestedRevision fetched.commit
    check (.ok ⟨previous, fetched.commit, true⟩)

/-- The transfer of a refresh. -/
def refreshFetched (dryRun : Bool) (previous : Option String) :
    Action RefreshResult := do
  let staging ← acquireStaging repository requestedRevision []
  let fetched ← fetchInto staging.path
    ⟨repository.repoType, repository.repoId, requestedRevision, [], [],
      staging.path, staging.resolvedCommit⟩
  let recorded ← always (perform (.stagedUpstreamFiles staging.path
    repository.repoType fetched.commit))
  claimPublication staging.path
  finishRefresh repository requestedRevision dryRun previous fetched
    staging.path recorded

/-- `refresh_once`. -/
def refreshOnce (dryRun : Bool) : Action RefreshResult := do
  let previous ← always (perform (.resolveRef repository requestedRevision))
  let _ ← attempt (perform .enterTransferGate)
  match ← always (perform .isCancelled) with
  | true => check (.error .cancelled)
  | false =>
      refreshFetched repository requestedRevision dryRun previous.toOption

end PullThrough
end ModelKeep
