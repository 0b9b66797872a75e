import ModelKeep.PullThrough.Calls
import ModelKeep.Staging.Removal
import ModelKeep.Staging.Scan

/-!
# What the calls of an acquisition do

One acquisition runs on an archive and a temporary area.  What it cannot know
is a parameter: what upstream answers, what a transfer leaves in staging and
how it ends, and what others have done by the time a slot is free.  A
cancellation may come at any time, so the token may answer anything.
-/

namespace ModelKeep

open Concurrency Program

/-- What a transfer leaves in its staging, and how it ends. -/
structure Transfer where
  /-- The end of a transfer that resumes a commit, or none. -/
  outcome : Option String → Except UpstreamError FetchedRevision
  payload : FileTree Bytes
  upstreamFiles : Stored UpstreamFileList
  /-- The commit the fetcher has recorded, if it came that far. -/
  resolved : Option String
  resolvedHf : ∀ commit ∈ resolved, isHfCommit commit = true
  /-- The lease as the heartbeat left it. -/
  lease : Lease
  seconds : Nat

/-- A staging directory after a transfer into it. -/
def Transfer.fill (transfer : Transfer) (dir : StagingDir) : StagingDir :=
  { dir with
    payload := transfer.payload
    upstreamFiles := transfer.upstreamFiles
    lease := transfer.lease }

/-- The names upstream was heard to use; kept in memory only. -/
abbrev ResolvedRefs : Type := List ((Repository × String) × String)

/-- `MAX_RESOLVED_REFS`. -/
def maxResolvedRefs : Nat := 1024

/-- `remember_resolved_ref`. -/
def rememberResolvedRef (resolved : ResolvedRefs) (repository : Repository)
    (reference commit : String) : ResolvedRefs :=
  if maxResolvedRefs ≤ resolved.length ∧
      (repository, reference) ∉ resolved.map Prod.fst then
    resolved
  else
    ((repository, reference), commit) ::
      resolved.filter fun entry => entry.1 ≠ (repository, reference)

/-- The candidates of `adopt_resolved_refs`. -/
def resolvedNames (resolved : ResolvedRefs) (repository : Repository)
    (commit : String) : List String :=
  (resolved.filter fun entry =>
    entry.1.1 = repository && entry.2 = commit).map fun entry => entry.1.2

/-- `staged_upstream_files`. -/
def stagedUpstreamFiles (staging : Option StagingDir)
    (repoType : RepositoryType) (commit : String) : List String :=
  match staging.map StagingDir.upstreamFiles with
  | some (.decoded record) =>
      if record.repoType ≠ repoType ∨ record.commit ≠ commit then []
      else Archive.sanitized record.files
  | _ => []

/-- The identity of a transfer; what the commit is recorded under. -/
def FetchRequest.stagingRequest (request : FetchRequest) : StagingRequest :=
  ⟨request.repoType, request.repoId, request.revision,
    selectionIdentity request.files request.exclude⟩

/-- Where an acquisition runs. -/
structure Site where
  archive : Archive
  staging : Staging.World
  resolvedRefs : ResolvedRefs
  /-- Whether it has its slot. -/
  admitted : Bool
  /-- The directory the transfer ended in. -/
  transferred : Option AreaEntry

namespace Site

/-- The staging under a name. -/
def staged (site : Site) (name : EntryName) : Option StagingDir :=
  (site.staging.area.entry name).map AreaEntry.dir

def withStaging (site : Site) (staging : Staging.World) : Site :=
  { site with staging := staging }

def withArchive (site : Site) (archive : Archive) : Site :=
  { site with archive := archive }

/-- Publication renames staging away, or removes it when it fails. -/
def consume (site : Site) (name : EntryName) : Archive.StagingFate → Site
  | .kept => site
  | .consumed => site.withStaging
      { site.staging with area := site.staging.area.remove name }

/-- A call on the area that runs to its end. -/
def onStaging {ε α : Type} (site : Site) (action : Staging.Action ε α) :
    Except ε α × Site :=
  let answered := action.run.run Staging.respond site.staging
  (answered.1, site.withStaging answered.2)

/-- The area once the bytes have moved. -/
def moved (site : Site) (transfer : Transfer) (request : FetchRequest) :
    Staging.World :=
  { site.staging.change request.staging transfer.fill with
    clock := site.staging.clock + transfer.seconds }

/-- What a transfer has done by the time it ends. -/
def transfer (site : Site) (transfer : Transfer) (request : FetchRequest) :
    Site :=
  let recorded := match transfer.resolved with
    | none => site.moved transfer request
    | some commit =>
        ((Staging.recordFetchResolvedCommit request.staging
          request.stagingRequest commit).run.run Staging.respond
            (site.moved transfer request)).2
  { site with
    staging := recorded
    transferred := recorded.area.entry request.staging }

/-- Only the temporary area may have changed. -/
def Aside (before after : Site) : Prop :=
  ∃ staging, after = before.withStaging staging

theorem Aside.refl (site : Site) : site.Aside site :=
  ⟨site.staging, rfl⟩

theorem Aside.trans
    {before middle after : Site}
    (first : before.Aside middle)
    (second : middle.Aside after) :
    before.Aside after := by
  obtain ⟨_, rfl⟩ := first
  obtain ⟨staging, rfl⟩ := second
  exact ⟨staging, rfl⟩

theorem Aside.archive
    {before after : Site}
    (aside : before.Aside after) :
    after.archive = before.archive := by
  obtain ⟨_, rfl⟩ := aside
  rfl

@[simp] theorem archive_consume
    (site : Site)
    (name : EntryName)
    (fate : Archive.StagingFate) :
    (site.consume name fate).archive = site.archive := by
  cases fate <;> rfl

end Site

/-- What an acquisition meets outside. -/
structure Outside where
  sha256 : Bytes → String
  /-- The answer of the gate; after a wait, what others left behind. -/
  slot : Except PullThroughError (Option Site)
  /-- What upstream says of a selection, before and after the slot. -/
  inventory : Bool → InventoryRequest →
    Except UpstreamError (Option RevisionInventory)
  repositoryFiles : InventoryRequest →
    Except UpstreamError (Option UpstreamRepositoryFiles)
  transfer : Transfer

namespace Outside

/-- The site when the gate has answered. -/
def arrive (outside : Outside) (site : Site) : Site :=
  match outside.slot with
  | .error _ => site
  | .ok none => { site with admitted := true }
  | .ok (some later) =>
      { later with admitted := true, transferred := site.transferred }

/-- The answers of an acquisition that nobody cancels. -/
def respond (outside : Outside) :
    (op : PullThrough.Op) → Site → op.Reply × Site
  | .resolveRef repository reference, site =>
      (site.archive.resolveRef repository reference, site)
  | .isComplete repository commit, site =>
      (site.archive.isCompleteRevision repository commit, site)
  | .resolveFile repository commit path, site =>
      (site.archive.resolveFile repository commit path, site)
  | .upstreamFiles repository commit, site =>
      (site.archive.upstreamFiles repository commit, site)
  | .manifestPaths repository commit, site =>
      (site.archive.manifestPaths repository commit, site)
  | .publish repository request staging, site =>
      let published := site.archive.publish outside.sha256 repository request
        (site.staged staging)
      (published.1,
        (site.withArchive published.2.1).consume staging published.2.2)
  | .extend repository commit files staging, site =>
      let extended := site.archive.extend outside.sha256 repository commit
        files (site.staged staging)
      (extended.1, site.withArchive extended.2)
  | .recordUpstreamFiles repository commit files, site =>
      let recorded :=
        site.archive.recordUpstreamFiles repository commit files
      (recorded.1, site.withArchive recorded.2)
  | .updateRef repository reference commit, site =>
      let updated := site.archive.updateRef repository reference commit
      (updated.1, site.withArchive updated.2)
  | .rememberResolvedRef repository reference commit, site =>
      ((), { site with resolvedRefs :=
        rememberResolvedRef site.resolvedRefs repository reference commit })
  | .rememberedRefs repository commit, site =>
      (resolvedNames site.resolvedRefs repository commit, site)
  | .enterTransferGate, site =>
      (outside.slot.map Option.isSome, outside.arrive site)
  | .isCancelled, site => (false, site)
  | .commit, site => (true, site)
  | .cancel, site => (.alreadyFinished, site)
  | .acquireStaging request, site =>
      site.onStaging (Staging.acquireFetchStaging request)
  | .stagedUpstreamFiles staging repoType commit, site =>
      (ModelKeep.stagedUpstreamFiles (site.staged staging) repoType commit,
        site)
  | .preserveStaging staging, site =>
      site.onStaging (Staging.preserveFetchStaging staging)
  | .removeStaging staging, site =>
      site.onStaging (Staging.removeDirAll staging)
  | .inventory request, site =>
      (outside.inventory site.admitted request, site)
  | .repositoryFiles request, site => (outside.repositoryFiles request, site)
  | .fetch request, site =>
      (outside.transfer.outcome request.resumeCommit,
        site.transfer outside.transfer request)

/-- The calls of an acquisition.  A cancellation may come at any time, a map
is iterated in any order, and the calls on the area leave open what the area
leaves open. -/
def Effect (outside : Outside) : Semantics PullThrough.interface Site
  | .isCancelled, before, _, after => after = before
  | .commit, before, _, after => after = before
  | .cancel, before, _, after => after = before
  | .rememberedRefs repository commit, before, names, after =>
      after = before ∧
        names.Perm (resolvedNames before.resolvedRefs repository commit)
  | .acquireStaging request, before, reply, after =>
      ∃ staging, Returns Staging.Effect (Staging.acquireFetchStaging request)
          before.staging reply staging ∧
        after = before.withStaging staging
  | .preserveStaging name, before, reply, after =>
      ∃ staging, Returns Staging.Effect (Staging.preserveFetchStaging name)
          before.staging reply staging ∧
        after = before.withStaging staging
  | .removeStaging name, before, reply, after =>
      ∃ staging, Returns Staging.Effect (Staging.removeDirAll name)
          before.staging reply staging ∧
        after = before.withStaging staging
  | op, before, reply, after => outside.respond op before = (reply, after)

/-- The answers of an acquisition that nobody cancels are possible ones. -/
theorem effect_respond (outside : Outside) (op : PullThrough.Op)
    (site : Site) :
    outside.Effect op site (outside.respond op site).1
      (outside.respond op site).2 := by
  have staging : ∀ {ε α : Type} (action : Staging.Action ε α),
      Returns Staging.Effect action site.staging (site.onStaging action).1
        (action.run.run Staging.respond site.staging).2 := fun action =>
    runs_run Staging.effect_respond action.run site.staging
  cases op with
  | isCancelled => rfl
  | commit => rfl
  | cancel => rfl
  | rememberedRefs repository commit => exact ⟨rfl, List.Perm.refl _⟩
  | acquireStaging request => exact ⟨_, staging _, rfl⟩
  | preserveStaging name => exact ⟨_, staging _, rfl⟩
  | removeStaging name => exact ⟨_, staging _, rfl⟩
  | _ => rfl

/-- The acquisition that nobody cancels is one of its runs. -/
theorem returns_respond
    {ε α : Type}
    (outside : Outside)
    (action : ExceptT ε (Program PullThrough.interface) α)
    (site : Site) :
    Returns outside.Effect action site
      (action.run.run outside.respond site).1
      (action.run.run outside.respond site).2 :=
  runs_run outside.effect_respond action.run site

end Outside

/-! ## Samples -/

namespace Sample

def repository : Repository := ⟨.model, "org/model"⟩

/-- Two commits of the repository. -/
def older : String := "aaaaaaaaaaaaaaaaaaaaaaaaaaaaaaaaaaaaaaaa"

def newer : String := "bbbbbbbbbbbbbbbbbbbbbbbbbbbbbbbbbbbbbbbb"

/-- SHA-256 of empty files. -/
def digest (_ : Bytes) : String :=
  "e3b0c44298fc1c149afbf4c8996fb92427ae41e4649b934ca495991b7852b855"

/-- Empty files at the root of a tree. -/
def payload (files : List String) : FileTree Bytes :=
  files.foldl (fun tree file => (tree.placeFile [file] []).getD tree) .empty

/-- An archive in which `main` names a commit with these files. -/
def archive (commit : String) (files : List String) : Archive :=
  ((Archive.empty.publish digest repository ⟨"main", commit, files⟩
    (some { StagingDir.bare with payload := payload files })).2.1.updateRef
      repository "main" commit).2

/-- Nothing is staged at time 100. -/
def site (archive : Archive) : Site :=
  ⟨archive, ⟨.empty, 100⟩, [], false, none⟩

/-- A transfer of these files. -/
def transfer (commit : String) (files : List String) : Transfer where
  outcome := fun _ => .ok ⟨commit, files⟩
  payload := payload files
  upstreamFiles := .missing
  resolved := none
  resolvedHf := by simp
  lease := .expires 220
  seconds := 0

/-- An upstream that lists nothing and a gate without a wait. -/
def outside (transfer : Transfer) : Outside where
  sha256 := digest
  slot := .ok none
  inventory := fun _ _ => .ok none
  repositoryFiles := fun _ => .ok none
  transfer := transfer

end Sample
end ModelKeep
