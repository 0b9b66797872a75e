import ModelKeep.Staging.Removal
import ModelKeep.Staging.Scan

/-!
# One live staging directory for each identity

A live active directory refuses the identity it records, but the first scan of
an acquisition adopts expired staging before the second looks at the active
directories.  As long as no acquisition finds both a live directory and one it
may adopt, no two live directories record one identity.
-/

namespace ModelKeep

open Concurrency Program

/-- The request an identity was recorded for. -/
def FetchStagingMetadata.request (metadata : FetchStagingMetadata) :
    StagingRequest :=
  ⟨metadata.repoType, metadata.repoId, metadata.requestedRevision,
    metadata.files⟩

namespace Staging

variable {before after : World}

/-- The calls on the area, and the passing of time. -/
inductive AreaAction
  | acquire (request : StagingRequest)
  | record (staging : EntryName) (request : StagingRequest) (commit : String)
  | preserve (staging : EntryName)
  | recover
  | wait (seconds : Nat)

/-- A call that runs to its end. -/
inductive AreaStep (before : World) : AreaAction → World → Prop
  | acquire
      {request : StagingRequest}
      {outcome : Except FetchStagingError FetchStaging}
      {after : World}
      (run : Returns Effect (acquireFetchStaging request) before outcome
        after) :
      AreaStep before (.acquire request) after
  | record
      {staging : EntryName}
      {request : StagingRequest}
      {commit : String}
      {outcome : Except ArchiveError Unit}
      {after : World}
      (run : Returns Effect (recordFetchResolvedCommit staging request commit)
        before outcome after) :
      AreaStep before (.record staging request commit) after
  | preserve
      {staging : EntryName}
      {outcome : Except ArchiveError Bool}
      {after : World}
      (run : Returns Effect (preserveFetchStaging staging) before outcome
        after) :
      AreaStep before (.preserve staging) after
  | recover
      {outcome : Except ArchiveError Recovery}
      {after : World}
      (run : Returns Effect recoverIncomplete before outcome after) :
      AreaStep before .recover after
  | wait (seconds : Nat) :
      AreaStep before (.wait seconds)
        { before with clock := before.clock + seconds }

/-- The worlds that permitted calls reach from an empty area. -/
inductive Reached (permitted : World → AreaAction → Prop) : World → Prop
  | empty (clock : Nat) : Reached permitted ⟨.empty, clock⟩
  | step
      {before after : World}
      {action : AreaAction}
      (reached : Reached permitted before)
      (allowed : permitted before action)
      (step : AreaStep before action after) :
      Reached permitted after

/-- A live active directory records the request. -/
def World.Held (world : World) (request : StagingRequest) (id : String) :
    Prop :=
  ∃ found metadata expiresAt, world.area.entry (.active id) = some found ∧
    found.dir.identity = .decoded metadata ∧ metadata.request = request ∧
    found.dir.lease = .expires expiresAt ∧ world.clock < expiresAt

/-- No two live active directories record one request. -/
def World.OneLive (world : World) : Prop :=
  ∀ request first second, world.Held request first →
    world.Held request second → first = second

/-- Some expired staging is there for the request to adopt. -/
def World.Contested (world : World) (request : StagingRequest) : Prop :=
  ∃ name metadata, world.Adoptable request world.clock name metadata

/-- An acquisition for an identity that is held live finds nothing to adopt,
and a recorded commit is one the upstream can name. -/
def Orderly (world : World) : AreaAction → Prop
  | .acquire request =>
      (∃ id, world.Held request id) → ¬world.Contested request
  | .record _ _ commit => isHfCommit commit = true
  | _ => True

/-- Every directory has a lease with an expiry and a valid identity. -/
def SettledDir (dir : StagingDir) : Prop :=
  (∃ expiresAt, dir.lease = .expires expiresAt) ∧
    ∃ metadata, dir.identity = .decoded metadata ∧
      checkMetadata metadata = .ok metadata

def World.Settled (world : World) : Prop :=
  ∀ name found, world.area.entry name = some found →
    SettledDir found.dir

theorem World.Held.present
    {request : StagingRequest}
    {id : String}
    (held : before.Held request id) :
    (before.area.entry (.active id)).isSome := by
  obtain ⟨found, _, _, stands, _⟩ := held
  rw [stands]
  rfl

/-! ## What a change leaves live -/

theorem Receded.settled
    (receded : Receded before after)
    (settled : before.Settled) :
    after.Settled := by
  intro name found stands
  rcases receded.2 name found stands with stood | ⟨_, old, stood⟩
  · exact settled name found stood
  · exact settled old found stood

theorem Receded.held
    {request : StagingRequest}
    {id : String}
    (receded : Receded before after)
    (held : after.Held request id) :
    before.Held request id := by
  obtain ⟨found, metadata, expiresAt, stands, rest⟩ := held
  rw [receded.1] at rest
  rcases receded.2 _ found stands with stood | ⟨⟨other, same⟩, _⟩
  · exact ⟨found, metadata, expiresAt, stood, rest⟩
  · cases same

theorem Replaced.settled
    {old new : EntryName}
    {entry : AreaEntry}
    (replaced : Replaced before after old new entry)
    (settledEntry : SettledDir entry.dir)
    (settled : before.Settled) :
    after.Settled := by
  intro name found stands
  rw [replaced.2] at stands
  split at stands
  · cases stands
    exact settledEntry
  · split at stands
    · cases stands
    · exact settled name found stands

/-- A live directory after a replacement is the new one or was live before. -/
theorem Replaced.held
    {old new : EntryName}
    {entry : AreaEntry}
    {request : StagingRequest}
    {id : String}
    (replaced : Replaced before after old new entry)
    (held : after.Held request id) :
    (.active id = new ∧ ∃ metadata, entry.dir.identity = .decoded metadata ∧
      metadata.request = request) ∨
    before.Held request id := by
  obtain ⟨found, metadata, expiresAt, stands, identity, same, rest⟩ := held
  rw [replaced.2] at stands
  split at stands
  · next isNew =>
      cases stands
      exact Or.inl ⟨isNew, metadata, identity, same⟩
  · split at stands
    · cases stands
    · rw [replaced.1] at rest
      exact Or.inr ⟨found, metadata, expiresAt, stands, identity, same, rest⟩

/-- A new live directory leaves at most one live directory for each identity
when its own was not held. -/
theorem Replaced.oneLive
    {old : EntryName}
    {id : String}
    {entry : AreaEntry}
    {metadata : FetchStagingMetadata}
    (replaced : Replaced before after old (.active id) entry)
    (identity : entry.dir.identity = .decoded metadata)
    (unheld : ∀ other, ¬before.Held metadata.request other)
    (oneLive : before.OneLive) :
    after.OneLive := by
  have isNew : ∀ (request : StagingRequest) (other : String),
      (EntryName.active other = .active id ∧ ∃ recorded,
        entry.dir.identity = .decoded recorded ∧
          recorded.request = request) →
        other = id ∧ metadata.request = request := by
    intro request other ⟨same, recorded, identityToo, isRequest⟩
    rw [identity] at identityToo
    cases identityToo
    cases same
    exact ⟨rfl, isRequest⟩
  intro request first second heldFirst heldSecond
  rcases replaced.held heldFirst with newFirst | stoodFirst
  · obtain ⟨sameFirst, rfl⟩ := isNew _ _ newFirst
    rcases replaced.held heldSecond with newSecond | stoodSecond
    · rw [sameFirst, (isNew _ _ newSecond).1]
    · exact absurd stoodSecond (unheld second)
  · rcases replaced.held heldSecond with newSecond | stoodSecond
    · obtain ⟨_, rfl⟩ := isNew _ _ newSecond
      exact absurd stoodFirst (unheld first)
    · exact oneLive request first second stoodFirst stoodSecond

/-! ## Verdicts on settled directories -/

theorem identity_of_held
    {request : StagingRequest}
    {id : String}
    (settled : before.Settled)
    (held : before.Held request id) :
    ∃ found metadata expiresAt,
      before.area.entry (.active id) = some found ∧
      before.identity (.active id) = .ok metadata ∧
      metadata.request = request ∧
      checkMetadata metadata = .ok metadata ∧
      found.dir.lease = .expires expiresAt ∧ before.clock < expiresAt := by
  obtain ⟨found, metadata, expiresAt, stands, recorded, same, leased, live⟩ :=
    held
  obtain ⟨_, other, recordedToo, valid⟩ := settled _ found stands
  rw [recorded] at recordedToo
  cases recordedToo
  exact ⟨found, metadata, expiresAt, stands,
    identity_eq_ok.mpr ⟨found, stands, recorded, valid⟩, same, valid, leased,
    live⟩

/-- The second scan refuses an identity that is held live. -/
theorem judgeActive_of_held
    {request : StagingRequest}
    {id : String}
    (settled : before.Settled)
    (held : before.Held request id) :
    before.judgeActive request before.clock (.ok (.active id, true)) =
      .refuse (.inFlight (.active id)) := by
  obtain ⟨found, metadata, expiresAt, stands, identity, rfl, _, leased,
    live⟩ := identity_of_held settled held
  have named : namesSameRevision metadata metadata.request = true := by
    simp [namesSameRevision, FetchStagingMetadata.request]
  unfold World.judgeActive
  simp only [identity, named, if_true]
  unfold World.weigh
  rw [told_some stands, leased]
  simp only [Lease.expiry, live, if_true]
  exact if_pos rfl

/-- A scan of settled directories refuses only because of a live one. -/
theorem weigh_eq_refuse
    {name : EntryName}
    {now : Nat}
    {alive expired : Verdict}
    {error : FetchStagingError}
    (settled : before.Settled)
    (refused : before.weigh name now alive expired = .refuse error) :
    alive = .refuse error ∨ expired = .refuse error := by
  unfold World.weigh at refused
  cases stands : before.area.entry name with
  | none =>
      rw [told_none stands] at refused
      simp [ArchiveError.ioKind] at refused
  | some found =>
      obtain ⟨⟨expiresAt, leased⟩, _⟩ := settled name found stands
      rw [told_some stands, leased] at refused
      simp only [Lease.expiry] at refused
      split at refused
      · exact Or.inl refused
      · exact Or.inr refused

theorem inFlight_of_refused
    {request : StagingRequest}
    {now : Nat}
    {name : EntryName}
    {isDirectory : Bool}
    {error : FetchStagingError}
    (settled : before.Settled)
    (refuses :
      before.judgeAbandoned request now (.ok (name, isDirectory)) =
        .refuse error ∨
      before.judgeActive request now (.ok (name, isDirectory)) =
        .refuse error) :
    ∃ staging, error = .inFlight staging := by
  rcases refuses with refuses | refuses
  · unfold World.judgeAbandoned at refuses
    split at refuses
    · next same => cases same
    · split at refuses
      · cases refuses
      · split at refuses
        · rcases weigh_eq_refuse settled refuses with same | same
          · cases same
            exact ⟨_, rfl⟩
          · cases same
        · cases refuses
    · cases refuses
  · unfold World.judgeActive at refuses
    split at refuses
    · next same => cases same
    · split at refuses
      · cases refuses
      · split at refuses
        · rcases weigh_eq_refuse settled refuses with same | same
          · split at same
            · cases same
              exact ⟨_, rfl⟩
            · cases same
          · split at same <;> cases same
        · cases refuses
    · cases refuses

theorem checkMetadata_iff
    {metadata : FetchStagingMetadata} :
    checkMetadata metadata = .ok metadata ↔
      (metadata.version = 1 ∧
        ∀ commit ∈ metadata.resolvedCommit, isHfCommit commit = true) ∧
      validateRequest metadata.request = .ok () := by
  have sound : ¬(metadata.version ≠ 1 ∨
      metadata.resolvedCommit.any (fun commit => !isHfCommit commit)) ↔
      metadata.version = 1 ∧
        ∀ commit ∈ metadata.resolvedCommit, isHfCommit commit = true := by
    cases metadata.resolvedCommit <;> simp
  have checks : (do
      let _ ← validateRepoId metadata.repoId
      validateComponent metadata.requestedRevision
      metadata.files.forM validateRelativeFilePath
      return metadata) = (.ok metadata : Except ArchiveError _) ↔
      validateRequest metadata.request = .ok () := by
    unfold validateRequest FetchStagingMetadata.request
    simp only [bind_eq_ok]
    constructor
    · rintro ⟨segments, repo, ⟨⟩, revision, ⟨⟩, files, _⟩
      exact ⟨segments, repo, (), revision, files⟩
    · rintro ⟨segments, repo, ⟨⟩, revision, files⟩
      exact ⟨segments, repo, (), revision, (), files, rfl⟩
  rw [← sound, ← checks]
  unfold checkMetadata
  split
  · next bad => simp [bad]
  · next good => simp [good]

/-! ## Steps -/

/-- An adopted directory is settled under the request that adopted it. -/
theorem settledDir_of_adopted
    {request : StagingRequest}
    {metadata : FetchStagingMetadata}
    {dir : StagingDir}
    {expiresAt : Nat}
    (valid : validateRequest request = .ok ())
    (checked : checkMetadata metadata = .ok metadata)
    (sameRevision : namesSameRevision metadata request = true) :
    SettledDir { dir with
        lease := .expires expiresAt
        identity := .decoded { metadata with files := request.files } } ∧
      FetchStagingMetadata.request { metadata with files := request.files } =
        request := by
  simp only [namesSameRevision, Bool.and_eq_true, decide_eq_true_eq]
    at sameRevision
  obtain ⟨⟨repoType, repoId⟩, revision⟩ := sameRevision
  have same : FetchStagingMetadata.request
      { metadata with files := request.files } = request := by
    unfold FetchStagingMetadata.request
    rw [repoType, repoId, revision]
  refine ⟨⟨⟨_, rfl⟩, _, rfl, checkMetadata_iff.mpr ⟨?_, ?_⟩⟩, same⟩
  · exact (checkMetadata_iff.mp checked).1
  · rw [same]
    exact valid

/-- An acquisition of an identity that is not contested leaves at most one
live directory for each. -/
theorem Acquires.keeps
    {request : StagingRequest}
    {outcome : Except FetchStagingError FetchStaging}
    (acquires : Acquires request before outcome after)
    (settled : before.Settled)
    (oneLive : before.OneLive)
    (uncontested :
      (∃ id, before.Held request id) → ¬before.Contested request) :
    after.Settled ∧ after.OneLive := by
  cases acquires with
  | invalid => exact ⟨settled, oneLive⟩
  | refused => exact ⟨settled, oneLive⟩
  | adopted valid adoptable claims =>
      obtain ⟨found, _, stands, recorded, _⟩ := adoptable.recorded
      obtain ⟨id, _, _, replaced⟩ := returns_claim stands recorded claims
      obtain ⟨settledDir, same⟩ := settledDir_of_adopted valid
        adoptable.valid adoptable.sameRevision
      refine ⟨replaced.settled settledDir settled,
        replaced.oneLive rfl ?_ oneLive⟩
      intro other held
      rw [same] at held
      exact uncontested ⟨other, held⟩ ⟨_, _, adoptable⟩
  | created valid passes creates =>
      obtain ⟨id, inode, _, _, replaced⟩ :=
        returns_createFetchStaging creates
      refine ⟨replaced.settled ⟨⟨_, rfl⟩, _, rfl, ?_⟩ settled,
        replaced.oneLive rfl ?_ oneLive⟩
      · refine checkMetadata_iff.mpr ⟨⟨rfl, ?_⟩, valid⟩
        intro commit recorded
        cases recorded
      · intro other (held : before.Held request other)
        have pass := (passes (.active other) held.present).2
        rw [judgeActive_of_held settled held] at pass
        cases pass

/-- The request that a directory records is the one it recorded before its
commit was. -/
theorem held_of_recorded
    {staging : EntryName}
    {found : AreaEntry}
    {metadata : FetchStagingMetadata}
    {commit id : String}
    {request : StagingRequest}
    (stands : before.area.entry staging = some found)
    (recorded : found.dir.identity = .decoded metadata)
    (held : World.Held (before.change staging fun dir => { dir with
      identity := .decoded { metadata with resolvedCommit := some commit } })
      request id) :
    before.Held request id := by
  obtain ⟨later, recordedLater, expiresAt, standsLater, identity, same,
    leased, live⟩ := held
  by_cases here : EntryName.active id = staging
  · subst here
    rw [entry_change_self stands] at standsLater
    cases standsLater
    cases identity
    exact ⟨found, metadata, expiresAt, stands, recorded, same, leased, live⟩
  · rw [entry_change_of_ne here] at standsLater
    exact ⟨later, recordedLater, expiresAt, standsLater, identity, same,
      leased, live⟩

theorem record_keeps
    {staging : EntryName}
    {request : StagingRequest}
    {commit : String}
    {outcome : Except ArchiveError Unit}
    (run : Returns Effect (recordFetchResolvedCommit staging request commit)
      before outcome after)
    (hfCommit : isHfCommit commit = true)
    (settled : before.Settled)
    (oneLive : before.OneLive) :
    after.Settled ∧ after.OneLive := by
  rcases returns_record run with rfl | ⟨metadata, identity, rfl⟩
  · exact ⟨settled, oneLive⟩
  obtain ⟨found, stands, recorded, checked⟩ := identity_eq_ok.mp identity
  have replaced := (Replaced.refl stands).change fun dir => { dir with
    identity := .decoded { metadata with resolvedCommit := some commit } }
  constructor
  · apply replaced.settled ⟨(settled _ _ stands).1, _, rfl, ?_⟩ settled
    refine checkMetadata_iff.mpr ⟨⟨?_, ?_⟩, ?_⟩
    · exact (checkMetadata_iff.mp checked).1.1
    · intro other same
      cases same
      exact hfCommit
    · exact (checkMetadata_iff.mp checked).2
  · intro request first second heldFirst heldSecond
    exact oneLive request first second
      (held_of_recorded stands recorded heldFirst)
      (held_of_recorded stands recorded heldSecond)

theorem Receded.oneLive
    (receded : Receded before after)
    (oneLive : before.OneLive) :
    after.OneLive := by
  intro request first second heldFirst heldSecond
  exact oneLive request first second (receded.held heldFirst)
    (receded.held heldSecond)

theorem Preserves.keeps
    {name : EntryName}
    {outcome : Except ArchiveError Bool}
    (preserves : Preserves before name outcome after)
    (settled : before.Settled)
    (oneLive : before.OneLive) :
    after.Settled ∧ after.OneLive := by
  cases preserves with
  | unidentified => exact ⟨settled, oneLive⟩
  | discarded _ _ removed =>
      exact ⟨removed.receded.settled settled,
        removed.receded.oneLive oneLive⟩
  | kept _ _ stands _ replaced =>
      have kept := settled _ _ stands
      refine ⟨replaced.settled ⟨⟨_, rfl⟩, kept.2⟩ settled, ?_⟩
      intro request first second heldFirst heldSecond
      rcases replaced.held heldFirst with ⟨same, _⟩ | stoodFirst
      · cases same
      rcases replaced.held heldSecond with ⟨same, _⟩ | stoodSecond
      · cases same
      exact oneLive request first second stoodFirst stoodSecond

/-- An orderly step keeps one live directory for each identity. -/
theorem AreaStep.keeps
    {action : AreaAction}
    (step : AreaStep before action after)
    (orderly : Orderly before action)
    (settled : before.Settled)
    (oneLive : before.OneLive) :
    after.Settled ∧ after.OneLive := by
  cases step with
  | acquire run => exact (returns_acquire run).keeps settled oneLive orderly
  | record run => exact record_keeps run orderly settled oneLive
  | preserve run => exact (returns_preserve run).keeps settled oneLive
  | recover run =>
      have receded := returns_recoverIncomplete run
      exact ⟨receded.settled settled, receded.oneLive oneLive⟩
  | wait seconds =>
      refine ⟨settled, ?_⟩
      have earlier : ∀ request id,
          World.Held { before with clock := before.clock + seconds } request
            id → before.Held request id := by
        intro request id ⟨found, metadata, expiresAt, stands, identity, same,
          leased, live⟩
        refine ⟨found, metadata, expiresAt, stands, identity, same, leased,
          ?_⟩
        exact Nat.lt_of_le_of_lt (Nat.le_add_right _ _) live
      intro request first second heldFirst heldSecond
      exact oneLive request first second (earlier _ _ heldFirst)
        (earlier _ _ heldSecond)

theorem Reached.settled_and_oneLive
    {world : World}
    (reached : Reached Orderly world) :
    world.Settled ∧ world.OneLive := by
  induction reached with
  | empty clock =>
      constructor
      · intro name found stands
        cases stands
      · intro request first second ⟨_, _, _, stands, _⟩
        cases stands
  | step _ orderly step inductionHypothesis =>
      exact step.keeps orderly inductionHypothesis.1 inductionHypothesis.2

/-- An acquisition of an identity that is held live and not contested is
refused. -/
theorem inFlight_of_held
    {request : StagingRequest}
    {id : String}
    {outcome : Except FetchStagingError FetchStaging}
    (settled : before.Settled)
    (held : before.Held request id)
    (uncontested : ¬before.Contested request)
    (run : Returns Effect (acquireFetchStaging request) before outcome after) :
    (∃ staging, outcome = .error (.inFlight staging)) ∧ after = before := by
  cases returns_acquire run with
  | invalid invalid =>
      obtain ⟨_, metadata, _, _, _, rfl, checked, _⟩ :=
        identity_of_held settled held
      rw [(checkMetadata_iff.mp checked).2] at invalid
      cases invalid
  | refused refuses =>
      obtain ⟨staging, rfl⟩ := inFlight_of_refused settled refuses
      exact ⟨⟨staging, rfl⟩, rfl⟩
  | adopted _ adoptable _ =>
      exact absurd ⟨_, _, adoptable⟩ uncontested
  | created _ passes _ =>
      have pass := (passes (.active id) held.present).2
      rw [judgeActive_of_held settled held] at pass
      cases pass

/-- As long as no acquisition of an identity that is held live finds staging
to adopt, no two live active directories ever record one identity, and an
acquisition of one that is held live is refused. -/
theorem live_staging_unique
    {world : World}
    (reached : Reached Orderly world) :
    world.OneLive ∧
      ∀ request id outcome after, world.Held request id →
        ¬world.Contested request →
        Returns Effect (acquireFetchStaging request) world outcome after →
        (∃ staging, outcome = .error (.inFlight staging)) ∧ after = world := by
  obtain ⟨settled, oneLive⟩ := reached.settled_and_oneLive
  refine ⟨oneLive, ?_⟩
  intro request id outcome after held uncontested run
  exact inFlight_of_held settled held uncontested run

/-! ## Histories -/

/-- The call runs with the settled answers. -/
def World.next (world : World) : AreaAction → World
  | .acquire request =>
      ((acquireFetchStaging request).run.run respond world).2
  | .record staging request commit =>
      ((recordFetchResolvedCommit staging request commit).run.run respond
        world).2
  | .preserve staging =>
      ((preserveFetchStaging staging).run.run respond world).2
  | .recover => (recoverIncomplete.run.run respond world).2
  | .wait seconds => { world with clock := world.clock + seconds }

theorem areaStep_next (world : World) (action : AreaAction) :
    AreaStep world action (world.next action) := by
  cases action with
  | acquire request =>
      exact AreaStep.acquire (runs_run effect_respond _ world)
  | record staging request commit =>
      exact AreaStep.record (runs_run effect_respond _ world)
  | preserve staging =>
      exact AreaStep.preserve (runs_run effect_respond _ world)
  | recover => exact AreaStep.recover (runs_run effect_respond _ world)
  | wait seconds => exact AreaStep.wait seconds

/-- A whole history of calls. -/
theorem reached_of_history
    {world : World}
    (reached : Reached (fun _ _ => True) world)
    (history : List AreaAction) :
    Reached (fun _ _ => True) (history.foldl World.next world) := by
  induction history generalizing world with
  | nil => exact reached
  | cons action rest inductionHypothesis =>
      exact inductionHypothesis
        (reached.step trivial (areaStep_next world action))

/-- One file of a repository, and all of them. -/
def oneFile : StagingRequest := ⟨.model, "org/model", "main", ["a"]⟩

def allFiles : StagingRequest := ⟨.model, "org/model", "main", []⟩

/-- Nobody has staged anything at time 100. -/
def quietWorld : World := ⟨.empty, 100⟩

/-- A download of one file runs, and in it a second one runs into nothing that
it could adopt. -/
theorem live_staging_unique_of_refusal :
    World.OneLive (quietWorld.next (.acquire oneFile)) ∧
      ∀ outcome after,
        Returns Effect (acquireFetchStaging oneFile)
          (quietWorld.next (.acquire oneFile)) outcome after →
        (∃ staging, outcome = .error (.inFlight staging)) ∧
          after = quietWorld.next (.acquire oneFile) := by
  have orderly : Orderly quietWorld (.acquire oneFile) := by
    intro ⟨_, _, _, _, stands, _⟩
    cases stands
  have reached : Reached Orderly (quietWorld.next (.acquire oneFile)) :=
    (Reached.empty 100).step orderly (areaStep_next _ _)
  have only : (quietWorld.next (.acquire oneFile)).area.names =
      [.active "f"] := by decide +kernel
  have content : ((quietWorld.next (.acquire oneFile)).area.entry
      (.active "f")).map (fun found => (found.dir.lease, found.dir.identity)) =
      some (.expires 220, .decoded ⟨1, .model, "org/model", "main", ["a"],
        none⟩) := by decide +kernel
  obtain ⟨found, stands, same⟩ := Option.map_eq_some_iff.mp content
  rw [Prod.mk.injEq] at same
  have held : World.Held (quietWorld.next (.acquire oneFile)) oneFile "f" :=
    ⟨found, _, 220, stands, same.2, rfl, same.1, by decide +kernel⟩
  have uncontested :
      ¬World.Contested (quietWorld.next (.acquire oneFile)) oneFile := by
    intro ⟨name, metadata, adoptable⟩
    obtain ⟨other, expiresAt, standsToo, _, leased, expired⟩ :=
      adoptable.recorded
    have member : name ∈ (quietWorld.next (.acquire oneFile)).area.names := by
      rw [TemporaryArea.mem_names, standsToo]
      rfl
    rw [only, List.mem_singleton] at member
    subst member
    rw [stands] at standsToo
    cases standsToo
    rw [same.1] at leased
    cases leased
    revert expired
    decide +kernel
  obtain ⟨oneLive, refused⟩ := live_staging_unique reached
  exact ⟨oneLive, fun outcome after =>
    refused oneFile "f" outcome after held uncontested⟩

/-- A download of one file runs; one of the whole repository is interrupted
once its commit is recorded; a second one of the file comes. -/
def contestedHistory : List AreaAction :=
  [.acquire oneFile, .acquire allFiles,
    .record (.active "ff") allFiles "aaaaaaaaaaaaaaaaaaaaaaaaaaaaaaaaaaaaaaaa",
    .preserve (.active "ff"), .acquire oneFile]

/-- The second download of the file adopts the staging of the repository while
the first one holds its own. -/
theorem two_live_stagings :
    ¬∀ world, Reached (fun _ _ => True) world → world.OneLive := by
  intro unique
  have reached := reached_of_history (Reached.empty 100) contestedHistory
  have held : ∀ id metadata,
      ((contestedHistory.foldl World.next quietWorld).area.entry
        (.active id)).map
          (fun found => (found.dir.lease, found.dir.identity)) =
        some (.expires 220, .decoded metadata) →
      metadata.request = oneFile →
      World.Held (contestedHistory.foldl World.next quietWorld) oneFile
        id := by
    intro id metadata content isRequest
    obtain ⟨found, stands, same⟩ := Option.map_eq_some_iff.mp content
    rw [Prod.mk.injEq] at same
    exact ⟨found, metadata, 220, stands, same.2, isRequest, same.1,
      by decide +kernel⟩
  have first := held "f" ⟨1, .model, "org/model", "main", ["a"], none⟩
    (by decide +kernel) rfl
  have second := held "ffff" ⟨1, .model, "org/model", "main", ["a"],
    some "aaaaaaaaaaaaaaaaaaaaaaaaaaaaaaaaaaaaaaaa"⟩ (by decide +kernel) rfl
  have same := unique _ reached oneFile "f" "ffff" first second
  revert same
  decide

end Staging
end ModelKeep
