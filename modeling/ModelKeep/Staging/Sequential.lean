import ModelKeep.Staging.Calls

/-!
# Calls that run alone

What the steps and the claim of an acquisition return and leave when no other
call runs and no step fails: a claim, once decided on, goes through.
-/

namespace ModelKeep
namespace Staging

open Concurrency Program

variable {ε α β : Type} {before after : World}

/-! ## Rules -/

theorem runs_perform
    {op : Op}
    {reply : op.Reply} :
    (perform op).Runs Effect before reply after ↔
      Effect op before reply after :=
  Program.runs_perform

theorem within_some
    {world : World}
    {name : EntryName}
    {found : AreaEntry}
    (stands : world.area.entry name = some found)
    (step : AreaEntry → Except ArchiveError α × TemporaryArea) :
    world.within name step =
      ((step found).1, { world with area := (step found).2 }) := by
  unfold World.within
  rw [stands]

theorem within_none
    {world : World}
    {name : EntryName}
    (absent : world.area.entry name = none)
    (step : AreaEntry → Except ArchiveError α × TemporaryArea) :
    world.within name step = (.error (.io .notFound), world) := by
  unfold World.within
  rw [absent]

/-- What a reader of a directory is told. -/
def World.told (world : World) (name : EntryName)
    (view : AreaEntry → Except ArchiveError α) : Except ArchiveError α :=
  match world.area.entry name with
  | none => .error (.io .notFound)
  | some found => view found

theorem told_none
    {world : World}
    {name : EntryName}
    (absent : world.area.entry name = none)
    (view : AreaEntry → Except ArchiveError α) :
    world.told name view = .error (.io .notFound) := by
  rw [World.told, absent]

theorem told_some
    {world : World}
    {name : EntryName}
    {found : AreaEntry}
    (stands : world.area.entry name = some found)
    (view : AreaEntry → Except ArchiveError α) :
    world.told name view = view found := by
  rw [World.told, stands]

theorem within_view
    {name : EntryName}
    {view : AreaEntry → Except ArchiveError α}
    {answer : Except ArchiveError α} :
    before.within name (fun found => (view found, before.area)) =
        (answer, after) ↔
      answer = before.told name view ∧ after = before := by
  cases stands : before.area.entry name with
  | none =>
      rw [within_none stands, told_none stands, Prod.mk.injEq]
      exact and_congr eq_comm eq_comm
  | some found =>
      rw [within_some stands, told_some stands, Prod.mk.injEq]
      exact and_congr eq_comm eq_comm

theorem returns_archived
    {action : Action ArchiveError α}
    {result : Except FetchStagingError α} :
    Returns Effect (archived action) before result after ↔
      ∃ outcome, result = outcome.mapError .archive ∧
        Returns Effect action before outcome after :=
  returns_mapError

theorem returns_during
    {recovery : RecoveryAction}
    {action : Action ArchiveError α}
    {result : Except SkippedStagingEntry α} :
    Returns Effect (during recovery action) before result after ↔
      ∃ outcome, result = outcome.mapError
          (fun error => ⟨recovery, error⟩) ∧
        Returns Effect action before outcome after :=
  returns_mapError

/-! ## Leases and identities -/

/-- A change of what is in a directory. -/
def World.change (world : World) (name : EntryName)
    (change : StagingDir → StagingDir) : World :=
  { world with area := world.area.update name change }

/-- An operation id is drawn. -/
def World.draw (world : World) (id : String) : World :=
  { world with area := world.area.draw id }

@[simp] theorem clock_change
    (world : World)
    (name : EntryName)
    (change : StagingDir → StagingDir) :
    (world.change name change).clock = world.clock := rfl

@[simp] theorem clock_draw (world : World) (id : String) :
    (world.draw id).clock = world.clock := rfl

@[simp] theorem entry_draw (world : World) (id : String) :
    (world.draw id).area.entry = world.area.entry := rfl

theorem entry_change_of_ne
    {world : World}
    {name other : EntryName}
    (different : other ≠ name)
    (change : StagingDir → StagingDir) :
    (world.change name change).area.entry other = world.area.entry other :=
  world.area.entry_update_of_ne different change

theorem free_change
    {world : World}
    {new : EntryName}
    (free : world.area.Free new)
    (name : EntryName)
    (change : StagingDir → StagingDir) :
    (world.change name change).area.Free new := by
  refine ⟨?_, free.2⟩
  change (world.area.update name change).entry new = none
  rw [TemporaryArea.entry_update, free.1, Option.map_none]

theorem entry_change_self
    {world : World}
    {name : EntryName}
    {found : AreaEntry}
    (stands : world.area.entry name = some found)
    (change : StagingDir → StagingDir) :
    (world.change name change).area.entry name =
      some { found with dir := change found.dir } :=
  world.area.entry_update_self stands change

section directory

variable {name : EntryName} {found : AreaEntry}

theorem returns_createPart
    (stands : before.area.entry name = some found)
    (outcome : Except ArchiveError Unit)
    (later : World) :
    Returns Effect (attempt (perform (.createPart name))) before outcome later ↔
      outcome = .ok () ∧ later = before := by
  rw [returns_attempt, runs_perform]
  change before.within name _ = _ ↔ _
  rw [within_some stands, Prod.mk.injEq]
  exact and_congr eq_comm eq_comm

theorem returns_flush
    (outcome : Except ArchiveError Unit)
    (later : World) :
    Returns Effect (attempt (perform .flush)) before outcome later ↔
      outcome = .ok () ∧ later = before := by
  rw [returns_attempt, runs_perform]
  change (_, _) = (_, _) ↔ _
  rw [Prod.mk.injEq]
  exact and_congr eq_comm eq_comm

theorem returns_sync
    (outcome : Except ArchiveError Unit)
    (later : World) :
    Returns Effect (attempt (perform .syncDirectory)) before outcome later ↔
      outcome = .ok () ∧ later = before := by
  rw [returns_attempt, runs_perform]
  change (_, _) = (_, _) ↔ _
  rw [Prod.mk.injEq]
  exact and_congr eq_comm eq_comm

theorem returns_writeLeaseWithExpiry
    (stands : before.area.entry name = some found)
    (expiresAt : Nat)
    (outcome : Except ArchiveError Unit)
    (later : World) :
    Returns Effect (writeStagingLeaseWithExpiry name expiresAt) before outcome
        later ↔
      outcome = .ok () ∧ later = before.change name fun dir =>
        { dir with lease := .expires expiresAt } := by
  unfold writeStagingLeaseWithExpiry
  rw [returns_bind_of (returns_createPart stands),
    returns_bind_of returns_flush, returns_attempt, runs_perform]
  change before.within name _ = _ ↔ _
  rw [within_some stands, Prod.mk.injEq]
  exact and_congr eq_comm eq_comm

theorem returns_writeStagingLease
    (stands : before.area.entry name = some found)
    (outcome : Except ArchiveError Unit)
    (later : World) :
    Returns Effect (writeStagingLease name) before outcome later ↔
      outcome = .ok () ∧ later = before.change name fun dir =>
        { dir with lease := .expires (before.clock + stagingLeaseSeconds) } := by
  have expiry : ∀ (answer : Except ArchiveError Nat) (later : World),
      Returns Effect (always (perform .leaseExpiry)) before answer later ↔
        answer = .ok (before.clock + stagingLeaseSeconds) ∧
          later = before := by
    intro answer later
    rw [returns_always]
    constructor
    · rintro ⟨value, rfl, run⟩
      have issued : respond .leaseExpiry before = (value, later) :=
        runs_perform.mp run
      cases issued
      exact ⟨rfl, rfl⟩
    · rintro ⟨rfl, rfl⟩
      exact ⟨_, rfl, runs_perform.mpr rfl⟩
  unfold writeStagingLease
  rw [returns_bind_of expiry, returns_writeLeaseWithExpiry stands]

theorem returns_writeMetadata
    (stands : before.area.entry name = some found)
    (metadata : FetchStagingMetadata)
    (outcome : Except ArchiveError Unit)
    (later : World) :
    Returns Effect (writeFetchStagingMetadata name metadata) before outcome
        later ↔
      outcome = .ok () ∧ later = before.change name fun dir =>
        { dir with identity := .decoded metadata } := by
  have renames : ∀ (answer : Except ArchiveError Unit) (later : World),
      Returns Effect (attempt (perform (.renameIdentity name metadata))) before
          answer later ↔
        answer = .ok () ∧ later = before.change name fun dir =>
          { dir with identity := .decoded metadata } := by
    intro answer later
    rw [returns_attempt, runs_perform]
    change before.within name _ = _ ↔ _
    rw [within_some stands, Prod.mk.injEq]
    exact and_congr eq_comm eq_comm
  unfold writeFetchStagingMetadata
  rw [returns_bind_of (returns_createPart stands),
    returns_bind_of returns_flush, returns_bind_of renames, returns_sync]

/-- What a reader of the identity is told. -/
def World.identity (world : World) (name : EntryName) :
    Except ArchiveError FetchStagingMetadata :=
  world.told name (fun found => found.dir.readIdentity) >>= checkMetadata

theorem returns_readMetadata
    (name : EntryName)
    (outcome : Except ArchiveError FetchStagingMetadata)
    (later : World) :
    Returns Effect (readFetchStagingMetadata name) before outcome later ↔
      outcome = before.identity name ∧ later = before := by
  have reads : ∀ (answer : Except ArchiveError FetchStagingMetadata)
      (later : World),
      Returns Effect (attempt (perform (.readIdentity name))) before answer
          later ↔
        answer = before.told name (fun found => found.dir.readIdentity) ∧
          later = before := by
    intro answer later
    rw [returns_attempt, runs_perform]
    exact within_view
  unfold readFetchStagingMetadata World.identity
  rw [returns_bind]
  simp only [reads]
  cases before.told name fun found => found.dir.readIdentity with
  | error error =>
      constructor
      · rintro (⟨_, rfl, same, rfl⟩ | ⟨value, middle, ⟨same, _⟩, _⟩)
        · exact ⟨same, rfl⟩
        · cases same
      · rintro ⟨rfl, rfl⟩
        exact Or.inl ⟨_, rfl, rfl, rfl⟩
  | ok metadata =>
      constructor
      · rintro (⟨_, rfl, same, rfl⟩ |
          ⟨value, middle, ⟨same, rfl⟩, rfl, rfl⟩)
        · cases same
        · cases same
          exact ⟨rfl, rfl⟩
      · rintro ⟨rfl, rfl⟩
        exact Or.inr ⟨metadata, later, ⟨rfl, rfl⟩, rfl, rfl⟩

theorem runs_readMetadata
    (name : EntryName)
    (answer : Except ArchiveError FetchStagingMetadata)
    (later : World) :
    (readFetchStagingMetadata name).run.Runs Effect before answer later ↔
      answer = before.identity name ∧ later = before :=
  returns_readMetadata name answer later

theorem checkMetadata_eq_ok
    {metadata checked : FetchStagingMetadata}
    (valid : checkMetadata metadata = .ok checked) :
    metadata = checked := by
  unfold checkMetadata at valid
  split at valid
  · cases valid
  · obtain ⟨_, _, valid⟩ := bind_eq_ok.mp valid
    obtain ⟨_, _, valid⟩ := bind_eq_ok.mp valid
    obtain ⟨_, _, valid⟩ := bind_eq_ok.mp valid
    cases valid
    rfl

theorem identity_eq_ok
    {world : World}
    {metadata : FetchStagingMetadata} :
    world.identity name = .ok metadata ↔
      ∃ found, world.area.entry name = some found ∧
        found.dir.identity = .decoded metadata ∧
        checkMetadata metadata = .ok metadata := by
  unfold World.identity
  cases stands : world.area.entry name with
  | none =>
      rw [told_none stands]
      constructor
      · intro same
        cases same
      · rintro ⟨found, same, _⟩
        cases same
  | some found =>
      rw [told_some stands, bind_eq_ok]
      constructor
      · rintro ⟨value, read, checked⟩
        obtain rfl := checkMetadata_eq_ok checked
        refine ⟨found, rfl, ?_, checked⟩
        unfold StagingDir.readIdentity at read
        split at read
        · cases read
        · cases read
        · next decoded =>
            cases read
            exact decoded
      · rintro ⟨other, same, decoded, checked⟩
        cases same
        refine ⟨metadata, ?_, checked⟩
        unfold StagingDir.readIdentity
        rw [decoded]

/-! ## Names -/

/-- Everything is as it was, but what was under the first name is gone and
this directory is under the second. -/
def Replaced (before after : World) (old new : EntryName)
    (entry : AreaEntry) : Prop :=
  after.clock = before.clock ∧
    ∀ other, after.area.entry other =
      if other = new then some entry
      else if other = old then none
      else before.area.entry other

theorem Replaced.change
    {old new : EntryName}
    {entry : AreaEntry}
    (replaced : Replaced before after old new entry)
    (change : StagingDir → StagingDir) :
    Replaced before (after.change new change) old new
      { entry with dir := change entry.dir } := by
  refine ⟨replaced.1, ?_⟩
  intro other
  by_cases same : other = new
  · subst same
    rw [if_pos rfl]
    apply entry_change_self
    rw [replaced.2, if_pos rfl]
  · rw [entry_change_of_ne same, replaced.2, if_neg same, if_neg same]

/-- Nothing happened. -/
theorem Replaced.refl
    {name : EntryName}
    {entry : AreaEntry}
    (stands : before.area.entry name = some entry) :
    Replaced before before name name entry := by
  refine ⟨rfl, ?_⟩
  intro other
  by_cases same : other = name
  · rw [if_pos same, same, stands]
  · rw [if_neg same, if_neg same]

theorem Replaced.trans
    {middle : World}
    {old new : EntryName}
    {entry entryToo : AreaEntry}
    (first : Replaced before middle old new entry)
    (second : Replaced middle after new new entryToo) :
    Replaced before after old new entryToo := by
  refine ⟨second.1.trans first.1, ?_⟩
  intro other
  by_cases same : other = new
  · rw [second.2, if_pos same, if_pos same]
  · rw [second.2, if_neg same, if_neg same, if_neg same, first.2,
      if_neg same]

theorem Replaced.clock
    {old new : EntryName}
    {entry : AreaEntry}
    (replaced : Replaced before after old new entry) :
    after.clock = before.clock := replaced.1

theorem Replaced.entry_new
    {old new : EntryName}
    {entry : AreaEntry}
    (replaced : Replaced before after old new entry) :
    after.area.entry new = some entry := by
  rw [replaced.2, if_pos rfl]

/-- What was changed in the directory before it went does not matter. -/
theorem Replaced.of_change
    {old new : EntryName}
    {entry : AreaEntry}
    {change : StagingDir → StagingDir}
    (replaced : Replaced (before.change old change) after old new entry) :
    Replaced before after old new entry := by
  refine ⟨replaced.1, ?_⟩
  intro other
  rw [replaced.2]
  by_cases same : other = old
  · rw [if_pos same, if_pos same]
  · rw [if_neg same, if_neg same, entry_change_of_ne same]

theorem runs_rename
    {new : EntryName}
    {reply : Except ArchiveError Unit}
    (stands : before.area.entry name = some found)
    (free : before.area.Free new)
    (run : (perform (.rename name new)).Runs Effect before reply after) :
    reply = .ok () ∧ Replaced before after name new found := by
  obtain ⟨area, moved⟩ := TemporaryArea.move_isSome stands free
  obtain ⟨_, same, _, _, entries⟩ := TemporaryArea.move_eq_some moved
  rw [stands] at same
  cases same
  have issued : before.within name _ = (reply, after) := runs_perform.mp run
  rw [within_some stands] at issued
  simp only [moved] at issued
  cases issued
  exact ⟨rfl, rfl, entries⟩

theorem returns_operationId
    {rest : String → Action ε β}
    {result : Except ε β} :
    Returns Effect (always (perform .operationId) >>= rest) before result
        after ↔
      ∃ id, id ∉ before.area.spent ∧
        Returns Effect (rest id) (before.draw id) result after := by
  rw [returns_always_bind]
  constructor
  · rintro ⟨id, middle, drawn, run⟩
    obtain ⟨unspent, rfl⟩ : id ∉ before.area.spent ∧
        middle = before.draw id := runs_perform.mp drawn
    exact ⟨id, unspent, run⟩
  · rintro ⟨id, unspent, run⟩
    exact ⟨id, before.draw id, runs_perform.mpr ⟨unspent, rfl⟩, run⟩

/-! ## Claims -/

/-- After relabelling a directory records the files of the request. -/
theorem returns_relabel
    {origin : World}
    {old : EntryName}
    {entry : AreaEntry}
    {metadata : FetchStagingMetadata}
    {files : List String}
    (replaced : Replaced origin before old name entry)
    (recorded : entry.dir.identity = .decoded metadata)
    {outcome : Except ArchiveError Unit}
    (run : Returns Effect (relabel name metadata files) before outcome after) :
    outcome = .ok () ∧ Replaced origin after old name { entry with dir :=
      { entry.dir with
        identity := .decoded { metadata with files := files } } } := by
  unfold relabel at run
  split at run
  · obtain ⟨rfl, rfl⟩ :=
      (returns_writeMetadata replaced.entry_new _ _ _).mp run
    exact ⟨rfl, replaced.change _⟩
  · next same =>
      obtain ⟨rfl, rfl⟩ := returns_check.mp run
      refine ⟨rfl, ?_⟩
      rw [← not_ne_iff.mp same, ← recorded]
      exact replaced

/-- A claim goes through: the directory has a fresh active name, a new lease
and the identity of the request. -/
theorem returns_claim
    {metadata : FetchStagingMetadata}
    {files : List String}
    {outcome : Except ArchiveError (Option FetchStaging)}
    (stands : before.area.entry name = some found)
    (recorded : found.dir.identity = .decoded metadata)
    (run : Returns Effect (claimFetchStaging name metadata files) before outcome
      after) :
    ∃ id, id ∉ before.area.spent ∧
      outcome = .ok (some ⟨.active id, true, metadata.resolvedCommit⟩) ∧
      Replaced before after name (.active id) { found with dir :=
        { found.dir with
          lease := .expires (before.clock + stagingLeaseSeconds)
          identity := .decoded { metadata with files := files } } } := by
  unfold claimFetchStaging at run
  obtain ⟨id, unspent, run⟩ := returns_operationId.mp run
  refine ⟨id, unspent, ?_⟩
  have free : (before.draw id).area.Free (.active id) :=
    TemporaryArea.free_of_drawn unspent rfl
  -- The lease of the old name is renewed first.
  obtain ⟨written, leased, writes, run⟩ := returns_always_bind.mp run
  have standsDrawn : (before.draw id).area.entry name = some found := stands
  obtain ⟨rfl, rfl⟩ := (returns_writeStagingLease standsDrawn _ _).mp writes
  have standsLeased := entry_change_self standsDrawn fun dir =>
    { dir with lease := .expires (before.clock + stagingLeaseSeconds) }
  obtain ⟨renamed, moved, renames, run⟩ := returns_always_bind.mp run
  obtain ⟨rfl, replaced⟩ :=
    runs_rename standsLeased (free_change free _ _) renames
  replace replaced := replaced.of_change
  have clock : moved.clock = before.clock := replaced.clock
  -- Then the one of the new name.
  have standsNew := replaced.entry_new
  dsimp only at run
  unfold finishClaim at run
  rw [returns_bind_of (returns_writeStagingLease standsNew)] at run
  replace replaced := replaced.change fun dir =>
    { dir with lease := .expires (moved.clock + stagingLeaseSeconds) }
  rw [clock] at replaced run
  obtain ⟨error, rfl, failed⟩ | ⟨⟨⟩, labelled, relabels, run⟩ :=
    returns_bind.mp run
  · cases (returns_relabel replaced recorded failed).1
  replace replaced := (returns_relabel replaced recorded relabels).2
  rw [returns_bind_of returns_sync] at run
  obtain ⟨rfl, rfl⟩ := returns_check.mp run
  exact ⟨rfl, replaced⟩

end directory

end Staging
end ModelKeep
