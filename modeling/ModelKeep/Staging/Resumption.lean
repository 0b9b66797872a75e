import ModelKeep.Staging.Live

/-!
# What the next acquisition resumes

The first scan of an acquisition stops at an abandoned directory that it does
not pass over, and which one comes first is up to the listing.  So a commit is
resumed for certain exactly when every directory that stops the scan stands
for it.
-/

namespace ModelKeep
namespace Staging

open Concurrency Program

variable {before after : World} {request : StagingRequest}

/-! ## The directory that stops the scan -/

/-- The first scan stops at this directory, whatever comes of it. -/
def World.Stops (world : World) (request : StagingRequest)
    (name : EntryName) : Prop :=
  (world.area.entry name).isSome ∧
    world.judgeAbandoned request world.clock (.ok (name, true)) ≠ .pass

/-- What an acquisition returns that stopped here. -/
def World.StopsWith (world : World) (request : StagingRequest)
    (name : EntryName) (outcome : Except FetchStagingError FetchStaging) :
    Prop :=
  match world.judgeAbandoned request world.clock (.ok (name, true)) with
  | .pass => False
  | .refuse error => outcome = .error error
  | .adopt _ metadata => ∃ id,
      outcome = .ok ⟨.active id, true, metadata.resolvedCommit⟩

theorem judgeAbandoned_of_file
    {now : Nat}
    {name : EntryName} :
    before.judgeAbandoned request now (.ok (name, false)) = .pass := by
  cases name <;> rfl

theorem stopsWith_of_ends
    {name : EntryName}
    {outcome : Except FetchStagingError (Option FetchStaging)}
    (ends : (before.judgeAbandoned request before.clock
      (.ok (name, true))).Ends request.files before outcome after)
    (stops : before.Stops request name) :
    (∃ error, outcome = .error error ∧
      before.StopsWith request name (.error error)) ∨
    ∃ staging, outcome = .ok (some staging) ∧
      before.StopsWith request name (.ok staging) := by
  unfold World.StopsWith
  cases judged : before.judgeAbandoned request before.clock
      (.ok (name, true)) with
  | pass => exact absurd judged stops.2
  | refuse error =>
      rw [judged] at ends
      exact Or.inl ⟨error, ends.1, rfl⟩
  | adopt staging metadata =>
      rw [judged] at ends
      obtain ⟨found, _, stands, recorded, _⟩ :=
        (adoptable_of_abandoned judged).recorded
      obtain ⟨answer, rfl, claims⟩ := returns_archived.mp ends
      obtain ⟨id, _, rfl, _⟩ := returns_claim stands recorded claims
      exact Or.inr ⟨_, rfl, id, rfl⟩

theorem still_visitAbandoned
    {now : Nat}
    {entry : DirEntry}
    (visited : Returns Effect (visitAbandoned request now entry) before
      (.ok none) after) :
    after = before :=
  (Verdict.Ends.eq_pass ((returns_visitAbandoned entry).mp visited)
    fun _ _ => adoptable_of_abandoned).2

/-- The looks that an acquisition begins with. -/
theorem returns_acquire_iff
    {outcome : Except FetchStagingError FetchStaging}
    (valid : validateRequest request = .ok ()) :
    Returns Effect (acquireFetchStaging request) before outcome after ↔
      ∃ listed, Listing before.area listed ∧
        Returns Effect (do
          match ← firstOf (visitAbandoned request before.clock) listed with
          | some claimed => check (.ok claimed)
          | none => do
              let listed ← archived (attempt (perform .readDir))
              match ← firstOf (visitActive request before.clock) listed with
              | some claimed => check (.ok claimed)
              | none => archived (createFetchStaging request)) before outcome
          after := by
  have checked : ∀ answer later, Returns Effect
      (archived (check (validateRequest request))) before answer later ↔
        answer = .ok () ∧ later = before := by
    intro answer later
    rw [returns_archived, valid]
    constructor
    · rintro ⟨_, rfl, rfl, rfl⟩
      exact ⟨rfl, rfl⟩
    · rintro ⟨rfl, rfl⟩
      exact ⟨.ok (), rfl, rfl, rfl⟩
  have asked : ∀ now later,
      (perform .unixTimestamp).Runs Effect before now later ↔
        now = before.clock ∧ later = before := by
    intro now later
    rw [runs_perform]
    change (_, _) = (_, _) ↔ _
    rw [Prod.mk.injEq]
    exact and_congr eq_comm eq_comm
  unfold acquireFetchStaging
  rw [returns_bind_of checked, returns_always_of asked]
  exact returns_readDir

/-- An acquisition whose first scan is stopped ends where it was. -/
theorem stopped_of_acquire
    {outcome : Except FetchStagingError FetchStaging}
    {name : EntryName}
    (valid : validateRequest request = .ok ())
    (stops : before.Stops request name)
    (run : Returns Effect (acquireFetchStaging request) before outcome
      after) :
    ∃ other, before.Stops request other ∧
      before.StopsWith request other outcome := by
  obtain ⟨listed, listing, scanned⟩ := (returns_acquire_iff valid).mp run
  have ends : ∀ answer later,
      Returns Effect (firstOf (visitAbandoned request before.clock) listed)
        before answer later →
      ∃ other, before.Stops request other ∧
        (before.judgeAbandoned request before.clock
          (.ok (other, true))).Ends request.files before answer later := by
    intro answer later found
    obtain ⟨entries, rfl, _, complete⟩ := listing
    rcases (returns_firstOf fun _ _ _ => still_visitAbandoned).mp found with
      ⟨_, _, passed⟩ | ⟨different, earlier, entry, rest, split, _, visited⟩
    · -- The directory that stops the scan is listed.
      have visited := passed (.ok (name, true))
        (List.mem_map_of_mem ((complete name).mpr stops.1))
      have pass := Verdict.Ends.eq_pass
        ((returns_visitAbandoned _).mp visited) fun _ _ =>
          adoptable_of_abandoned
      exact absurd pass.1 stops.2
    · have member : entry ∈ entries.map Except.ok := by
        rw [split]
        exact List.mem_append_right _ List.mem_cons_self
      obtain ⟨⟨other, isDirectory⟩, listedToo, rfl⟩ := List.mem_map.mp member
      replace visited := (returns_visitAbandoned _).mp visited
      cases isDirectory with
      | false =>
          rw [judgeAbandoned_of_file] at visited
          exact absurd visited.1 different
      | true =>
          refine ⟨other, ⟨(complete other).mp listedToo, ?_⟩, visited⟩
          intro pass
          rw [pass] at visited
          exact different visited.1
  rcases returns_bind.mp scanned with
    ⟨error, rfl, failed⟩ | ⟨claimed, middle, found, last⟩
  · obtain ⟨other, stopsToo, ended⟩ := ends _ _ failed
    rcases stopsWith_of_ends ended stopsToo with
      ⟨_, same, decided⟩ | ⟨_, same, _⟩
    · cases same
      exact ⟨other, stopsToo, decided⟩
    · cases same
  · obtain ⟨other, stopsToo, ended⟩ := ends _ _ found
    rcases stopsWith_of_ends ended stopsToo with
      ⟨_, same, _⟩ | ⟨staging, same, decided⟩
    · cases same
    · cases same
      obtain ⟨rfl, _⟩ := returns_check.mp last
      exact ⟨other, stopsToo, decided⟩

/-- The listing may name any directory first. -/
theorem exists_acquire
    {name : EntryName}
    (valid : validateRequest request = .ok ())
    (stops : before.Stops request name) :
    ∃ outcome after,
      Returns Effect (acquireFetchStaging request) before outcome after ∧
        before.StopsWith request name outcome := by
  let names := before.area.names.dedup.erase name
  have member : name ∈ before.area.names.dedup :=
    List.mem_dedup.mpr ((before.area.mem_names name).mpr stops.1)
  have perm : (name :: names).Perm before.area.names.dedup :=
    (List.perm_cons_erase member).symm
  have listing : Listing before.area
      (.ok (name, true) :: names.map fun other => .ok (other, true)) := by
    refine ⟨(name :: names).map fun other => (other, true), by simp, ?_, ?_⟩
    · rw [List.map_map]
      have nodup := perm.nodup_iff.mpr before.area.names.nodup_dedup
      simpa [Function.comp_def] using nodup
    · intro other
      rw [← before.area.mem_names, ← perm.mem_iff.trans List.mem_dedup]
      simp
  obtain ⟨found, after, visited⟩ : ∃ found after, Returns Effect
      (visitAbandoned request before.clock (.ok (name, true))) before found
      after :=
    ⟨_, _, runs_run effect_respond (visitAbandoned _ _ _).run before⟩
  have scans : found ≠ .ok none →
      Returns Effect (firstOf (visitAbandoned request before.clock)
        (.ok (name, true) :: names.map fun other => .ok (other, true)))
        before found after := by
    intro different
    exact (returns_firstOf fun _ _ _ => still_visitAbandoned).mpr
      (Or.inr ⟨different, [], _, _, rfl, by simp, visited⟩)
  rcases stopsWith_of_ends ((returns_visitAbandoned _).mp visited) stops with
    ⟨error, rfl, decided⟩ | ⟨staging, rfl, decided⟩
  · refine ⟨.error error, after, (returns_acquire_iff valid).mpr
      ⟨_, listing, ?_⟩, decided⟩
    exact returns_bind.mpr (Or.inl ⟨error, rfl, scans (by simp)⟩)
  · refine ⟨.ok staging, after, (returns_acquire_iff valid).mpr
      ⟨_, listing, ?_⟩, decided⟩
    exact returns_bind.mpr (Or.inr ⟨some staging, after, scans (by simp),
      returns_check.mpr ⟨rfl, rfl⟩⟩)

/-! ## What is resumed -/

/-- Every acquisition for the request resumes the commit. -/
def World.Resumes (world : World) (request : StagingRequest)
    (commit : String) : Prop :=
  ∀ outcome after,
    Returns Effect (acquireFetchStaging request) world outcome after →
    ∃ staging, outcome = .ok staging ∧ staging.resumed = true ∧
      staging.resolvedCommit = some commit

/-- The directory is passed over, or it is adopted and stands for the
commit. -/
def World.Agrees (world : World) (request : StagingRequest)
    (commit : String) (name : EntryName) : Prop :=
  match world.judgeAbandoned request world.clock (.ok (name, true)) with
  | .pass => True
  | .refuse _ => False
  | .adopt _ metadata => metadata.resolvedCommit = some commit

/-- Where a directory is adopted, its commit is resumed for certain exactly
when every directory agrees. -/
theorem resumes_iff
    {commit : String}
    {name : EntryName}
    (valid : validateRequest request = .ok ())
    (stops : before.Stops request name) :
    before.Resumes request commit ↔
      ∀ other, (before.area.entry other).isSome →
        before.Agrees request commit other := by
  constructor
  · intro resumes other present
    unfold World.Agrees
    by_cases pass : before.judgeAbandoned request before.clock
        (.ok (other, true)) = .pass
    · rw [pass]
      trivial
    obtain ⟨outcome, after, run, decided⟩ :=
      exists_acquire valid ⟨present, pass⟩
    obtain ⟨staging, rfl, _, resolved⟩ := resumes outcome after run
    unfold World.StopsWith at decided
    split at decided
    · exact decided.elim
    · cases decided
    · obtain ⟨id, same⟩ := decided
      cases same
      exact resolved
  · intro agrees outcome after run
    obtain ⟨other, stopsToo, decided⟩ := stopped_of_acquire valid stops run
    have agreed := agrees other stopsToo.1
    unfold World.Agrees at agreed
    unfold World.StopsWith at decided
    split at decided
    · exact decided.elim
    · next judged => simp only [judged] at agreed
    · next judged =>
        obtain ⟨id, rfl⟩ := decided
        simp only [judged] at agreed
        exact ⟨_, rfl, rfl, agreed⟩

/-! ## Areas that differ in one directory -/

/-- One directory aside, the same directories are under the same names. -/
def SameBeside (inode : Nat) (before after : TemporaryArea) : Prop :=
  ∀ name found, found.inode ≠ inode →
    (before.entry name = some found ↔ after.entry name = some found)

theorem SameBeside.trans
    {inode : Nat}
    {first second third : TemporaryArea}
    (earlier : SameBeside inode first second)
    (later : SameBeside inode second third) :
    SameBeside inode first third :=
  fun name found other =>
    (earlier name found other).trans (later name found other)

theorem Replaced.sameBeside
    {old new : EntryName}
    {entry : AreaEntry}
    (replaced : Replaced before after old new entry)
    (isOld : ∀ found, before.area.entry old = some found →
      found.inode = entry.inode)
    (isNew : ∀ found, before.area.entry new = some found →
      found.inode = entry.inode) :
    SameBeside entry.inode before.area after.area := by
  intro name found different
  rw [replaced.2]
  by_cases new : name = new
  · subst new
    rw [if_pos rfl]
    constructor
    · exact fun stands => absurd (isNew found stands) different
    · rintro ⟨⟩
      exact absurd rfl different
  · rw [if_neg new]
    by_cases old : name = old
    · subst old
      rw [if_pos rfl]
      constructor
      · exact fun stands => absurd (isOld found stands) different
      · intro same
        cases same
    · rw [if_neg old]

theorem sameBeside_change
    {name : EntryName}
    {entry : AreaEntry}
    (stands : before.area.entry name = some entry)
    (change : StagingDir → StagingDir) :
    SameBeside entry.inode before.area (before.change name change).area := by
  have same := (Replaced.refl stands).change change
  have stood : ∀ found, before.area.entry name = some found →
      found.inode = entry.inode := by
    intro found standsToo
    rw [stands] at standsToo
    cases standsToo
    rfl
  exact same.sameBeside stood stood

theorem World.Agrees.congr
    {commit : String}
    {name : EntryName}
    {area areaToo : TemporaryArea}
    {now : Nat}
    (same : area.entry name = areaToo.entry name) :
    World.Agrees ⟨area, now⟩ request commit name ↔
      World.Agrees ⟨areaToo, now⟩ request commit name := by
  have judged : World.judgeAbandoned ⟨area, now⟩ request now
      (.ok (name, true)) = World.judgeAbandoned ⟨areaToo, now⟩ request now
        (.ok (name, true)) := by
    cases name with
    | other name => rfl
    | active id => rfl
    | abandoned id =>
        unfold World.judgeAbandoned World.weigh World.identity World.told
        dsimp only
        rw [same]
  unfold World.Agrees
  dsimp only
  rw [judged]

/-- The other directories do not keep the request from resuming the commit. -/
def Undisturbed (area : TemporaryArea) (inode now : Nat)
    (request : StagingRequest) (commit : String) : Prop :=
  ∀ name found, area.entry name = some found → found.inode ≠ inode →
    World.Agrees ⟨area, now⟩ request commit name

theorem SameBeside.undisturbed_iff
    {inode now : Nat}
    {commit : String}
    {area areaToo : TemporaryArea}
    (same : SameBeside inode area areaToo) :
    Undisturbed area inode now request commit ↔
      Undisturbed areaToo inode now request commit := by
  apply forall₂_congr
  intro name found
  constructor
  · intro agrees stands other
    have stood := (same name found other).mpr stands
    exact (World.Agrees.congr (stood.trans stands.symm)).mp
      (agrees stood other)
  · intro agrees stands other
    have stood := (same name found other).mp stands
    exact (World.Agrees.congr (stood.trans stands.symm)).mp
      (agrees stood other)

/-- An operation id that was not drawn names nothing. -/
theorem entry_of_unspent
    {area : TemporaryArea}
    {name : EntryName}
    {id : String}
    (unspent : id ∉ area.spent)
    (named : name.operation = some id) :
    area.entry name = none := by
  rw [Option.eq_none_iff_forall_ne_some]
  intro found stands
  exact unspent (area.issued name id (by rw [stands]; rfl) named)

/-- Staging that is handed over has a valid identity, and nothing else
changes. -/
theorem handed_of_acquire
    {staging : FetchStaging}
    (run : Returns Effect (acquireFetchStaging request) before (.ok staging)
      after) :
    ∃ entry, after.area.entry staging.path = some entry ∧
      SettledDir entry.dir ∧ SameBeside entry.inode before.area after.area := by
  generalize handed : (.ok staging : Except FetchStagingError FetchStaging) =
    outcome at run
  cases returns_acquire run with
  | invalid => cases handed
  | refused => cases handed
  | adopted valid adoptable claims =>
      cases handed
      obtain ⟨found, _, stands, recorded, _⟩ := adoptable.recorded
      obtain ⟨id, unspent, same, replaced⟩ :=
        returns_claim stands recorded claims
      cases same
      refine ⟨_, replaced.entry_new, (settledDir_of_adopted valid
        adoptable.valid adoptable.sameRevision).1, replaced.sameBeside ?_ ?_⟩
      · intro other standsToo
        rw [stands] at standsToo
        cases standsToo
        rfl
      · intro other standsToo
        rw [entry_of_unspent unspent rfl] at standsToo
        cases standsToo
  | created valid passes creates =>
      obtain ⟨id, inode, unspent, rfl, replaced⟩ :=
        returns_createFetchStaging creates
      cases handed
      have absent : ∀ other, before.area.entry (.active id) = some other →
          other.inode = inode := by
        intro other stands
        rw [entry_of_unspent unspent rfl] at stands
        cases stands
      refine ⟨_, replaced.entry_new, ⟨⟨_, rfl⟩, _, rfl, ?_⟩,
        replaced.sameBeside absent absent⟩
      refine checkMetadata_iff.mpr ⟨⟨rfl, ?_⟩, valid⟩
      intro commit recorded
      cases recorded

end Staging
end ModelKeep
