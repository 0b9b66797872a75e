import ModelKeep.Staging.Interleaving

/-!
# Adoption is exclusive

The argument is about directories and not about names.  A name is given to one
directory once and for all, so a call that has read an expired lease under a
name knows that nobody keeps staging there any more and never will.  Whoever
renames, removes or gives up a directory either owns it or has that knowledge,
hence nothing happens to staging whose acquisition runs.
-/

namespace ModelKeep
namespace Staging

open Concurrency Program

variable {ι : Type}

/-! ## What the calls know -/

/-- The call may give this name to a directory. -/
def Mine (actor : ι) (name : EntryName) (shared : Shared ι) : Prop :=
  ∃ id, name.operation = some id ∧ shared.drawn id = some actor ∧
    shared.bound name = none

/-- The name was given to the directory, and nobody keeps staging there. -/
def Open (name : EntryName) (inode : Nat) (shared : Shared ι) : Prop :=
  shared.bound name = some inode ∧ shared.owner name = none

/-- The call keeps its staging in this directory. -/
def Owns (actor : ι) (name : EntryName) (inode : Nat)
    (shared : Shared ι) : Prop :=
  shared.owner name = some actor ∧ shared.inodeAt name = some inode

/-- The directory was read by the call as the request demands: first its
identity, later a lease that had expired by then. -/
def Adopted (request : StagingRequest) (readings : List Reading)
    (inode : Nat) (commit : Option String) : Prop :=
  ∃ metadata resolved, commit = some resolved ∧
    .identity inode metadata ∈ readings ∧
    namesSameRevision metadata request = true ∧
    stagingSelectionIsAdoptable metadata.files request.files = true ∧
    metadata.resolvedCommit = some resolved ∧
    ∃ expiresAt clock, .lease inode expiresAt clock ∈ readings ∧
      expiresAt ≤ clock

/-- What holds of staging from its return on. -/
def Granted (calls : ι → Call) (actor : ι) (staging : FetchStaging)
    (shared : Shared ι) : Prop :=
  ∃ inode, Owns actor staging.path inode shared ∧
    ∃ acquisition, calls actor = .acquire acquisition ∧
      (staging.resumed = true →
        Adopted acquisition.request (shared.readings actor) inode
          staging.resolvedCommit)

/-! ## The invariant -/

/-- What every reachable state satisfies. -/
structure Sound (calls : ι → Call) (shared : Shared ι) : Prop where
  located : ∀ name found, shared.world.area.entry name = some found →
    shared.bound name = some found.inode
  named : ∀ name inode, shared.bound name = some inode →
    ∀ id, name.operation = some id → id ∈ shared.world.area.spent
  drawn : ∀ id actor, shared.drawn id = some actor →
    id ∈ shared.world.area.spent
  owned : ∀ name actor, shared.owner name = some actor →
    shared.bound name ≠ none
  last : LeasesLast shared shared.world.clock
  claims : ∀ actor name, shared.claiming actor = some name →
    shared.bound name ≠ none ∧ shared.owner name = none
  granted : ∀ actor staging, shared.returned actor = some staging →
    Granted calls actor staging shared

/-- What a call may rely on while others move. -/
structure Rely (actor : ι) (before after : Shared ι) : Prop where
  clock : before.world.clock ≤ after.world.clock
  bound : ∀ name inode, before.bound name = some inode →
    after.bound name = some inode
  drawn : ∀ id someone, before.drawn id = some someone →
    after.drawn id = some someone
  mine : ∀ name id, name.operation = some id →
    before.drawn id = some actor → before.bound name = none →
      after.bound name = none
  owned : ∀ name inode, Owns actor name inode before →
    Owns actor name inode after
  unowned : ∀ name, before.bound name ≠ none → before.owner name = none →
    after.owner name = none
  claiming : after.claiming actor = before.claiming actor
  pledge : after.pledge actor = before.pledge actor
  readings : after.readings actor = before.readings actor
  returned : after.returned actor = before.returned actor

/-- What no step takes back, whoever makes it. -/
structure Onward (actor : ι) (before after : Shared ι) : Prop where
  clock : before.world.clock ≤ after.world.clock
  bound : ∀ name inode, before.bound name = some inode →
    after.bound name = some inode
  opened : ∀ name inode, Open name inode before → Open name inode after
  readings : before.readings actor ⊆ after.readings actor

/-- A call guarantees to each other call what that one relies on. -/
structure Guarantee (actor : ι) (before after : Shared ι) : Prop where
  onward : Onward actor before after
  others : ∀ other, other ≠ actor → Rely other before after

theorem Rely.onward
    {actor : ι}
    {before after : Shared ι}
    (rely : Rely actor before after) :
    Onward actor before after := by
  refine ⟨rely.clock, rely.bound, ?_, rely.readings ▸ List.Subset.refl _⟩
  rintro name inode ⟨bound, unowned⟩
  refine ⟨rely.bound name inode bound, rely.unowned name ?_ unowned⟩
  rw [bound]
  simp

theorem Rely.refl (actor : ι) (shared : Shared ι) :
    Rely actor shared shared :=
  ⟨Nat.le_refl _, fun _ _ bound => bound, fun _ _ drawn => drawn,
    fun _ _ _ _ unbound => unbound, fun _ _ owns => owns,
    fun _ _ unowned => unowned, rfl, rfl, rfl, rfl⟩

theorem Rely.trans
    {actor : ι}
    {first second third : Shared ι}
    (earlier : Rely actor first second)
    (later : Rely actor second third) :
    Rely actor first third where
  clock := Nat.le_trans earlier.clock later.clock
  bound := fun name inode bound =>
    later.bound name inode (earlier.bound name inode bound)
  drawn := fun id someone drawn =>
    later.drawn id someone (earlier.drawn id someone drawn)
  mine := fun name id named drawn unbound =>
    later.mine name id named (earlier.drawn id actor drawn)
      (earlier.mine name id named drawn unbound)
  owned := fun name inode owns =>
    later.owned name inode (earlier.owned name inode owns)
  unowned := by
    intro name bound unowned
    obtain ⟨inode, given⟩ := Option.ne_none_iff_exists'.mp bound
    apply later.unowned name
    · rw [earlier.bound name inode given]
      simp
    · exact earlier.unowned name bound unowned
  claiming := later.claiming.trans earlier.claiming
  pledge := later.pledge.trans earlier.pledge
  readings := later.readings.trans earlier.readings
  returned := later.returned.trans earlier.returned

/-! ## Steps that move no directory -/

/-- Directories stay where they are, leases are at most lost, and the record
of the other calls stays as it is. -/
structure Quiet (actor : ι) (before after : Shared ι) : Prop where
  clock : after.world.clock = before.world.clock
  inode : ∀ name, after.inodeAt name = before.inodeAt name
  lease : ∀ name found foundNow,
    before.world.area.entry name = some found →
      after.world.area.entry name = some foundNow →
        foundNow.dir.lease = found.dir.lease ∨
          foundNow.dir.lease = .absent
  spent : ∀ id ∈ before.world.area.spent, id ∈ after.world.area.spent
  bound : after.bound = before.bound
  drawn : ∀ id someone, before.drawn id = some someone →
    after.drawn id = some someone
  drawnNew : ∀ id someone, after.drawn id = some someone →
    id ∈ after.world.area.spent
  owner : ∀ name, after.owner name = before.owner name ∨
    (before.owner name = some actor ∧ after.owner name = none ∧
      after.returned actor = none)
  claiming : ∀ someone name, after.claiming someone = some name →
    before.claiming someone = some name
  pledge : ∀ someone expiresAt, after.pledge someone = some expiresAt →
    before.world.clock < expiresAt
  readings : ∀ someone, before.readings someone ⊆ after.readings someone
  returned : ∀ someone staging, after.returned someone = some staging →
    before.returned someone = some staging
  others : ∀ other, other ≠ actor →
    after.claiming other = before.claiming other ∧
      after.pledge other = before.pledge other ∧
      after.readings other = before.readings other ∧
      after.returned other = before.returned other

theorem Adopted.mono
    {request : StagingRequest}
    {readings more : List Reading}
    {inode : Nat}
    {commit : Option String}
    (adopted : Adopted request readings inode commit)
    (grown : readings ⊆ more) :
    Adopted request more inode commit := by
  obtain ⟨metadata, resolved, same, identity, names, adoptable, recorded,
    expiresAt, clock, lease, expired⟩ := adopted
  exact ⟨metadata, resolved, same, grown identity, names, adoptable, recorded,
    expiresAt, clock, grown lease, expired⟩

namespace Quiet

variable {actor : ι} {before after : Shared ι}

theorem entry
    (quiet : Quiet actor before after)
    {name : EntryName}
    {foundNow : AreaEntry}
    (stands : after.world.area.entry name = some foundNow) :
    ∃ found, before.world.area.entry name = some found ∧
      found.inode = foundNow.inode ∧
      (foundNow.dir.lease = found.dir.lease ∨
        foundNow.dir.lease = .absent) := by
  have same := quiet.inode name
  unfold Shared.inodeAt at same
  rw [stands, Option.map_some] at same
  obtain ⟨found, stood, inode⟩ := Option.map_eq_some_iff.mp same.symm
  exact ⟨found, stood, inode, quiet.lease name found foundNow stood stands⟩

theorem owner_none
    (quiet : Quiet actor before after)
    {name : EntryName}
    (unowned : before.owner name = none) :
    after.owner name = none := by
  rcases quiet.owner name with same | ⟨_, released, _⟩
  · rw [same, unowned]
  · exact released

theorem owner_some
    (quiet : Quiet actor before after)
    {name : EntryName}
    {someone : ι}
    (owned : after.owner name = some someone) :
    before.owner name = some someone := by
  rcases quiet.owner name with same | ⟨_, released, _⟩
  · rw [← same, owned]
  · rw [released] at owned
    cases owned

theorem last
    (quiet : Quiet actor before after)
    (last : LeasesLast before before.world.clock) :
    LeasesLast after after.world.clock := by
  rw [quiet.clock]
  refine ⟨quiet.pledge, ?_, ?_⟩
  · intro name foundNow expiresAt owned stands expires
    obtain ⟨found, stood, _, lease⟩ := quiet.entry stands
    apply last.owned name found expiresAt _ stood
    · rcases lease with same | lost
      · rw [← same, expires]
      · rw [expires] at lost
        cases lost
    · intro unowned
      exact owned (quiet.owner_none unowned)
  · intro someone name foundNow expiresAt claims stands expires
    obtain ⟨found, stood, _, lease⟩ := quiet.entry stands
    apply last.claimed someone name found expiresAt
      (quiet.claiming someone name claims) stood
    rcases lease with same | lost
    · rw [← same, expires]
    · rw [expires] at lost
      cases lost

theorem sound
    {calls : ι → Call}
    (quiet : Quiet actor before after)
    (sound : Sound calls before) :
    Sound calls after where
  located := by
    intro name foundNow stands
    obtain ⟨found, stood, inode, _⟩ := quiet.entry stands
    rw [quiet.bound, sound.located name found stood, inode]
  named := by
    intro name inode bound id operation
    rw [quiet.bound] at bound
    exact quiet.spent id (sound.named name inode bound id operation)
  drawn := quiet.drawnNew
  owned := by
    intro name someone owned
    rw [quiet.bound]
    exact sound.owned name someone (quiet.owner_some owned)
  last := quiet.last sound.last
  claims := by
    intro someone name claims
    obtain ⟨bound, unowned⟩ :=
      sound.claims someone name (quiet.claiming someone name claims)
    rw [quiet.bound]
    exact ⟨bound, quiet.owner_none unowned⟩
  granted := by
    intro someone staging returned
    obtain ⟨inode, ⟨owned, stands⟩, acquisition, call, adopted⟩ :=
      sound.granted someone staging (quiet.returned someone staging returned)
    refine ⟨inode, ⟨?_, ?_⟩, acquisition, call, ?_⟩
    · rcases quiet.owner staging.path with same | ⟨wasMine, _, none⟩
      · rw [same, owned]
      · rw [owned] at wasMine
        cases wasMine
        rw [none] at returned
        cases returned
    · rw [quiet.inode, stands]
    · intro resumed
      exact (adopted resumed).mono (quiet.readings someone)

theorem guarantee (quiet : Quiet actor before after) :
    Guarantee actor before after := by
  refine ⟨⟨quiet.clock.ge, fun _ _ bound => by rw [quiet.bound, bound], ?_,
    quiet.readings actor⟩, ?_⟩
  · rintro name inode ⟨bound, unowned⟩
    exact ⟨by rw [quiet.bound, bound], quiet.owner_none unowned⟩
  intro other different
  obtain ⟨claiming, pledge, readings, returned⟩ :=
    quiet.others other different
  refine ⟨quiet.clock.ge, ?_, quiet.drawn, ?_, ?_, ?_, claiming, pledge,
    readings, returned⟩
  · intro name inode bound
    rw [quiet.bound, bound]
  · intro name id _ _ unbound
    rw [quiet.bound, unbound]
  · rintro name inode ⟨owned, stands⟩
    refine ⟨?_, by rw [quiet.inode, stands]⟩
    rcases quiet.owner name with same | ⟨wasMine, _, _⟩
    · rw [same, owned]
    · rw [owned] at wasMine
      cases wasMine
      exact absurd rfl different
  · intro name _ unowned
    exact quiet.owner_none unowned

end Quiet

/-- What a step may do inside directories: contents change, and a lease is at
most lost. -/
structure Calm (before after : World) : Prop where
  clock : after.clock = before.clock
  inode : ∀ name, (after.area.entry name).map AreaEntry.inode =
    (before.area.entry name).map AreaEntry.inode
  lease : ∀ name found foundNow, before.area.entry name = some found →
    after.area.entry name = some foundNow →
      foundNow.dir.lease = found.dir.lease ∨ foundNow.dir.lease = .absent
  spent : ∀ id ∈ before.area.spent, id ∈ after.area.spent

theorem Calm.refl (world : World) : Calm world world := by
  refine ⟨rfl, fun _ => rfl, ?_, fun _ member => member⟩
  intro name found foundNow stands standsNow
  rw [stands] at standsNow
  cases standsNow
  exact Or.inl rfl

theorem calm_update
    (world : World)
    (name : EntryName)
    (change : StagingDir → StagingDir)
    (keeps : ∀ dir, (change dir).lease = dir.lease ∨
      (change dir).lease = .absent) :
    Calm world { world with area := world.area.update name change } := by
  refine ⟨rfl, fun other => TemporaryArea.inode_update _ _ _ _, ?_,
    fun _ member => member⟩
  intro other found foundNow stands standsNow
  rw [TemporaryArea.entry_update, stands, Option.map_some,
    Option.some.injEq] at standsNow
  subst standsNow
  split
  · exact keeps found.dir
  · exact Or.inl rfl

section record

variable [DecidableEq ι] {calls : ι → Call} {actor : ι} {before : Shared ι}

omit [DecidableEq ι] in
/-- A quiet record of a calm step. -/
theorem Quiet.calm
    {recorded : Shared ι}
    {world : World}
    (quiet : Quiet actor before recorded)
    (same : recorded.world = before.world)
    (calm : Calm before.world world) :
    Quiet actor before { recorded with world := world } where
  clock := calm.clock
  inode := calm.inode
  lease := calm.lease
  spent := calm.spent
  bound := quiet.bound
  drawn := quiet.drawn
  drawnNew := by
    intro id someone drawn
    have spent := quiet.drawnNew id someone drawn
    rw [same] at spent
    exact calm.spent id spent
  owner := quiet.owner
  claiming := quiet.claiming
  pledge := quiet.pledge
  readings := quiet.readings
  returned := quiet.returned
  others := quiet.others

omit [DecidableEq ι] in
theorem quiet_refl (actor : ι) (sound : Sound calls before) :
    Quiet actor before before where
  clock := rfl
  inode := fun _ => rfl
  lease := (Calm.refl before.world).lease
  spent := fun _ member => member
  bound := rfl
  drawn := fun _ _ drawn => drawn
  drawnNew := sound.drawn
  owner := fun _ => Or.inl rfl
  claiming := fun _ _ claims => claims
  pledge := sound.last.pledged
  readings := fun _ => List.Subset.refl _
  returned := fun _ _ returned => returned
  others := fun _ _ => ⟨rfl, rfl, rfl, rfl⟩

theorem quiet_note (sound : Sound calls before) (reading : Reading) :
    Quiet actor before (before.note actor reading) :=
  { quiet_refl actor sound with
    readings := by
      intro someone
      by_cases same : someone = actor
      · subst same
        simp [Shared.note]
      · simp [Shared.note, same]
    others := by
      intro other different
      simp [Shared.note, different] }

theorem quiet_setPledge
    (sound : Sound calls before)
    (pledge : Option Nat)
    (later : ∀ expiresAt, pledge = some expiresAt →
      before.world.clock < expiresAt) :
    Quiet actor before (before.setPledge actor pledge) :=
  { quiet_refl actor sound with
    pledge := by
      intro someone expiresAt pledged
      dsimp only [Shared.setPledge] at pledged
      by_cases same : someone = actor
      · subst same
        rw [Function.update_self] at pledged
        exact later expiresAt pledged
      · rw [Function.update_of_ne same] at pledged
        exact sound.last.pledged someone expiresAt pledged
    others := by
      intro other different
      simp [Shared.setPledge, different] }

theorem quiet_setClaiming (sound : Sound calls before) :
    Quiet actor before (before.setClaiming actor none) :=
  { quiet_refl actor sound with
    claiming := by
      intro someone name claims
      dsimp only [Shared.setClaiming] at claims
      by_cases same : someone = actor
      · subst same
        rw [Function.update_self] at claims
        cases claims
      · rwa [Function.update_of_ne same] at claims
    others := by
      intro other different
      simp [Shared.setClaiming, different] }

/-- The call no longer uses its staging. -/
theorem quiet_handBack (sound : Sound calls before) :
    Quiet actor before
      { before with
        returned := Function.update before.returned actor none } :=
  { quiet_refl actor sound with
    owner := fun _ => Or.inl rfl
    returned := by
      intro someone staging returned
      dsimp only at returned
      by_cases same : someone = actor
      · rw [same, Function.update_self] at returned
        cases returned
      · rwa [Function.update_of_ne same] at returned
    others := by
      intro other different
      simp [different] }

theorem quiet_forget (sound : Sound calls before) :
    Quiet actor before (before.forget actor) :=
  { quiet_refl actor sound with
    owner := by
      intro name
      dsimp only [Shared.forget]
      split
      · next mine => exact Or.inr ⟨mine, rfl, Function.update_self ..⟩
      · exact Or.inl rfl
    claiming := by
      intro someone name claims
      dsimp only [Shared.forget] at claims
      by_cases same : someone = actor
      · rw [same, Function.update_self] at claims
        cases claims
      · rwa [Function.update_of_ne same] at claims
    pledge := by
      intro someone expiresAt pledged
      dsimp only [Shared.forget] at pledged
      by_cases same : someone = actor
      · rw [same, Function.update_self] at pledged
        cases pledged
      · rw [Function.update_of_ne same] at pledged
        exact sound.last.pledged someone expiresAt pledged
    returned := by
      intro someone staging returned
      dsimp only [Shared.forget] at returned
      by_cases same : someone = actor
      · rw [same, Function.update_self] at returned
        cases returned
      · rwa [Function.update_of_ne same] at returned
    others := by
      intro other different
      simp [Shared.forget, different] }

omit [DecidableEq ι] in
/-- An id is drawn that nobody has drawn before. -/
theorem quiet_operationId
    (sound : Sound calls before)
    {id : String}
    (unspent : id ∉ before.world.area.spent) :
    Quiet actor before
      { before with
        drawn := Function.update before.drawn id (some actor)
        world := { before.world with area := before.world.area.draw id } } :=
  { quiet_refl actor sound with
    spent := fun other member => List.mem_cons_of_mem id member
    drawn := by
      intro other someone drawn
      have different : other ≠ id := by
        rintro rfl
        exact unspent (sound.drawn other someone drawn)
      dsimp only
      rw [Function.update_of_ne different]
      exact drawn
    drawnNew := by
      intro other someone drawn
      dsimp only at drawn
      by_cases same : other = id
      · subst same
        exact List.mem_cons_self
      · rw [Function.update_of_ne same] at drawn
        exact List.mem_cons_of_mem id (sound.drawn other someone drawn) }

end record

/-! ## Steps that move a directory -/

/-- A directory is put under a new name, and taken from its old one if it had
one. -/
structure Given
    (actor : ι)
    (old : Option EntryName)
    (new : EntryName)
    (found : AreaEntry)
    (keeper : Option ι)
    (before after : Shared ι) :
    Prop where
  clock : after.world.clock = before.world.clock
  spent : after.world.area.spent = before.world.area.spent
  entry : ∀ name, after.world.area.entry name =
    if name = new then some found
    else if some name = old then none
    else before.world.area.entry name
  bound : ∀ name, after.bound name =
    if name = new then some found.inode else before.bound name
  drawn : after.drawn = before.drawn
  owner : ∀ name, after.owner name =
    if name = new then keeper
    else if some name = old then none
    else before.owner name
  claiming : ∀ someone name, after.claiming someone = some name →
    before.claiming someone = some name
  pledge : after.pledge = before.pledge
  readings : after.readings = before.readings
  returned : after.returned = before.returned
  others : ∀ other, other ≠ actor →
    after.claiming other = before.claiming other
  mine : Mine actor new before
  keeps : keeper = none ∨ keeper = some actor
  live : keeper = some actor → ∀ expiresAt,
    found.dir.lease = .expires expiresAt → before.world.clock < expiresAt
  moves : ∀ name, old = some name →
    (before.owner name = some actor ∧ before.returned actor = none) ∨
      before.owner name = none

namespace Given

variable {actor : ι} {old : Option EntryName} {new : EntryName}
  {found : AreaEntry} {keeper : Option ι} {before after : Shared ι}
  {calls : ι → Call}

/-- A name that somebody keeps staging under is not the new one. -/
theorem ne_new_of_bound
    (given : Given actor old new found keeper before after)
    {name : EntryName}
    (bound : before.bound name ≠ none) :
    name ≠ new := by
  rintro rfl
  obtain ⟨id, _, _, unbound⟩ := given.mine
  exact bound unbound

theorem ne_old_of_granted
    (given : Given actor old new found keeper before after)
    {name : EntryName}
    {someone : ι}
    (owned : before.owner name = some someone)
    (uses : someone ≠ actor ∨ before.returned actor ≠ none) :
    some name ≠ old := by
  intro same
  rcases given.moves name same.symm with ⟨mine, idle⟩ | unowned
  · rw [owned] at mine
    cases mine
    rcases uses with different | busy
    · exact different rfl
    · exact busy idle
  · rw [owned] at unowned
    cases unowned

theorem owns
    (given : Given actor old new found keeper before after)
    (sound : Sound calls before)
    {name : EntryName}
    {someone : ι}
    {inode : Nat}
    (owns : Owns someone name inode before)
    (uses : someone ≠ actor ∨ before.returned actor ≠ none) :
    Owns someone name inode after := by
  have notNew := given.ne_new_of_bound (sound.owned name someone owns.1)
  have notOld := given.ne_old_of_granted owns.1 uses
  constructor
  · rw [given.owner, if_neg notNew, if_neg notOld, owns.1]
  · unfold Shared.inodeAt
    rw [given.entry, if_neg notNew, if_neg notOld]
    exact owns.2

theorem owner_none
    (given : Given actor old new found keeper before after)
    {name : EntryName}
    (bound : before.bound name ≠ none)
    (unowned : before.owner name = none) :
    after.owner name = none := by
  rw [given.owner, if_neg (given.ne_new_of_bound bound)]
  split
  · rfl
  · exact unowned

theorem last
    (given : Given actor old new found keeper before after)
    (sound : Sound calls before) :
    LeasesLast after after.world.clock := by
  rw [given.clock]
  constructor
  · intro someone expiresAt pledged
    rw [given.pledge] at pledged
    exact sound.last.pledged someone expiresAt pledged
  · intro name foundNow expiresAt owned stands expires
    rw [given.owner] at owned
    rw [given.entry] at stands
    by_cases isNew : name = new
    · rw [if_pos isNew] at owned stands
      cases stands
      rcases given.keeps with none | mine
      · exact absurd none owned
      · exact given.live mine expiresAt expires
    · rw [if_neg isNew] at owned stands
      by_cases isOld : some name = old
      · rw [if_pos isOld] at stands
        cases stands
      · rw [if_neg isOld] at owned stands
        exact sound.last.owned name foundNow expiresAt owned stands expires
  · intro someone name foundNow expiresAt claims stands expires
    have claimed := given.claiming someone name claims
    have notNew := given.ne_new_of_bound (sound.claims someone name claimed).1
    rw [given.entry, if_neg notNew] at stands
    split at stands
    · cases stands
    · exact sound.last.claimed someone name foundNow expiresAt claimed
        stands expires

theorem sound
    (given : Given actor old new found keeper before after)
    (sound : Sound calls before) :
    Sound calls after where
  located := by
    intro name foundNow stands
    rw [given.entry] at stands
    rw [given.bound]
    by_cases isNew : name = new
    · rw [if_pos isNew] at stands ⊢
      cases stands
      rfl
    · rw [if_neg isNew] at stands ⊢
      split at stands
      · cases stands
      · exact sound.located name foundNow stands
  named := by
    intro name inode bound id operation
    rw [given.bound] at bound
    rw [given.spent]
    split at bound
    · next isNew =>
        obtain ⟨mine, named, drawn, _⟩ := given.mine
        rw [← isNew, operation] at named
        cases named
        exact sound.drawn id actor drawn
    · exact sound.named name inode bound id operation
  drawn := by
    rw [given.drawn, given.spent]
    exact sound.drawn
  owned := by
    intro name someone owned
    rw [given.owner] at owned
    rw [given.bound]
    split at owned
    · next isNew => simp [isNew]
    · next notNew =>
        rw [if_neg notNew]
        split at owned
        · cases owned
        · exact sound.owned name someone owned
  last := given.last sound
  claims := by
    intro someone name claims
    obtain ⟨bound, unowned⟩ :=
      sound.claims someone name (given.claiming someone name claims)
    refine ⟨?_, given.owner_none bound unowned⟩
    rw [given.bound, if_neg (given.ne_new_of_bound bound)]
    exact bound
  granted := by
    intro someone staging returned
    rw [given.returned] at returned
    obtain ⟨inode, owns, acquisition, call, adopted⟩ :=
      sound.granted someone staging returned
    refine ⟨inode, given.owns sound owns ?_, acquisition, call, ?_⟩
    · by_cases same : someone = actor
      · right
        rw [← same, returned]
        simp
      · exact Or.inl same
    · rw [given.readings]
      exact adopted

theorem guarantee
    (given : Given actor old new found keeper before after)
    (sound : Sound calls before) :
    Guarantee actor before after := by
  have keepsBound : ∀ name inode, before.bound name = some inode →
      after.bound name = some inode := by
    intro name inode bound
    rw [given.bound, if_neg (given.ne_new_of_bound (by simp [bound])), bound]
  refine ⟨⟨given.clock.ge, keepsBound, ?_,
    by rw [given.readings]; exact .refl _⟩, ?_⟩
  · rintro name inode ⟨bound, unowned⟩
    exact ⟨keepsBound name inode bound,
      given.owner_none (by simp [bound]) unowned⟩
  intro other different
  refine ⟨given.clock.ge, keepsBound, ?_, ?_, ?_, ?_,
    given.others other different, ?_, ?_, ?_⟩
  · intro id someone drawn
    rw [given.drawn, drawn]
  · intro name id named drawn unbound
    rw [given.bound, if_neg, unbound]
    rintro rfl
    obtain ⟨mine, namedMine, drawnMine, _⟩ := given.mine
    rw [named] at namedMine
    cases namedMine
    rw [drawn] at drawnMine
    cases drawnMine
    exact different rfl
  · intro name inode owns
    exact given.owns sound owns (Or.inl different)
  · intro name bound unowned
    exact given.owner_none bound unowned
  · rw [given.pledge]
  · rw [given.readings]
  · rw [given.returned]

end Given

/-! ## Steps that write a lease -/

/-- A lease is written under a name that the call owns or that is open. -/
structure Leased
    (actor : ι)
    (name : EntryName)
    (expiresAt : Nat)
    (before after : Shared ι) :
    Prop where
  world : after.world = { before.world with
    area := before.world.area.update name fun dir =>
      { dir with lease := .expires expiresAt } }
  bound : after.bound = before.bound
  drawn : after.drawn = before.drawn
  owner : ∀ other, after.owner other = before.owner other ∨
    (before.owner other = some actor ∧ after.owner other = none ∧
      before.returned actor = none)
  claiming : ∀ someone other, after.claiming someone = some other →
    before.claiming someone = some other ∨
      (other = name ∧ before.bound name ≠ none ∧ before.owner name = none)
  pledge : ∀ someone later, after.pledge someone = some later →
    before.pledge someone = some later
  readings : after.readings = before.readings
  returned : after.returned = before.returned
  others : ∀ other, other ≠ actor →
    after.claiming other = before.claiming other ∧
      after.pledge other = before.pledge other
  live : after.owner name ≠ none ∨ before.owner name = none →
    before.world.clock < expiresAt

namespace Leased

variable {actor : ι} {name : EntryName} {expiresAt : Nat}
  {before after : Shared ι} {calls : ι → Call}

theorem inodeAt
    (leased : Leased actor name expiresAt before after)
    (other : EntryName) :
    after.inodeAt other = before.inodeAt other := by
  unfold Shared.inodeAt
  rw [leased.world]
  dsimp only
  rw [TemporaryArea.inode_update]

theorem clock (leased : Leased actor name expiresAt before after) :
    after.world.clock = before.world.clock := by
  rw [leased.world]

/-- The lease under a name is the one that was there, or the one that was
written. -/
theorem lease
    (leased : Leased actor name expiresAt before after)
    {other : EntryName}
    {foundNow : AreaEntry}
    {later : Nat}
    (stands : after.world.area.entry other = some foundNow)
    (expires : foundNow.dir.lease = .expires later) :
    (other = name ∧ later = expiresAt) ∨
      ∃ found, before.world.area.entry other = some found ∧
        found.dir.lease = .expires later := by
  rw [leased.world, TemporaryArea.entry_update] at stands
  obtain ⟨found, stood, rfl⟩ := Option.map_eq_some_iff.mp stands
  split at expires
  · next same =>
      cases expires
      exact Or.inl ⟨same, rfl⟩
  · exact Or.inr ⟨found, stood, expires⟩

theorem owner_none
    (leased : Leased actor name expiresAt before after)
    {other : EntryName}
    (unowned : before.owner other = none) :
    after.owner other = none := by
  rcases leased.owner other with same | ⟨_, released, _⟩
  · rw [same, unowned]
  · exact released

theorem owner_some
    (leased : Leased actor name expiresAt before after)
    {other : EntryName}
    {someone : ι}
    (owned : after.owner other = some someone) :
    before.owner other = some someone := by
  rcases leased.owner other with same | ⟨_, released, _⟩
  · rw [← same, owned]
  · rw [released] at owned
    cases owned

theorem last
    (leased : Leased actor name expiresAt before after)
    (sound : Sound calls before) :
    LeasesLast after after.world.clock := by
  rw [leased.clock]
  constructor
  · intro someone later pledged
    exact sound.last.pledged someone later (leased.pledge _ _ pledged)
  · intro other foundNow later owned stands expires
    rcases leased.lease stands expires with ⟨rfl, rfl⟩ | ⟨found, stood, was⟩
    · exact leased.live (Or.inl owned)
    · refine sound.last.owned other found later ?_ stood was
      intro unowned
      exact owned (leased.owner_none unowned)
  · intro someone other foundNow later claims stands expires
    have open_ : before.owner other = none := by
      rcases leased.claiming someone other claims with was | ⟨rfl, _, unowned⟩
      · exact (sound.claims someone other was).2
      · exact unowned
    rcases leased.lease stands expires with ⟨rfl, rfl⟩ | ⟨found, stood, was⟩
    · exact leased.live (Or.inr open_)
    · rcases leased.claiming someone other claims with claimed | ⟨rfl, _, _⟩
      · exact sound.last.claimed someone other found later claimed stood was
      · rw [leased.world, TemporaryArea.entry_update_self _ stood] at stands
        cases stands
        cases expires
        exact leased.live (Or.inr open_)

theorem owns
    (leased : Leased actor name expiresAt before after)
    {other : EntryName}
    {someone : ι}
    {inode : Nat}
    (owns : Owns someone other inode before)
    (uses : someone ≠ actor ∨ before.returned actor ≠ none) :
    Owns someone other inode after := by
  refine ⟨?_, by rw [leased.inodeAt]; exact owns.2⟩
  rcases leased.owner other with same | ⟨mine, _, idle⟩
  · rw [same, owns.1]
  · rw [owns.1] at mine
    cases mine
    rcases uses with different | busy
    · exact absurd rfl different
    · exact absurd idle busy

theorem sound
    (leased : Leased actor name expiresAt before after)
    (sound : Sound calls before) :
    Sound calls after where
  located := by
    intro other foundNow stands
    have same := leased.inodeAt other
    unfold Shared.inodeAt at same
    rw [stands, Option.map_some] at same
    obtain ⟨found, stood, inode⟩ := Option.map_eq_some_iff.mp same.symm
    rw [leased.bound, sound.located other found stood, inode]
  named := by
    rw [leased.bound, leased.world]
    exact sound.named
  drawn := by
    rw [leased.drawn, leased.world]
    exact sound.drawn
  owned := by
    intro other someone owned
    rw [leased.bound]
    exact sound.owned other someone (leased.owner_some owned)
  last := leased.last sound
  claims := by
    intro someone other claims
    rw [leased.bound]
    rcases leased.claiming someone other claims with
      was | ⟨rfl, bound, unowned⟩
    · obtain ⟨bound, unowned⟩ := sound.claims someone other was
      exact ⟨bound, leased.owner_none unowned⟩
    · exact ⟨bound, leased.owner_none unowned⟩
  granted := by
    intro someone staging returned
    rw [leased.returned] at returned
    obtain ⟨inode, owns, acquisition, call, adopted⟩ :=
      sound.granted someone staging returned
    refine ⟨inode, leased.owns owns ?_, acquisition, call, ?_⟩
    · by_cases same : someone = actor
      · right
        rw [← same, returned]
        simp
      · exact Or.inl same
    · rw [leased.readings]
      exact adopted

theorem guarantee
    (leased : Leased actor name expiresAt before after) :
    Guarantee actor before after := by
  refine ⟨⟨leased.clock.ge, fun _ _ bound => by rw [leased.bound, bound], ?_,
    by rw [leased.readings]; exact .refl _⟩, ?_⟩
  · rintro place inode ⟨bound, unowned⟩
    exact ⟨by rw [leased.bound, bound], leased.owner_none unowned⟩
  intro other different
  obtain ⟨claiming, pledge⟩ := leased.others other different
  refine ⟨leased.clock.ge, ?_, ?_, ?_, ?_, ?_, claiming, pledge, ?_, ?_⟩
  · intro place inode bound
    rw [leased.bound, bound]
  · intro id someone drawn
    rw [leased.drawn, drawn]
  · intro place id _ _ unbound
    rw [leased.bound, unbound]
  · intro place inode owns
    exact leased.owns owns (Or.inl different)
  · intro place _ unowned
    exact leased.owner_none unowned
  · rw [leased.readings]
  · rw [leased.returned]

end Leased

/-! ## Every step keeps the invariant -/

variable [DecidableEq ι] {calls : ι → Call} {actor : ι}

/-- What a call has to know before a step. -/
def Permitted (calls : ι → Call) (actor : ι) : Op → Shared ι → Prop
  | .createDir name, shared => Mine actor name shared
  | .renameLease name expiresAt, shared =>
      (shared.owner name = some actor ∨ ∃ inode, Open name inode shared) ∧
        (shared.pledge actor = some expiresAt ∨
          (shared.owner name = some actor ∧ shared.returned actor = none))
  | .rename old new, shared =>
      Mine actor new shared ∧
        ((shared.owner old = some actor ∧ shared.returned actor = none) ∨
          ∃ inode, Open old inode shared)
  | .rmdir name, shared =>
      (shared.owner name = some actor ∧ shared.returned actor = none) ∨
        ∃ inode, Open name inode shared
  | .hold staging, shared => Granted calls actor staging shared
  | _, _ => True

/-- The invariant and the guarantee. -/
def Keeps (calls : ι → Call) (actor : ι) (before after : Shared ι) : Prop :=
  Sound calls after ∧ Guarantee actor before after

omit [DecidableEq ι] in
theorem Quiet.keeps
    {before after : Shared ι}
    (sound : Sound calls before)
    (quiet : Quiet actor before after) :
    Keeps calls actor before after :=
  ⟨quiet.sound sound, quiet.guarantee⟩

omit [DecidableEq ι] in
theorem keeps_createDir
    {name : EntryName}
    {before : Shared ι}
    {area : TemporaryArea}
    (sound : Sound calls before)
    (mine : Mine actor name before)
    (created : before.world.area.create name = some area) :
    Keeps calls actor before
      { (before.bind name before.world.area.nextInode).setOwner name
          (some actor) with
        world := { before.world with area := area } } := by
  obtain ⟨free, spent, entry⟩ := TemporaryArea.create_eq_some created
  have given : Given actor none name
      ⟨before.world.area.nextInode, .bare⟩ (some actor) before
      { (before.bind name before.world.area.nextInode).setOwner name
          (some actor) with
        world := { before.world with area := area } } := by
    refine ⟨rfl, spent, ?_, ?_, rfl, ?_, fun _ _ claims => claims, rfl, rfl,
      rfl, fun _ _ => rfl, mine, Or.inr rfl, ?_, ?_⟩
    · intro other
      simpa using entry other
    · intro other
      exact Function.update_apply ..
    · intro other
      simpa [Shared.setOwner, Shared.bind] using
        Function.update_apply before.owner name (some actor) other
    · intro _ expiresAt expires
      cases expires
    · intro other same
      cases same
  exact ⟨given.sound sound, given.guarantee sound⟩

theorem keeps_renameLease
    {name : EntryName}
    {expiresAt : Nat}
    {before : Shared ι}
    (sound : Sound calls before)
    (permitted : Permitted calls actor (.renameLease name expiresAt) before) :
    Keeps calls actor before
      { before.recordLease actor name expiresAt with
        world := { before.world with
          area := before.world.area.update name fun dir =>
            { dir with lease := .expires expiresAt } } } := by
  obtain ⟨place, backed⟩ := permitted
  have clearsPledge : ∀ someone later,
      Function.update before.pledge actor none someone = some later →
        before.pledge someone = some later := by
    intro someone later pledged
    by_cases same : someone = actor
    · rw [same, Function.update_self] at pledged
      cases pledged
    · rwa [Function.update_of_ne same] at pledged
  have leased : Leased actor name expiresAt before
      { before.recordLease actor name expiresAt with
        world := { before.world with
          area := before.world.area.update name fun dir =>
            { dir with lease := .expires expiresAt } } } := by
    unfold Shared.recordLease
    by_cases mine : before.owner name = some actor
    · rw [if_pos mine]
      by_cases past : expiresAt ≤ before.world.clock
      · rw [if_pos past]
        have idle : before.returned actor = none := by
          rcases backed with pledged | ⟨_, idle⟩
          · have later := sound.last.pledged actor expiresAt pledged
            omega
          · exact idle
        refine ⟨rfl, rfl, rfl, ?_, fun _ _ claims => Or.inl claims,
          clearsPledge, rfl, rfl, ?_, ?_⟩
        · intro other
          by_cases same : other = name
          · subst same
            exact Or.inr ⟨mine, Function.update_self .., idle⟩
          · exact Or.inl (Function.update_of_ne same ..)
        · intro other different
          exact ⟨rfl, Function.update_of_ne different ..⟩
        · rintro (owned | unowned)
          · exact absurd (Function.update_self ..) owned
          · rw [mine] at unowned
            cases unowned
      · rw [if_neg past]
        refine ⟨rfl, rfl, rfl, fun _ => Or.inl rfl,
          fun _ _ claims => Or.inl claims, clearsPledge, rfl, rfl, ?_,
          fun _ => by omega⟩
        intro other different
        exact ⟨rfl, Function.update_of_ne different ..⟩
    · rw [if_neg mine]
      obtain ⟨inode, bound, unowned⟩ := place.resolve_left mine
      have pledged : before.pledge actor = some expiresAt :=
        backed.resolve_right fun owned => mine owned.1
      refine ⟨rfl, rfl, rfl, fun _ => Or.inl rfl, ?_, clearsPledge, rfl, rfl,
        ?_, fun _ => sound.last.pledged actor expiresAt pledged⟩
      · intro someone other claims
        dsimp only [Shared.setClaiming, Shared.setPledge] at claims
        by_cases same : someone = actor
        · rw [same, Function.update_self, Option.some.injEq] at claims
          exact Or.inr ⟨claims.symm, by simp [bound], unowned⟩
        · rw [Function.update_of_ne same] at claims
          exact Or.inl claims
      · intro other different
        exact ⟨Function.update_of_ne different ..,
          Function.update_of_ne different ..⟩
  exact ⟨leased.sound sound, leased.guarantee⟩

theorem keeps_rename
    {old new : EntryName}
    {before : Shared ι}
    {area : TemporaryArea}
    (sound : Sound calls before)
    (permitted : Permitted calls actor (.rename old new) before)
    (moved : before.world.area.move old new = some area) :
    Keeps calls actor before
      { before.recordRename actor old new with
        world := { before.world with area := area } } := by
  obtain ⟨found, stands, free, spent, entry⟩ :=
    TemporaryArea.move_eq_some moved
  obtain ⟨mine, place⟩ := permitted
  have located := sound.located old found stands
  have moves : ∀ name, some old = some name →
      (before.owner name = some actor ∧ before.returned actor = none) ∨
        before.owner name = none := by
    intro name same
    cases same
    rcases place with owned | ⟨_, _, unowned⟩
    · exact Or.inl owned
    · exact Or.inr unowned
  have different : new ≠ old := by
    rintro rfl
    rw [free.1] at stands
    cases stands
  have clearsClaim : ∀ someone name,
      Function.update before.claiming actor none someone = some name →
        before.claiming someone = some name := by
    intro someone name claims
    by_cases same : someone = actor
    · rw [same, Function.update_self] at claims
      cases claims
    · rwa [Function.update_of_ne same] at claims
  have entries : ∀ name, area.entry name =
      if name = new then some found
      else if some name = some old then none
      else before.world.area.entry name := by
    intro name
    rw [entry name]
    simp only [Option.some.injEq]
  have bounds : ∀ name,
      Function.update before.bound new (before.bound old) name =
        if name = new then some found.inode else before.bound name := by
    intro name
    rw [Function.update_apply, located]
  unfold Shared.recordRename
  by_cases keeps : before.owner old = some actor ∨
      before.claiming actor = some old
  · rw [if_pos keeps]
    have given : Given actor (some old) new found (some actor) before
        { (((before.bind new (before.bound old)).setOwner old none).setOwner
            new (some actor)).setClaiming actor none with
          world := { before.world with area := area } } := by
      refine ⟨rfl, spent, entries, bounds, rfl, ?_, clearsClaim, rfl, rfl,
        rfl, fun _ different => Function.update_of_ne different ..,
        mine, Or.inr rfl, ?_, moves⟩
      · intro name
        simp only [Option.some.injEq]
        dsimp only [Shared.setClaiming, Shared.setOwner, Shared.bind]
        rw [Function.update_apply, Function.update_apply]
      · intro _ expiresAt expires
        rcases keeps with owned | claims
        · exact sound.last.owned old found expiresAt (by simp [owned]) stands
            expires
        · exact sound.last.claimed actor old found expiresAt claims stands
            expires
    exact ⟨given.sound sound, given.guarantee sound⟩
  · rw [if_neg keeps]
    have unowned : before.owner old = none := by
      rcases moves old rfl with owned | unowned
      · exact absurd (Or.inl owned.1) keeps
      · exact unowned
    have given : Given actor (some old) new found none before
        { (before.bind new (before.bound old)).setClaiming actor none with
          world := { before.world with area := area } } := by
      refine ⟨rfl, spent, entries, bounds, rfl, ?_, clearsClaim, rfl, rfl,
        rfl, fun _ different => Function.update_of_ne different ..,
        mine, Or.inl rfl, ?_, moves⟩
      · intro name
        dsimp only [Shared.setClaiming, Shared.bind]
        split
        · next isNew =>
            subst isNew
            cases owned : before.owner name with
            | none => rfl
            | some someone =>
                obtain ⟨_, _, _, unbound⟩ := mine
                exact absurd unbound (sound.owned name someone owned)
        · split
          · next isOld =>
              cases isOld
              exact unowned
          · rfl
      · intro same
        cases same
    exact ⟨given.sound sound, given.guarantee sound⟩

omit [DecidableEq ι] in
/-- Only a directory that nobody uses is removed. -/
theorem keeps_rmdir
    {name : EntryName}
    {before : Shared ι}
    (sound : Sound calls before)
    (permitted : Permitted calls actor (.rmdir name) before) :
    Keeps calls actor before
      { before with
        world := { before.world with
          area := before.world.area.remove name } } := by
  have shrinks : ∀ other found,
      (before.world.area.remove name).entry other = some found →
        before.world.area.entry other = some found := by
    intro other found stands
    rw [TemporaryArea.entry_remove] at stands
    split at stands
    · cases stands
    · exact stands
  have spared : ∀ someone other inode, Owns someone other inode before →
      (someone ≠ actor ∨ before.returned actor ≠ none) → other ≠ name := by
    rintro someone other inode ⟨owned, _⟩ uses rfl
    rcases permitted with ⟨mine, idle⟩ | ⟨_, _, unowned⟩
    · rw [owned] at mine
      cases mine
      rcases uses with different | busy
      · exact different rfl
      · exact busy idle
    · rw [owned] at unowned
      cases unowned
  have owns : ∀ someone other inode, Owns someone other inode before →
      (someone ≠ actor ∨ before.returned actor ≠ none) →
        Owns someone other inode
          { before with
            world := { before.world with
              area := before.world.area.remove name } } := by
    intro someone other inode owned uses
    refine ⟨owned.1, ?_⟩
    unfold Shared.inodeAt
    dsimp only
    rw [TemporaryArea.entry_remove, if_neg (spared someone other inode owned uses)]
    exact owned.2
  constructor
  · constructor
    · intro other found stands
      exact sound.located other found (shrinks other found stands)
    · exact sound.named
    · exact sound.drawn
    · exact sound.owned
    · refine ⟨sound.last.pledged, ?_, ?_⟩
      · intro other found expiresAt owned stands
        exact sound.last.owned other found expiresAt owned
          (shrinks other found stands)
      · intro someone other found expiresAt claims stands
        exact sound.last.claimed someone other found expiresAt claims
          (shrinks other found stands)
    · exact sound.claims
    · intro someone staging returned
      obtain ⟨inode, owned, acquisition, call, adopted⟩ :=
        sound.granted someone staging returned
      refine ⟨inode, owns someone staging.path inode owned ?_, acquisition,
        call, adopted⟩
      by_cases same : someone = actor
      · right
        subst same
        rw [show before.returned someone = some staging from returned]
        simp
      · exact Or.inl same
  · refine ⟨⟨Nat.le_refl _, fun _ _ bound => bound, fun _ _ opened => opened,
      .refl _⟩, ?_⟩
    intro other different
    refine { Rely.refl other before with owned := ?_ }
    intro place inode owned
    exact owns other place inode owned (Or.inl different)

/-- Staging is returned to an acquisition. -/
theorem keeps_hold
    {staging : FetchStaging}
    {before : Shared ι}
    (sound : Sound calls before)
    (granted : Granted calls actor staging before)
    (returns : List (ι × Nat)) :
    Keeps calls actor before
      { before with
        returned := Function.update before.returned actor (some staging)
        returns := returns } := by
  constructor
  · refine { sound with granted := ?_, last := ?_ }
    · exact ⟨sound.last.pledged, sound.last.owned, sound.last.claimed⟩
    · intro someone other returned
      dsimp only at returned
      by_cases same : someone = actor
      · rw [same, Function.update_self] at returned
        cases returned
        rw [same]
        exact granted
      · rw [Function.update_of_ne same] at returned
        exact sound.granted someone other returned
  · refine ⟨⟨Nat.le_refl _, fun _ _ bound => bound, fun _ _ opened => opened,
      .refl _⟩, ?_⟩
    intro other different
    exact { Rely.refl other before with
      owned := fun _ _ owns => owns
      returned := Function.update_of_ne different .. }

omit [DecidableEq ι] in
/-- A step on a directory finds it or fails. -/
theorem within_cases
    {α : Type}
    {world after : World}
    {name : EntryName}
    {step : AreaEntry → Except ArchiveError α × TemporaryArea}
    {reply : Except ArchiveError α}
    (stepped : world.within name step = (reply, after)) :
    (world.area.entry name = none ∧ reply = .error (.io .notFound) ∧
        after = world) ∨
      ∃ found, world.area.entry name = some found ∧
        reply = (step found).1 ∧
        after = { world with area := (step found).2 } := by
  unfold World.within at stepped
  split at stepped
  · next absent =>
      cases stepped
      exact Or.inl ⟨absent, rfl, rfl⟩
  · next found stands =>
      cases stepped
      exact Or.inr ⟨found, stands, rfl, rfl⟩

/-- The steps that move a directory, write a lease or change who owns what. -/
def Moves : Op → Prop
  | .operationId => True
  | .createDir _ => True
  | .renameLease _ _ => True
  | .rename _ _ => True
  | .rmdir _ => True
  | .hold _ => True
  | _ => False

omit [DecidableEq ι] in
theorem calm_within
    {α : Type}
    {world after : World}
    {name : EntryName}
    {step : AreaEntry → Except ArchiveError α × TemporaryArea}
    {reply : Except ArchiveError α}
    (stepped : world.within name step = (reply, after))
    (calm : ∀ found, Calm world { world with area := (step found).2 }) :
    Calm world after := by
  rcases within_cases stepped with ⟨_, _, rfl⟩ | ⟨found, _, _, rfl⟩
  · exact .refl after
  · exact calm found

omit [DecidableEq ι] in
theorem without_lease (dir : StagingDir) (part : StagingDir.Part) :
    (dir.without part).lease = dir.lease ∨
      (dir.without part).lease = .absent := by
  cases part <;> simp [StagingDir.without]

omit [DecidableEq ι] in
/-- The other steps change contents only. -/
theorem calm_of_effect
    {op : Op}
    {before after : World}
    {reply : op.Reply}
    (still : ¬Moves op)
    (effect : Effect op before reply after) :
    Calm before after := by
  cases op with
  | readDir =>
      obtain ⟨rfl, _⟩ := effect
      exact .refl after
  | listParts inode =>
      obtain ⟨rfl, _⟩ := effect
      exact .refl after
  | readIdentity name => exact calm_within effect fun _ => .refl before
  | readLease name => exact calm_within effect fun _ => .refl before
  | readLeaseAndTime name => exact calm_within effect fun _ => .refl before
  | openDir name => exact calm_within effect fun _ => .refl before
  | createPart name => exact calm_within effect fun _ => .refl before
  | renameIdentity name metadata =>
      exact calm_within effect fun _ =>
        calm_update before name
          (fun dir => { dir with identity := .decoded metadata })
          fun _ => Or.inl rfl
  | transfer name payload =>
      exact calm_within effect fun _ =>
        calm_update before name (fun dir => { dir with payload := payload })
          fun _ => Or.inl rfl
  | unlink inode part =>
      change respond (.unlink inode part) before = _ at effect
      unfold respond at effect
      dsimp only at effect
      split at effect
      · cases effect
        exact .refl before
      · cases effect
        exact calm_update before _ _ fun dir => without_lease dir part
  | unixTimestamp | leaseExpiry | flush | syncDirectory | handBack | leave =>
      cases effect
      exact .refl before
  | operationId | createDir | renameLease | rename | rmdir | hold =>
      exact absurd trivial still

/-- What is read in a directory is noted, if it is there. -/
theorem quiet_noted
    (sound : Sound calls before)
    (place : Option Nat)
    (reading : Nat → Reading) :
    Quiet actor before
        (match place with
          | none => before
          | some inode => before.note actor (reading inode)) ∧
      (match place with
        | none => before
        | some inode => before.note actor (reading inode)).world =
          before.world := by
  cases place with
  | none => exact ⟨quiet_refl actor sound, rfl⟩
  | some inode => exact ⟨quiet_note sound _, rfl⟩

/-- The record of these steps disturbs nobody. -/
theorem quiet_record
    {op : Op}
    {reply : op.Reply}
    {before : Shared ι}
    {world : World}
    (sound : Sound calls before)
    (still : ¬Moves op)
    (answered : Effect op before.world reply world ∨
      (Fault op reply ∧ world = before.world)) :
    Quiet actor before (before.record actor op reply) ∧
      (before.record actor op reply).world = before.world := by
  have unpledged : Quiet actor before (before.setPledge actor none) :=
    quiet_setPledge sound none (by simp)
  cases op with
  | readIdentity name =>
      cases reply with
      | error error => exact ⟨quiet_refl actor sound, rfl⟩
      | ok metadata => exact quiet_noted sound _ _
  | readLease name =>
      cases reply with
      | error error => exact ⟨quiet_refl actor sound, rfl⟩
      | ok expiresAt => exact quiet_noted sound _ _
  | leaseExpiry =>
      refine ⟨quiet_setPledge sound _ ?_, rfl⟩
      intro expiresAt same
      cases same
      rcases answered with settled | ⟨impossible, _⟩
      · cases settled
        unfold stagingLeaseSeconds
        omega
      · cases impossible
  | createPart name =>
      cases reply with
      | error error => exact ⟨unpledged, rfl⟩
      | ok => exact ⟨quiet_refl actor sound, rfl⟩
  | flush =>
      cases reply with
      | error error => exact ⟨unpledged, rfl⟩
      | ok => exact ⟨quiet_refl actor sound, rfl⟩
  | handBack => exact ⟨quiet_handBack sound, rfl⟩
  | leave => exact ⟨quiet_forget sound, rfl⟩
  | readDir | readLeaseAndTime | unixTimestamp | renameIdentity | openDir
  | listParts | unlink | syncDirectory | transfer =>
      exact ⟨quiet_refl actor sound, rfl⟩
  | operationId | createDir | renameLease | rename | rmdir | hold =>
      exact absurd trivial still

/-- A step whose conditions are met keeps the invariant and the guarantee. -/
theorem exec_keeps
    {op : Op}
    {reply : op.Reply}
    {before after : Shared ι}
    (sound : Sound calls before)
    (permitted : Permitted calls actor op before)
    (issued : exec actor op before reply after) :
    Keeps calls actor before after := by
  obtain ⟨world, answered, rfl⟩ := issued
  have failing : ∀ recorded : Shared ι, Quiet actor before recorded →
      recorded.world = before.world → world = before.world →
        Keeps calls actor before { recorded with world := world } := by
    intro recorded quiet same unmoved
    refine (quiet.calm same ?_).keeps sound
    rw [unmoved]
    exact .refl before.world
  by_cases moves : Moves op
  case neg =>
    obtain ⟨quiet, same⟩ := quiet_record sound moves answered
    refine (quiet.calm same ?_).keeps sound
    rcases answered with effect | ⟨_, rfl⟩
    · exact calm_of_effect moves effect
    · exact .refl before.world
  cases op with
  | operationId =>
      rcases answered with ⟨unspent, rfl⟩ | ⟨impossible, _⟩
      · exact (quiet_operationId sound unspent).keeps sound
      · cases impossible
  | hold staging =>
      rcases answered with settled | ⟨impossible, _⟩
      · cases settled
        exact keeps_hold sound permitted _
      · cases impossible
  | createDir name =>
      rcases answered with settled | ⟨⟨kind, rfl⟩, unmoved⟩
      · change respond (.createDir name) before.world = _ at settled
        unfold respond at settled
        dsimp only at settled
        split at settled
        · cases settled
          exact failing _ (quiet_refl actor sound) rfl rfl
        · next area created =>
            cases settled
            exact keeps_createDir sound permitted created
      · exact failing _ (quiet_refl actor sound) rfl unmoved
  | renameLease name expiresAt =>
      have unpledged : Quiet actor before (before.setPledge actor none) :=
        quiet_setPledge sound none (by simp)
      rcases answered with settled | ⟨⟨kind, rfl⟩, unmoved⟩
      · rcases within_cases settled with ⟨_, rfl, unmoved⟩ | ⟨_, _, rfl, rfl⟩
        · exact failing _ unpledged rfl unmoved
        · exact keeps_renameLease sound permitted
      · exact failing _ unpledged rfl unmoved
  | rename old new =>
      have unclaimed : Quiet actor before (before.setClaiming actor none) :=
        quiet_setClaiming sound
      rcases answered with settled | ⟨⟨kind, rfl⟩, unmoved⟩
      · rcases within_cases settled with ⟨_, rfl, unmoved⟩ | ⟨_, _, same, gone⟩
        · exact failing _ unclaimed rfl unmoved
        · split at same
          · next stays =>
              subst same
              rw [stays] at gone
              exact failing _ unclaimed rfl gone
          · next area moved =>
              subst same
              rw [moved] at gone
              subst gone
              exact keeps_rename sound permitted moved
      · exact failing _ unclaimed rfl unmoved
  | rmdir name =>
      rcases answered with settled | ⟨⟨kind, rfl⟩, unmoved⟩
      · rcases within_cases settled with
          ⟨_, rfl, unmoved⟩ | ⟨found, _, same, gone⟩
        · exact failing _ (quiet_refl actor sound) rfl unmoved
        · by_cases bare : found.dir.isBare
          · rw [if_pos bare] at gone
            subst gone
            exact keeps_rmdir sound permitted
          · rw [if_neg bare] at gone
            exact failing _ (quiet_refl actor sound) rfl gone
      · exact failing _ (quiet_refl actor sound) rfl unmoved
  | readDir | readIdentity | readLease | readLeaseAndTime | unixTimestamp
  | leaseExpiry | createPart | flush | renameIdentity | openDir | listParts | unlink
  | syncDirectory | transfer | handBack | leave => exact absurd moves not_false

end Staging
end ModelKeep
