import ModelKeep.Archive
import ModelKeep.Staging.Removal

/-!
# Recovery at startup

A start runs recovery once, alone, while time passes and while the file system
refuses some of the renames and removals.  A refused removal may have got rid
of a part of the directory.  What recovery leaves is told entry by entry: what
it may not touch stays, what can be resumed is kept, and everything else is
gone unless it could not be removed.
-/

namespace ModelKeep
namespace Staging

open Concurrency Program

/-- The archive root at a start. -/
structure Startup where
  archive : Archive
  /-- The entries of `tmp` that are no directories. -/
  files : EntryName → Option Bytes
  world : World
  /-- The entry whose lease was read last. -/
  examined : Option EntryName
  /-- The entries that were refused a rename or a removal. -/
  failed : List EntryName

namespace Startup

def entry (startup : Startup) (name : EntryName) : Option AreaEntry :=
  startup.world.area.entry name

def advance (startup : Startup) (now : Nat) : Startup :=
  { startup with world := { startup.world with clock := now } }

/-- The entry at hand was refused something. -/
def note (startup : Startup) : Startup :=
  { startup with
    failed := startup.examined.toList ++ startup.failed }

def withArea (startup : Startup) (area : TemporaryArea) : Startup :=
  { startup with world := { startup.world with area := area } }

/-- A removal that stops inside a piece leaves some of it. -/
def tear (startup : Startup) (inode : Nat) (part : StagingDir.Part)
    (payload : FileTree Bytes) : Startup :=
  match part, nameOf startup.world.area inode with
  | .payload, some name => startup.withArea
      (startup.world.area.update name fun dir =>
        { dir with payload := payload })
  | _, _ => startup

/-- A listing has every entry once.  A directory that is renamed while the
listing goes on may turn up in it under its new name. -/
def Enumerates (startup : Startup) (listed : List DirEntry) : Prop :=
  ∃ entries : List (EntryName × Bool),
    listed = entries.map .ok ∧ (entries.map Prod.fst).Nodup ∧
      (∀ name, (startup.entry name).isSome → (name, true) ∈ entries) ∧
      ∀ name, (startup.files name).isSome → (name, false) ∈ entries

/-- A step that is refused. -/
def Refuses : (op : Op) → Startup → op.Reply → Startup → Prop
  | .readDir, before, reply, after =>
      (∃ error, reply = .error error) ∧ after = before
  | .rename _ _, before, reply, after =>
      (∃ error, reply = .error error) ∧ after = before.note
  | .openDir _, before, reply, after =>
      (∃ error, reply = .error error) ∧ after = before.note
  | .listParts _, before, reply, after =>
      (∃ error, reply = .error error) ∧ after = before.note
  | .unlink inode part, before, reply, after =>
      (∃ error, reply = .error error) ∧
        ∃ payload, after = (before.tear inode part payload).note
  | .rmdir _, before, reply, after =>
      (∃ error, reply = .error error) ∧ after = before.note
  | .syncDirectory, before, reply, after =>
      (∃ error, reply = .error error) ∧ after = before.note
  | _, _, _, _ => False

/-- The steps whose answer is settled. -/
def succeed (startup : Startup) (op : Op) : op.Reply × Startup :=
  ((respond op startup.world).1,
    { startup with
      world := (respond op startup.world).2
      examined := match op with
        | .readLeaseAndTime name => some name
        | _ => startup.examined })

/-- A step that is not refused. -/
def Succeeds : (op : Op) → Startup → op.Reply → Startup → Prop
  | .readDir, before, reply, after =>
      after = before ∧ ∃ listed, reply = .ok listed ∧ before.Enumerates listed
  | .operationId, before, id, after =>
      id ∉ before.world.area.spent ∧ before.files (.abandoned id) = none ∧
        after = before.withArea (before.world.area.draw id)
  | .listParts _, before, reply, after =>
      after = before ∧ ∃ parts, reply = .ok parts ∧ ∀ part, part ∈ parts
  | op, before, reply, after => before.succeed op = (reply, after)

/-- The steps of recovery; any time may pass before each of them. -/
def Effect : Semantics interface Startup := fun op before reply after =>
  ∃ now, before.world.clock ≤ now ∧
    (Refuses op (before.advance now) reply after ∨
      Succeeds op (before.advance now) reply after)

/-! ## What recovery goes by -/

/-- The lease was up at this time. -/
def Expired (dir : StagingDir) (now : Nat) : Prop :=
  ∃ expiresAt, dir.lease = .expires expiresAt ∧ expiresAt ≤ now

/-- The identity is valid and records a commit. -/
def Resumable (dir : StagingDir) : Prop :=
  ∃ metadata, dir.readIdentity >>= checkMetadata = .ok metadata ∧
    metadata.resolvedCommit.isSome

/-- Directories of an acquisition that can be resumed are kept. -/
def Kept (name : EntryName) (dir : StagingDir) : Prop :=
  isFetchName name = true ∧ Resumable dir

/-- What no step changes, and what every step lets grow. -/
structure Onward (before after : Startup) : Prop where
  archive : after.archive = before.archive
  files : after.files = before.files
  clock : before.world.clock ≤ after.world.clock
  spent : ∀ id ∈ before.world.area.spent, id ∈ after.world.area.spent

theorem Onward.refl (startup : Startup) : Onward startup startup :=
  ⟨rfl, rfl, Nat.le_refl _, fun _ member => member⟩

theorem Onward.trans
    {before middle after : Startup}
    (first : Onward before middle)
    (second : Onward middle after) :
    Onward before after :=
  ⟨second.archive.trans first.archive, second.files.trans first.files,
    Nat.le_trans first.clock second.clock,
    fun id member => second.spent id (first.spent id member)⟩

/-- Only the note of what was refused may have changed. -/
structure Same (before after : Startup) : Prop extends Onward before after where
  entries : after.entry = before.entry
  examined : after.examined = before.examined

theorem Same.refl (startup : Startup) : Same startup startup :=
  ⟨Onward.refl startup, rfl, rfl⟩

theorem Same.trans
    {before middle after : Startup}
    (first : Same before middle)
    (second : Same middle after) :
    Same before after :=
  ⟨first.toOnward.trans second.toOnward,
    second.entries.trans first.entries,
    second.examined.trans first.examined⟩

theorem same_advance
    {startup : Startup}
    {now : Nat}
    (later : startup.world.clock ≤ now) :
    Same startup (startup.advance now) :=
  ⟨⟨rfl, rfl, later, fun _ member => member⟩, rfl, rfl⟩

theorem same_note (startup : Startup) : Same startup startup.note :=
  ⟨⟨rfl, rfl, Nat.le_refl _, fun _ member => member⟩, rfl, rfl⟩

/-- Everything but one directory is as it was. -/
structure Touches (before after : Startup) (name : EntryName)
    (left : Option AreaEntry) : Prop extends Onward before after where
  entries : ∀ other, after.entry other =
    if other = name then left else before.entry other
  examined : after.examined = before.examined

theorem Same.touches
    {before after : Startup}
    (same : Same before after)
    (name : EntryName) :
    Touches before after name (before.entry name) := by
  refine ⟨same.toOnward, ?_, same.examined⟩
  intro other
  rw [same.entries]
  split
  · next equal => rw [equal]
  · rfl

theorem Touches.trans
    {before middle after : Startup}
    {name : EntryName}
    {first second : Option AreaEntry}
    (earlier : Touches before middle name first)
    (later : Touches middle after name second) :
    Touches before after name second := by
  refine ⟨earlier.toOnward.trans later.toOnward, ?_,
    later.examined.trans earlier.examined⟩
  intro other
  rw [later.entries, earlier.entries]
  by_cases same : other = name <;> simp [same]

/-! ## Removing under refusals -/

/-- The entry at hand, found under its name. -/
structure AtHand (startup : Startup) (name : EntryName)
    (found : AreaEntry) : Prop where
  stands : startup.entry name = some found
  examined : startup.examined = some name

theorem AtHand.touched
    {before after : Startup}
    {name : EntryName}
    {found left : AreaEntry}
    (atHand : AtHand before name found)
    (touches : Touches before after name (some left)) :
    AtHand after name left := by
  refine ⟨?_, touches.examined.trans atHand.examined⟩
  simp [touches.entries]

/-- How a part of a removal ends: it did its work, or it was refused something
and the directory is damaged. -/
inductive Strips (before : Startup) (name : EntryName) (inode : Nat)
    (left : Option AreaEntry) : Except ArchiveError Unit → Startup → Prop
  | done
      {after : Startup}
      (touches : Touches before after name left)
      (quiet : after.failed = before.failed) :
      Strips before name inode left (.ok ()) after
  | refused
      {after : Startup}
      {error : ArchiveError}
      {dir : StagingDir}
      (touches : Touches before after name (some ⟨inode, dir⟩))
      (noted : after.failed = name :: before.failed) :
      Strips before name inode left (.error error) after

variable {before after : Startup} {name : EntryName} {found : AreaEntry}

theorem touches_update
    (stands : before.entry name = some found)
    (change : StagingDir → StagingDir) :
    Touches before
      (before.withArea (before.world.area.update name change)) name
      (some ⟨found.inode, change found.dir⟩) := by
  refine ⟨⟨rfl, rfl, Nat.le_refl _, fun _ member => member⟩, ?_, rfl⟩
  intro other
  change (before.world.area.update name change).entry other = _
  split
  · next same =>
      subst same
      exact before.world.area.entry_update_self stands change
  · next different =>
      exact before.world.area.entry_update_of_ne different change

theorem touches_tear
    (stands : before.entry name = some found)
    (part : StagingDir.Part)
    (payload : FileTree Bytes) :
    ∃ dir, Touches before (before.tear found.inode part payload) name
      (some ⟨found.inode, dir⟩) := by
  have kept : Touches before before name (some ⟨found.inode, found.dir⟩) := by
    have same := (Same.refl before).touches name
    rwa [stands] at same
  cases part with
  | payload =>
      refine ⟨{ found.dir with payload := payload }, ?_⟩
      have named : nameOf before.world.area found.inode = some name :=
        nameOf_eq stands
      simp only [tear, named]
      exact touches_update stands fun dir => { dir with payload := payload }
  | _ => exact ⟨found.dir, kept⟩

theorem AtHand.advance
    (atHand : AtHand before name found)
    (now : Nat) :
    AtHand (before.advance now) name found :=
  ⟨atHand.stands, atHand.examined⟩

theorem AtHand.noted
    (atHand : AtHand before name found) :
    before.note.failed = name :: before.failed := by
  simp [note, atHand.examined]

/-- What a step leaves of a directory, it leaves when time passes before it. -/
theorem Touches.advanced
    {left : Option AreaEntry}
    {now : Nat}
    (later : before.world.clock ≤ now)
    (touches : Touches (before.advance now) after name left) :
    Touches before after name left :=
  ((same_advance later).touches name).trans touches

theorem Touches.note
    {left : Option AreaEntry}
    (touches : Touches before after name left) :
    Touches before after.note name left :=
  ⟨touches.toOnward.trans (same_note after).toOnward, touches.entries,
    touches.examined⟩

theorem Touches.noted
    {left : Option AreaEntry}
    (touches : Touches before after name left)
    (quiet : after.failed = before.failed)
    (atHand : AtHand before name found) :
    after.note.failed = name :: before.failed := by
  simp [Startup.note, touches.examined, atHand.examined, quiet]

theorem AtHand.touches
    (atHand : AtHand before name found) :
    Touches before before name (some found) := by
  have same := (Same.refl before).touches name
  rwa [atHand.stands] at same

theorem effect_openDir
    {reply : Except ArchiveError Nat}
    (atHand : AtHand before name found)
    (step : Effect (.openDir name) before reply after) :
    Touches before after name (some found) ∧
      (reply = .ok found.inode ∧ after.failed = before.failed ∨
        (∃ error, reply = .error error) ∧
          after.failed = name :: before.failed) := by
  obtain ⟨now, later, ⟨refused, rfl⟩ | succeeds⟩ := step
  · exact ⟨((atHand.advance now).touches.note).advanced later,
      Or.inr ⟨refused, (atHand.advance now).noted⟩⟩
  · have answered : (before.advance now).succeed (.openDir name) =
        (reply, after) := succeeds
    simp only [succeed, respond,
      within_some (atHand.advance now).stands] at answered
    cases answered
    exact ⟨(atHand.advance now).touches.advanced later, Or.inl ⟨rfl, rfl⟩⟩

theorem effect_listParts
    {inode : Nat}
    {reply : Except ArchiveError (List StagingDir.Part)}
    (atHand : AtHand before name found)
    (step : Effect (.listParts inode) before reply after) :
    Touches before after name (some found) ∧
      ((∃ parts, reply = .ok parts ∧ ∀ part, part ∈ parts) ∧
          after.failed = before.failed ∨
        (∃ error, reply = .error error) ∧
          after.failed = name :: before.failed) := by
  obtain ⟨now, later, ⟨refused, rfl⟩ | ⟨rfl, complete⟩⟩ := step
  · exact ⟨((atHand.advance now).touches.note).advanced later,
      Or.inr ⟨refused, (atHand.advance now).noted⟩⟩
  · exact ⟨(atHand.advance now).touches.advanced later,
      Or.inl ⟨complete, rfl⟩⟩

theorem effect_unlink
    {part : StagingDir.Part}
    {reply : Except ArchiveError Unit}
    (atHand : AtHand before name found)
    (step : Effect (.unlink found.inode part) before reply after) :
    Strips before name found.inode
      (some ⟨found.inode, found.dir.without part⟩) reply after := by
  obtain ⟨now, later, ⟨⟨error, rfl⟩, payload, rfl⟩ | succeeds⟩ := step
  · obtain ⟨dir, touches⟩ :=
      touches_tear (atHand.advance now).stands part payload
    refine .refused (touches.note.advanced later)
      (touches.noted ?_ (atHand.advance now))
    unfold tear
    split <;> rfl
  · have answered : (before.advance now).succeed (.unlink found.inode part) =
        (reply, after) := succeeds
    have named : nameOf (before.advance now).world.area found.inode =
      some name := nameOf_eq atHand.stands
    simp only [succeed, respond, named] at answered
    cases answered
    exact .done ((touches_update (atHand.advance now).stands
      fun dir => dir.without part).advanced later) rfl

theorem effect_rmdir
    {reply : Except ArchiveError Unit}
    (atHand : AtHand before name found)
    (bare : found.dir.isBare = true)
    (step : Effect (.rmdir name) before reply after) :
    Strips before name found.inode none reply after := by
  obtain ⟨now, later, ⟨⟨error, rfl⟩, rfl⟩ | succeeds⟩ := step
  · exact .refused (((atHand.advance now).touches.note).advanced later)
      (atHand.advance now).noted
  · have answered : (before.advance now).succeed (.rmdir name) =
        (reply, after) := succeeds
    simp only [succeed, respond, bare, if_true,
      within_some (atHand.advance now).stands] at answered
    cases answered
    refine .done ?_ rfl
    exact ⟨⟨rfl, rfl, later, fun _ member => member⟩, fun _ => rfl, rfl⟩

theorem Strips.since
    {middle : Startup}
    {inode : Nat}
    {left last : Option AreaEntry}
    {outcome : Except ArchiveError Unit}
    (touches : Touches before middle name left)
    (quiet : middle.failed = before.failed)
    (strips : Strips middle name inode last outcome after) :
    Strips before name inode last outcome after := by
  cases strips with
  | done later still =>
      exact .done (touches.trans later) (still.trans quiet)
  | refused later noted =>
      refine .refused (touches.trans later) ?_
      rw [noted, quiet]

theorem strips_unlinkParts
    {parts : List StagingDir.Part}
    {outcome : Except ArchiveError Unit}
    (atHand : AtHand before name found)
    (run : Returns Effect (unlinkParts found.inode parts) before outcome
      after) :
    Strips before name found.inode
      (some ⟨found.inode, withoutAll found.dir parts⟩) outcome after := by
  induction parts generalizing before found with
  | nil =>
      obtain ⟨rfl, rfl⟩ := returns_check.mp run
      exact .done atHand.touches rfl
  | cons part rest inductionHypothesis =>
      unfold unlinkParts at run
      rcases returns_bind.mp run with
        ⟨error, rfl, failed⟩ | ⟨⟨⟩, middle, unlinked, remaining⟩
      · have strips := effect_unlink atHand
          (Program.runs_perform.mp (returns_attempt.mp failed))
        cases strips with
        | refused touches noted => exact .refused touches noted
      · have strips := effect_unlink atHand
          (Program.runs_perform.mp (returns_attempt.mp unlinked))
        cases strips with
        | done touches quiet =>
            exact (inductionHypothesis (atHand.touched touches)
              remaining).since touches quiet

/-- A removal takes the directory away, or it is refused something. -/
theorem strips_removeDirAll
    {outcome : Except ArchiveError Unit}
    (atHand : AtHand before name found)
    (run : Returns Effect (removeDirAll name) before outcome after) :
    Strips before name found.inode none outcome after := by
  unfold removeDirAll at run
  rcases returns_bind.mp run with
    ⟨error, rfl, failed⟩ | ⟨inode, opened, opens, remaining⟩
  · obtain ⟨touches, ⟨same, _⟩ | ⟨_, noted⟩⟩ := effect_openDir atHand
      (Program.runs_perform.mp (returns_attempt.mp failed))
    · cases same
    · exact .refused touches noted
  obtain ⟨touches, ⟨same, quiet⟩ | ⟨⟨_, same⟩, _⟩⟩ := effect_openDir atHand
    (Program.runs_perform.mp (returns_attempt.mp opens))
  on_goal 2 => cases same
  cases same
  refine Strips.since touches quiet ?_
  replace atHand := atHand.touched touches
  rcases returns_bind.mp remaining with
    ⟨error, rfl, failed⟩ | ⟨parts, listed, lists, emptying⟩
  · obtain ⟨touches, ⟨⟨_, same, _⟩, _⟩ | ⟨_, noted⟩⟩ :=
      effect_listParts atHand
        (Program.runs_perform.mp (returns_attempt.mp failed))
    · cases same
    · exact .refused touches noted
  obtain ⟨touches, ⟨⟨_, same, complete⟩, quiet⟩ | ⟨⟨_, same⟩, _⟩⟩ :=
    effect_listParts atHand
      (Program.runs_perform.mp (returns_attempt.mp lists))
  on_goal 2 => cases same
  cases same
  refine Strips.since touches quiet ?_
  replace atHand := atHand.touched touches
  rcases returns_bind.mp emptying with
    ⟨error, rfl, failed⟩ | ⟨⟨⟩, emptied, unlinks, last⟩
  · cases strips_unlinkParts atHand failed with
    | refused touches noted => exact .refused touches noted
  · cases strips_unlinkParts atHand unlinks with
    | done touches quiet =>
        refine Strips.since touches quiet ?_
        have strips := effect_rmdir (atHand.touched touches)
          (isBare_withoutAll complete _)
          (Program.runs_perform.mp (returns_attempt.mp last))
        exact strips

/-! ## One entry -/

/-- From before to after, with a moment in between. -/
structure Between (before after : Startup) (now : Nat) : Prop
    extends Onward before after where
  started : before.world.clock ≤ now
  ended : now ≤ after.world.clock

/-- How recovery treats an entry of the listing. -/
inductive Treats (before after : Startup) (name : EntryName) (now : Nat) :
    Bool → Except SkippedStagingEntry Bool → Prop
  | spared
      {isDirectory : Bool}
      (entries : after.entry = before.entry)
      (quiet : after.failed = before.failed)
      (why : ∀ found, isDirectory = true → before.entry name = some found →
        Expired found.dir now →
          Kept name found.dir ∧ ∃ id, name = .abandoned id) :
      Treats before after name now isDirectory (.ok false)
  | preserved
      {id fresh : String}
      {found : AreaEntry}
      {outcome : Except SkippedStagingEntry Bool}
      (active : name = .active id)
      (stands : before.entry name = some found)
      (expired : Expired found.dir now)
      (kept : Kept name found.dir)
      (unspent : fresh ∉ before.world.area.spent)
      (unused : before.files (.abandoned fresh) = none)
      (entries : ∀ other, after.entry other =
        if other = .abandoned fresh then some found
        else if other = name then none
        else before.entry other)
      (synced : outcome = .ok false ∧ after.failed = before.failed ∨
        (∃ error, outcome = .error error) ∧
          after.failed = name :: before.failed) :
      Treats before after name now true outcome
  | stuck
      {id : String}
      {found : AreaEntry}
      {error : SkippedStagingEntry}
      (active : name = .active id)
      (stands : before.entry name = some found)
      (expired : Expired found.dir now)
      (kept : Kept name found.dir)
      (entries : after.entry = before.entry)
      (noted : after.failed = name :: before.failed) :
      Treats before after name now true (.error error)
  | removed
      {found : AreaEntry}
      (stands : before.entry name = some found)
      (expired : Expired found.dir now)
      (useless : ¬ Kept name found.dir)
      (entries : ∀ other, after.entry other =
        if other = name then none else before.entry other)
      (quiet : after.failed = before.failed) :
      Treats before after name now true (.ok true)
  | damaged
      {found : AreaEntry}
      {dir : StagingDir}
      {error : SkippedStagingEntry}
      (stands : before.entry name = some found)
      (expired : Expired found.dir now)
      (useless : ¬ Kept name found.dir)
      (entries : ∀ other, after.entry other =
        if other = name then some ⟨found.inode, dir⟩
        else before.entry other)
      (noted : after.failed = name :: before.failed) :
      Treats before after name now true (.error error)

/-- Nothing but the entry at hand has changed since its lease was read. -/
structure Examined (before after : Startup) (name : EntryName)
    (now : Nat) : Prop extends Between before after now where
  entries : after.entry = before.entry
  quiet : after.failed = before.failed
  examined : after.examined = some name

theorem effect_readLeaseAndTime
    {reply : Except ArchiveError (Nat × Nat)}
    (step : Effect (.readLeaseAndTime name) before reply after) :
    ∃ now, Examined before after name now ∧
      reply = after.world.told name fun found =>
        found.dir.lease.expiry.map fun expiresAt => (expiresAt, now) := by
  obtain ⟨now, later, ⟨⟨⟩⟩ | succeeds⟩ := step
  have answered : (before.advance now).succeed (.readLeaseAndTime name) =
      (reply, after) := succeeds
  refine ⟨now, ?_⟩
  cases stands : before.world.area.entry name with
  | none =>
      have absent : (before.advance now).world.area.entry name = none := stands
      simp only [succeed, respond, within_none absent] at answered
      cases answered
      exact ⟨⟨⟨⟨rfl, rfl, later, fun _ member => member⟩, later,
        Nat.le_refl _⟩, rfl, rfl, rfl⟩, (told_none absent _).symm⟩
  | some found =>
      have present : (before.advance now).world.area.entry name =
        some found := stands
      simp only [succeed, respond, within_some present] at answered
      cases answered
      exact ⟨⟨⟨⟨rfl, rfl, later, fun _ member => member⟩, later,
        Nat.le_refl _⟩, rfl, rfl, rfl⟩,
        (told_some present fun found => found.dir.lease.expiry.map
          fun expiresAt => (expiresAt, now)).symm⟩

theorem effect_readIdentity
    {reply : Except ArchiveError FetchStagingMetadata}
    (atHand : AtHand before name found)
    (step : Effect (.readIdentity name) before reply after) :
    Same before after ∧ after.failed = before.failed ∧
      reply = found.dir.readIdentity := by
  obtain ⟨now, later, ⟨⟨⟩⟩ | succeeds⟩ := step
  have answered : (before.advance now).succeed (.readIdentity name) =
      (reply, after) := succeeds
  simp only [succeed, respond,
    within_some (atHand.advance now).stands] at answered
  cases answered
  exact ⟨same_advance later, rfl, rfl⟩

/-- The entry at hand once its lease was read. -/
theorem Examined.atHand
    {now : Nat}
    {middle : Startup}
    (looked : Examined before middle name now)
    (stands : before.entry name = some found) :
    AtHand middle name found := by
  refine ⟨?_, looked.examined⟩
  rw [looked.entries, stands]

theorem Examined.same
    {now : Nat}
    {middle : Startup}
    (looked : Examined before middle name now)
    (same : Same middle after)
    (quiet : after.failed = middle.failed) :
    Examined before after name now :=
  ⟨⟨looked.toOnward.trans same.toOnward, looked.started,
      Nat.le_trans looked.ended same.clock⟩,
    same.entries.trans looked.entries, quiet.trans looked.quiet,
    same.examined.trans looked.examined⟩

theorem Between.onward
    {now : Nat}
    {middle : Startup}
    (between : Between before middle now)
    (onward : Onward middle after) :
    Between before after now :=
  ⟨between.toOnward.trans onward, between.started,
    Nat.le_trans between.ended onward.clock⟩

theorem effect_operationId
    {id : String}
    (step : Effect .operationId before id after) :
    Same before after ∧ after.failed = before.failed ∧
      id ∉ before.world.area.spent ∧ id ∈ after.world.area.spent ∧
      before.files (.abandoned id) = none := by
  obtain ⟨now, later, ⟨⟨⟩⟩ | ⟨unspent, unused, rfl⟩⟩ := step
  exact ⟨⟨⟨rfl, rfl, later, fun _ member => List.mem_cons_of_mem _ member⟩,
    rfl, rfl⟩, rfl, unspent, List.mem_cons_self, unused⟩

theorem effect_rename
    {new : EntryName}
    {reply : Except ArchiveError Unit}
    (atHand : AtHand before name found)
    (free : before.world.area.Free new)
    (step : Effect (.rename name new) before reply after) :
    Onward before after ∧ after.examined = before.examined ∧
      (reply = .ok () ∧ after.failed = before.failed ∧
          (∀ other, after.entry other =
            if other = new then some found
            else if other = name then none
            else before.entry other) ∨
        (∃ error, reply = .error error) ∧ after.entry = before.entry ∧
          after.failed = name :: before.failed) := by
  obtain ⟨now, later, ⟨refused, rfl⟩ | succeeds⟩ := step
  · exact ⟨(same_advance later).toOnward.trans (same_note _).toOnward, rfl,
      Or.inr ⟨refused, rfl, (atHand.advance now).noted⟩⟩
  · have answered : (before.advance now).succeed (.rename name new) =
        (reply, after) := succeeds
    have stands : (before.advance now).world.area.entry name = some found :=
      atHand.stands
    obtain ⟨area, moved⟩ := TemporaryArea.move_isSome stands free
    obtain ⟨stood, standsToo, _, spent, entries⟩ :=
      TemporaryArea.move_eq_some moved
    cases stands.symm.trans standsToo
    simp only [succeed, respond, within_some stands, moved] at answered
    cases answered
    refine ⟨⟨rfl, rfl, later, ?_⟩, rfl, Or.inl ⟨rfl, rfl, entries⟩⟩
    intro id member
    change id ∈ area.spent
    rwa [spent]

theorem effect_sync
    {reply : Except ArchiveError Unit}
    (examined : before.examined = some name)
    (step : Effect .syncDirectory before reply after) :
    Same before after ∧
      (reply = .ok () ∧ after.failed = before.failed ∨
        (∃ error, reply = .error error) ∧
          after.failed = name :: before.failed) := by
  obtain ⟨now, later, ⟨refused, rfl⟩ | succeeds⟩ := step
  · refine ⟨(same_advance later).trans (same_note _), Or.inr ⟨refused, ?_⟩⟩
    simp [note, advance, examined]
  · have answered : (before.advance now).succeed .syncDirectory =
        (reply, after) := succeeds
    simp only [succeed, respond] at answered
    cases answered
    exact ⟨same_advance later, Or.inl ⟨rfl, rfl⟩⟩

theorem treats_discard
    {now : Nat}
    {middle : Startup}
    {outcome : Except SkippedStagingEntry Bool}
    (looked : Examined before middle name now)
    (stands : before.entry name = some found)
    (expired : Expired found.dir now)
    (useless : ¬ Kept name found.dir)
    (run : Returns Effect (do
      during .discard (removeDirAll name)
      check (.ok true)) middle outcome after) :
    Between before after now ∧
      Treats before after name now true outcome := by
  have entries : ∀ {left : Option AreaEntry} {later : Startup},
      Touches middle later name left → ∀ other, later.entry other =
        if other = name then left else before.entry other := by
    intro left later touches other
    rw [touches.entries, looked.entries]
  rcases returns_bind.mp run with
    ⟨skipped, rfl, failed⟩ | ⟨⟨⟩, emptied, removes, last⟩
  · obtain ⟨answer, same, run⟩ := returns_mapError.mp failed
    cases strips_removeDirAll (looked.atHand stands) run with
    | done => cases same
    | refused touches noted =>
        refine ⟨looked.toBetween.onward touches.toOnward, ?_⟩
        refine .damaged stands expired useless (entries touches) ?_
        rw [noted, looked.quiet]
  · obtain ⟨answer, same, run⟩ := returns_mapError.mp removes
    obtain ⟨rfl, rfl⟩ := returns_check.mp last
    cases strips_removeDirAll (looked.atHand stands) run with
    | done touches quiet =>
        refine ⟨looked.toBetween.onward touches.toOnward, ?_⟩
        exact .removed stands expired useless (entries touches)
          (quiet.trans looked.quiet)
    | refused => cases same

theorem treats_preserve
    {now : Nat}
    {middle : Startup}
    {id : String}
    {outcome : Except SkippedStagingEntry Bool}
    (looked : Examined before middle (.active id) now)
    (stands : before.entry (.active id) = some found)
    (expired : Expired found.dir now)
    (kept : Kept (.active id) found.dir)
    (run : Returns Effect (do
      let operation ← always (perform .operationId)
      during .preserveForResume
        (attempt (perform (.rename (.active id) (.abandoned operation))))
      during .preserveForResume (attempt (perform .syncDirectory))
      check (.ok false)) middle outcome after) :
    Between before after now ∧
      Treats before after (.active id) now true outcome := by
  obtain ⟨fresh, drawn, draws, run⟩ := returns_always_bind.mp run
  obtain ⟨same, quiet, unspent, spent, unused⟩ :=
    effect_operationId (Program.runs_perform.mp draws)
  have unspent : fresh ∉ before.world.area.spent := fun member =>
    unspent (looked.spent fresh member)
  have unused : before.files (.abandoned fresh) = none := by
    rw [← looked.files, unused]
  have looked := looked.same same quiet
  have absent : before.entry (.abandoned fresh) = none := by
    cases present : before.entry (.abandoned fresh) with
    | none => rfl
    | some stood =>
        have taken : (before.world.area.entry (.abandoned fresh)).isSome :=
          Option.isSome_iff_exists.mpr ⟨stood, present⟩
        exact absurd (before.world.area.issued _ fresh taken rfl) unspent
  have free : drawn.world.area.Free (.abandoned fresh) := by
    constructor
    · exact (congrFun looked.entries _).trans absent
    · intro other named
      cases named
      exact spent
  have renames := fun reply later
      (step : Effect (.rename (.active id) (.abandoned fresh)) drawn reply
        later) =>
    effect_rename (looked.atHand stands) free step
  rcases returns_bind.mp run with
    ⟨skipped, rfl, failed⟩ | ⟨⟨⟩, moved, renamed, remaining⟩
  · obtain ⟨answer, same, run⟩ := returns_mapError.mp failed
    obtain ⟨onward, _, ⟨rfl, _⟩ | ⟨_, entries, noted⟩⟩ :=
      renames _ _ (Program.runs_perform.mp run)
    · cases same
    · refine ⟨looked.toBetween.onward onward, ?_⟩
      refine .stuck rfl stands expired kept (entries.trans looked.entries) ?_
      rw [noted, looked.quiet]
  obtain ⟨answer, same, run⟩ := returns_mapError.mp renamed
  obtain ⟨onward, examined, ⟨_, quiet, entries⟩ | ⟨⟨error, rfl⟩, _⟩⟩ :=
    renames _ _ (Program.runs_perform.mp run)
  on_goal 2 => cases same
  have examined : moved.examined = some (.active id) :=
    examined.trans looked.examined
  have between := looked.toBetween.onward onward
  have quiet := quiet.trans looked.quiet
  rw [looked.entries] at entries
  rcases returns_bind.mp remaining with
    ⟨skipped, rfl, failed⟩ | ⟨⟨⟩, synced, syncs, last⟩
  · obtain ⟨answer, sameAnswer, run⟩ := returns_mapError.mp failed
    obtain ⟨still, ⟨rfl, _⟩ | ⟨_, noted⟩⟩ :=
      effect_sync examined (Program.runs_perform.mp run)
    · cases sameAnswer
    · refine ⟨between.onward still.toOnward, ?_⟩
      refine .preserved rfl stands expired kept unspent unused ?_
        (Or.inr ⟨⟨skipped, rfl⟩, ?_⟩)
      · rw [still.entries]
        exact entries
      · rw [noted, quiet]
  · obtain ⟨answer, sameAnswer, run⟩ := returns_mapError.mp syncs
    obtain ⟨still, ⟨_, quietToo⟩ | ⟨⟨error, rfl⟩, _⟩⟩ :=
      effect_sync examined (Program.runs_perform.mp run)
    on_goal 2 => cases sameAnswer
    obtain ⟨rfl, rfl⟩ := returns_check.mp last
    refine ⟨between.onward still.toOnward, ?_⟩
    refine .preserved rfl stands expired kept unspent unused ?_
      (Or.inl ⟨rfl, quietToo.trans quiet⟩)
    rw [still.entries]
    exact entries

theorem treats_reclaimEntry
    {now : Nat}
    {middle : Startup}
    {identity : Option FetchStagingMetadata}
    {outcome : Except SkippedStagingEntry Bool}
    (looked : Examined before middle name now)
    (stands : before.entry name = some found)
    (expired : Expired found.dir now)
    (known : (identity.any fun metadata =>
      metadata.resolvedCommit.isSome) = true ↔ Kept name found.dir)
    (run : Returns Effect (reclaimEntry name identity) middle outcome after) :
    Between before after now ∧
      Treats before after name now true outcome := by
  unfold reclaimEntry at run
  dsimp only at run
  split at run
  · next id resumable =>
      obtain ⟨rfl, rfl⟩ := returns_check.mp run
      refine ⟨looked.toBetween, .spared looked.entries looked.quiet ?_⟩
      intro other _ standsToo _
      rw [stands] at standsToo
      cases standsToo
      exact ⟨known.mp resumable, id, rfl⟩
  · next id resumable =>
      exact treats_preserve looked stands expired (known.mp resumable) run
  · next name _ _ notAbandoned notActive =>
      refine treats_discard looked stands expired ?_ run
      intro kept
      have resumable := known.mpr kept
      cases name with
      | abandoned id => exact notAbandoned id rfl resumable
      | active id => exact notActive id rfl resumable
      | other text => cases kept.1

theorem expiry_eq_ok
    {lease : Lease}
    {expiresAt : Nat} :
    lease.expiry = .ok expiresAt ↔ lease = .expires expiresAt := by
  cases lease <;> simp [Lease.expiry]

/-- What is known of an identity that was looked at. -/
theorem resumable_iff {dir : StagingDir} :
    ((dir.readIdentity >>= checkMetadata).toOption.any fun metadata =>
      metadata.resolvedCommit.isSome) = true ↔ Resumable dir := by
  unfold Resumable
  cases dir.readIdentity >>= checkMetadata with
  | error error => simp [Except.toOption]
  | ok metadata => simp [Except.toOption]

theorem readMetadata_examined
    {now : Nat}
    {middle : Startup}
    {outcome : Except ArchiveError FetchStagingMetadata}
    (looked : Examined before middle name now)
    (stands : before.entry name = some found)
    (run : Returns Effect (readFetchStagingMetadata name) middle outcome
      after) :
    Examined before after name now ∧
      outcome = found.dir.readIdentity >>= checkMetadata := by
  have reads := fun reply later
      (step : Effect (.readIdentity name) middle reply later) =>
    effect_readIdentity (looked.atHand stands) step
  unfold readFetchStagingMetadata at run
  rcases returns_bind.mp run with
    ⟨error, rfl, failed⟩ | ⟨metadata, later, read, checked⟩
  · obtain ⟨same, quiet, answered⟩ :=
      reads _ _ (Program.runs_perform.mp (returns_attempt.mp failed))
    rw [← answered]
    exact ⟨looked.same same quiet, rfl⟩
  · obtain ⟨same, quiet, answered⟩ :=
      reads _ _ (Program.runs_perform.mp (returns_attempt.mp read))
    obtain ⟨rfl, rfl⟩ := returns_check.mp checked
    rw [← answered]
    exact ⟨looked.same same quiet, rfl⟩

/-- One entry of the listing. -/
theorem treats_recoverStagingEntry
    {isDirectory : Bool}
    {outcome : Except SkippedStagingEntry Bool}
    (run : Returns Effect (recoverStagingEntry name isDirectory) before outcome
      after) :
    ∃ now, Between before after now ∧
      Treats before after name now isDirectory outcome := by
  unfold recoverStagingEntry at run
  split at run
  · next noDirectory =>
      obtain ⟨rfl, rfl⟩ := returns_check.mp run
      refine ⟨after.world.clock, ⟨Onward.refl after, Nat.le_refl _,
        Nat.le_refl _⟩, .spared rfl rfl ?_⟩
      intro found directory
      rw [noDirectory] at directory
      cases directory
  next directory =>
  rw [Bool.not_eq_false] at directory
  subst directory
  obtain ⟨answer, middle, reads, run⟩ := returns_always_bind.mp run
  obtain ⟨now, looked, told⟩ :=
    effect_readLeaseAndTime (Program.runs_perform.mp reads)
  refine ⟨now, ?_⟩
  have spared : (∀ found, before.entry name = some found →
        ¬ Expired found.dir now) →
      Returns Effect (check (.ok false)) middle outcome after →
      Between before after now ∧
        Treats before after name now true outcome := by
    rintro alive ⟨rfl, rfl⟩
    exact ⟨looked.toBetween, .spared looked.entries looked.quiet
      fun found _ stands expired => absurd expired (alive found stands)⟩
  cases stands : before.entry name with
  | none =>
      have absent : middle.world.area.entry name = none :=
        (congrFun looked.entries name).trans stands
      rw [told_none absent] at told
      subst told
      exact spared (by simp [stands]) run
  | some found =>
      have present : middle.world.area.entry name = some found :=
        (congrFun looked.entries name).trans stands
      rw [told_some present] at told
      cases expiry : found.dir.lease.expiry with
      | error error =>
          rw [expiry] at told
          subst told
          refine spared ?_ run
          intro other standsToo
          cases stands.symm.trans standsToo
          rintro ⟨expiresAt, lease, _⟩
          rw [expiry_eq_ok.mpr lease] at expiry
          cases expiry
      | ok expiresAt =>
          have lease := expiry_eq_ok.mp expiry
          rw [expiry] at told
          subst told
          dsimp only [Except.map] at run
          split at run
          · next alive =>
              refine spared ?_ run
              intro other standsToo
              cases stands.symm.trans standsToo
              rintro ⟨expiresToo, leaseToo, expired⟩
              cases lease.symm.trans leaseToo
              omega
          · next late =>
              have expired : Expired found.dir now :=
                ⟨expiresAt, lease, by omega⟩
              split at run
              · next fetch =>
                  obtain ⟨identity, read, metadata, run⟩ :=
                    returns_always_bind.mp run
                  obtain ⟨looked, rfl⟩ :=
                    readMetadata_examined looked stands metadata
                  refine treats_reclaimEntry looked stands expired ?_ run
                  rw [resumable_iff, Kept, and_iff_right fetch]
              · next notFetch =>
                  refine treats_reclaimEntry looked stands expired ?_ run
                  simp [Kept, notFetch]

/-! ## The listing -/

/-- What became of a directory: what may not be touched stays where it was,
what can be resumed is under an abandoned name or, if its rename was refused,
where it was, and the rest is gone, unless something was refused. -/
inductive Fate (start final : Startup) (name : EntryName)
    (found : AreaEntry) (now : Nat) : Prop
  | spared
      (alive : ¬ Expired found.dir now)
      (stays : final.entry name = some found)
  | waiting
      {id : String}
      (expired : Expired found.dir now)
      (kept : Kept name found.dir)
      (abandoned : name = .abandoned id)
      (stays : final.entry name = some found)
  | preserved
      {id fresh : String}
      (expired : Expired found.dir now)
      (kept : Kept name found.dir)
      (active : name = .active id)
      (unspent : fresh ∉ start.world.area.spent)
      (unused : start.files (.abandoned fresh) = none)
      (vacated : final.entry name = none)
      (moved : final.entry (.abandoned fresh) = some found)
  | stuck
      {id : String}
      (expired : Expired found.dir now)
      (kept : Kept name found.dir)
      (active : name = .active id)
      (stays : final.entry name = some found)
      (noted : name ∈ final.failed)
  | removed
      (expired : Expired found.dir now)
      (useless : ¬ Kept name found.dir)
      (gone : ∀ other left, final.entry other = some left →
        left.inode ≠ found.inode)
  | damaged
      {dir : StagingDir}
      (expired : Expired found.dir now)
      (useless : ¬ Kept name found.dir)
      (stays : final.entry name = some ⟨found.inode, dir⟩)
      (noted : name ∈ final.failed)

/-- No directory has a name that was not drawn. -/
theorem entry_unspent
    {id : String}
    (unspent : id ∉ before.world.area.spent) :
    before.entry (.abandoned id) = none := by
  cases present : before.entry (.abandoned id) with
  | none => rfl
  | some found =>
      have taken : (before.world.area.entry (.abandoned id)).isSome :=
        Option.isSome_iff_exists.mpr ⟨found, present⟩
      exact absurd (before.world.area.issued _ id taken rfl) unspent

section treats

variable {middle : Startup} {now : Nat} {isDirectory : Bool}
  {outcome : Except SkippedStagingEntry Bool}

/-- The other directories stay. -/
theorem Treats.others
    (treats : Treats before middle name now isDirectory outcome)
    {other : EntryName}
    (different : other ≠ name)
    (stands : before.entry other = some found) :
    middle.entry other = some found := by
  cases treats with
  | spared entries => rw [entries, stands]
  | preserved _ _ _ _ unspent _ entries =>
      rw [entries, if_neg, if_neg different, stands]
      intro fresh
      rw [fresh, entry_unspent unspent] at stands
      cases stands
  | stuck _ _ _ _ entries => rw [entries, stands]
  | removed _ _ _ entries => rw [entries, if_neg different, stands]
  | damaged _ _ _ entries => rw [entries, if_neg different, stands]

/-- The directory at hand was moved here. -/
def MovedHere (before middle : Startup) (name : EntryName) (now : Nat)
    (other : EntryName) (left : AreaEntry) : Prop :=
  (∃ id, name = .active id) ∧ (∃ fresh, other = .abandoned fresh) ∧
    before.entry name = some left ∧ Kept name left.dir ∧
      Expired left.dir now ∧ middle.entry name = none

/-- Where the other directories come from. -/
theorem Treats.source
    (treats : Treats before middle name now isDirectory outcome)
    {other : EntryName}
    (different : other ≠ name)
    (stands : middle.entry other = some found) :
    before.entry other = some found ∨
      MovedHere before middle name now other found := by
  cases treats with
  | spared entries =>
      rw [entries] at stands
      exact Or.inl stands
  | @preserved id fresh _ _ active stood expired kept unspent unused entries =>
      rw [entries] at stands
      split at stands
      · next moved =>
          cases stands
          refine Or.inr ⟨⟨id, active⟩, ⟨fresh, moved⟩, stood, kept, expired, ?_⟩
          rw [entries, if_pos rfl, if_neg]
          rw [active]
          simp
      · exact Or.inl stands
  | stuck _ _ _ _ entries =>
      rw [entries] at stands
      exact Or.inl stands
  | removed _ _ _ entries =>
      rw [entries, if_neg different] at stands
      exact Or.inl stands
  | damaged _ _ _ entries =>
      rw [entries, if_neg different] at stands
      exact Or.inl stands

end treats

theorem Expired.later
    {dir : StagingDir}
    {now later : Nat}
    (expired : Expired dir now)
    (after : now ≤ later) :
    Expired dir later := by
  obtain ⟨expiresAt, lease, past⟩ := expired
  exact ⟨expiresAt, lease, Nat.le_trans past after⟩

/-- No directory has the inode any more. -/
def Gone (startup : Startup) (inode : Nat) : Prop :=
  ∀ other left, startup.entry other = some left → left.inode ≠ inode

theorem Gone.absent
    (gone : Gone before found.inode) :
    before.entry name ≠ some found :=
  fun stands => gone name found stands rfl

/-- What recovery leaves when it has gone through a listing. -/
structure Swept (start final : Startup) (entries : List (EntryName × Bool))
    (skipped gone : List EntryName) : Prop extends Onward start final where
  fates : ∀ name found, (name, true) ∈ entries →
    start.entry name = some found →
      ∃ now, start.world.clock ≤ now ∧ now ≤ final.world.clock ∧
        Fate start final name found now
  others : ∀ name found, (name, true) ∉ entries →
    start.entry name = some found → final.entry name = some found
  origin : ∀ name left, final.entry name = some left →
    (∃ found, start.entry name = some found ∧ left.inode = found.inode) ∨
      ∃ id fresh, name = .abandoned fresh ∧ (.active id, true) ∈ entries ∧
        start.entry (.active id) = some left ∧ Kept (.active id) left.dir
  noted : final.failed = skipped.reverse ++ start.failed
  nodup : gone.Nodup
  counted : ∀ name, name ∈ gone ↔ (name, true) ∈ entries ∧
    ∃ found, start.entry name = some found ∧ Gone final found.inode

theorem swept_nil (startup : Startup) : Swept startup startup [] [] [] where
  toOnward := Onward.refl startup
  fates := by simp
  others := fun _ _ _ stands => stands
  origin := fun _ left stands => Or.inl ⟨left, stands, rfl⟩
  noted := by simp
  nodup := List.nodup_nil
  counted := by simp

/-- A fate that starts later is one that starts here. -/
theorem Fate.since
    {start final : Startup}
    {now : Nat}
    (onward : Onward before start)
    (fate : Fate start final name found now) :
    Fate before final name found now := by
  cases fate with
  | spared alive stays => exact .spared alive stays
  | waiting expired kept abandoned stays =>
      exact .waiting expired kept abandoned stays
  | preserved expired kept active unspent unused vacated moved =>
      refine .preserved expired kept active ?_ ?_ vacated moved
      · exact fun member => unspent (onward.spent _ member)
      · rw [← onward.files, unused]
  | stuck expired kept active stays noted =>
      exact .stuck expired kept active stays noted
  | removed expired useless gone => exact .removed expired useless gone
  | damaged expired useless stays noted =>
      exact .damaged expired useless stays noted

section swept

variable {middle final : Startup} {now : Nat} {isDirectory : Bool}
  {outcome : Except SkippedStagingEntry Bool}
  {rest : List (EntryName × Bool)} {skipped gone : List EntryName}

/-- Staging that was moved under an abandoned name waits there. -/
theorem Swept.moved_stays
    (swept : Swept middle final rest skipped gone)
    {id : String}
    (stands : middle.entry (.abandoned id) = some found)
    (resumable : Resumable found.dir) :
    final.entry (.abandoned id) = some found := by
  by_cases listed : (EntryName.abandoned id, true) ∈ rest
  · obtain ⟨later, started, _, fate⟩ := swept.fates _ found listed stands
    cases fate with
    | spared _ stays => exact stays
    | waiting _ _ _ stays => exact stays
    | preserved _ _ active => cases active
    | stuck _ _ active => cases active
    | removed _ useless => exact absurd ⟨rfl, resumable⟩ useless
    | damaged _ useless => exact absurd ⟨rfl, resumable⟩ useless
  · exact swept.others _ found listed stands

/-- Two names lead to two inodes. -/
theorem inode_ne
    {other : EntryName}
    {left : AreaEntry}
    (stands : before.entry name = some found)
    (standsToo : before.entry other = some left)
    (different : other ≠ name) :
    left.inode ≠ found.inode := by
  intro same
  exact different (before.world.area.distinct other name left found standsToo
    stands same)

/-- A name that was vacated stays vacant, unless it is an abandoned one. -/
theorem Swept.vacant
    (swept : Swept middle final rest skipped gone)
    {id : String}
    (vacant : middle.entry (.active id) = none) :
    final.entry (.active id) = none := by
  cases present : final.entry (.active id) with
  | none => rfl
  | some left =>
      rcases swept.origin _ left present with ⟨found, stands, _⟩ | ⟨_, _, named, _⟩
      · rw [vacant] at stands
        cases stands
      · cases named

/-- What the entry that comes first ends as. -/
theorem Swept.fate_first
    (treats : Treats before middle name now true outcome)
    (swept : Swept middle final rest skipped gone)
    (unlisted : (name, true) ∉ rest)
    (stands : before.entry name = some found) :
    Fate before final name found now := by
  have stays : ∀ {left : AreaEntry}, middle.entry name = some left →
      final.entry name = some left := fun stood =>
    swept.others name _ unlisted stood
  have noted : middle.failed = name :: before.failed →
      name ∈ final.failed := by
    intro noted
    rw [swept.noted, noted]
    simp
  cases treats with
  | spared entries _ why =>
      rw [← entries] at stands
      by_cases expired : Expired found.dir now
      · rw [entries] at stands
        obtain ⟨kept, id, abandoned⟩ := why found rfl stands expired
        rw [← entries] at stands
        exact .waiting expired kept abandoned (stays stands)
      · exact .spared expired (stays stands)
  | @preserved id fresh _ _ active stood expired kept unspent unused entries =>
      cases stands.symm.trans stood
      subst active
      refine .preserved expired kept rfl unspent unused ?_ ?_
      · apply swept.vacant
        rw [entries]
        simp
      · refine swept.moved_stays ?_ kept.2
        rw [entries, if_pos rfl]
  | stuck active stood expired kept entries notes =>
      cases stands.symm.trans stood
      refine .stuck expired kept active (stays ?_) (noted notes)
      rw [entries, stands]
  | removed stood expired useless entries =>
      cases stands.symm.trans stood
      refine .removed expired useless ?_
      intro other left present
      have source : ∀ other left, middle.entry other = some left →
          left.inode ≠ found.inode := by
        intro other left present
        rw [entries] at present
        split at present
        · cases present
        · next different => exact inode_ne stands present different
      rcases swept.origin other left present with
        ⟨stoodThen, standsThen, same⟩ | ⟨_, _, _, _, standsThen, _⟩
      · rw [same]
        exact source other stoodThen standsThen
      · exact source _ left standsThen
  | @damaged _ dir _ stood expired useless entries notes =>
      cases stands.symm.trans stood
      have stoodThen : middle.entry name = some ⟨found.inode, dir⟩ := by
        rw [entries, if_pos rfl]
      exact .damaged expired useless (stays stoodThen) (noted notes)

/-- The entries that are reported as skipped. -/
def skippedBy (name : EntryName) :
    Except SkippedStagingEntry Bool → List EntryName
  | .error _ => [name]
  | .ok _ => []

/-- The entries that are counted as recovered. -/
def goneBy (name : EntryName) :
    Except SkippedStagingEntry Bool → List EntryName
  | .ok true => [name]
  | _ => []

theorem Treats.source_self
    {left : AreaEntry}
    (treats : Treats before middle name now isDirectory outcome)
    (stands : middle.entry name = some left) :
    ∃ found, before.entry name = some found ∧ left.inode = found.inode := by
  cases treats with
  | spared entries => exact ⟨left, by rw [← entries, stands], rfl⟩
  | preserved active _ _ _ _ _ entries =>
      rw [entries, if_neg (by simp [active]), if_pos rfl] at stands
      cases stands
  | stuck _ _ _ _ entries => exact ⟨left, by rw [← entries, stands], rfl⟩
  | removed _ _ _ entries =>
      rw [entries, if_pos rfl] at stands
      cases stands
  | damaged stood _ _ entries =>
      rw [entries, if_pos rfl] at stands
      cases stands
      exact ⟨_, stood, rfl⟩

theorem Treats.noted
    (treats : Treats before middle name now isDirectory outcome) :
    middle.failed = (skippedBy name outcome).reverse ++ before.failed := by
  cases treats with
  | preserved _ _ _ _ _ _ _ synced =>
      obtain ⟨rfl, quiet⟩ | ⟨⟨_, rfl⟩, noted⟩ := synced
      · simpa [skippedBy] using quiet
      · simpa [skippedBy] using noted
  | _ => simpa [skippedBy]

/-- What is left of a directory in hand tells whether it was counted. -/
theorem Swept.counted_first
    (treats : Treats before middle name now isDirectory outcome)
    (swept : Swept middle final rest skipped gone)
    (unlisted : (name, true) ∉ rest) :
    name ∈ goneBy name outcome ↔ isDirectory = true ∧
      ∃ found, before.entry name = some found ∧ Gone final found.inode := by
  have still : ∀ {left : AreaEntry}, middle.entry name = some left →
      ¬ Gone final left.inode := fun stood gone =>
    gone.absent (swept.others name _ unlisted stood)
  cases treats with
  | spared entries =>
      simp only [goneBy, List.not_mem_nil, false_iff]
      rintro ⟨_, found, stands, gone⟩
      exact still (by rw [entries, stands]) gone
  | @preserved id fresh stoodHere _ active stood expired kept unspent unused
      entries synced =>
      have moved : final.entry (.abandoned fresh) = some stoodHere :=
        swept.moved_stays (by rw [entries, if_pos rfl]) kept.2
      have uncounted : name ∉ goneBy name outcome := by
        rcases synced with ⟨same, _⟩ | ⟨⟨_, same⟩, _⟩ <;> simp [goneBy, same]
      simp only [uncounted, false_iff]
      rintro ⟨_, found, stands, gone⟩
      cases stood.symm.trans stands
      exact gone.absent moved
  | stuck _ stood _ _ entries =>
      simp only [goneBy, List.not_mem_nil, false_iff]
      rintro ⟨_, found, stands, gone⟩
      exact still (by rw [entries, stands]) gone
  | @removed stoodHere stood expired useless entries quiet =>
      simp only [goneBy, List.mem_singleton, true_iff]
      refine ⟨trivial, stoodHere, stood, ?_⟩
      cases swept.fate_first (.removed stood expired useless entries quiet)
        unlisted stood with
      | removed _ _ gone => exact gone
      | spared alive => exact absurd expired alive
      | waiting _ kept => exact absurd kept useless
      | preserved _ kept => exact absurd kept useless
      | stuck _ kept => exact absurd kept useless
      | damaged _ _ stays =>
          have vacated : middle.entry name = none := by
            rw [entries, if_pos rfl]
          rcases swept.origin _ _ stays with
            ⟨found, stands, _⟩ | ⟨id, fresh, named, _, stands, _⟩
          · rw [vacated] at stands
            cases stands
          · rw [entries] at stands
            split at stands
            · cases stands
            · next different =>
                exact (inode_ne stood stands different rfl).elim
  | damaged stood _ _ entries =>
      simp only [goneBy, List.not_mem_nil, false_iff]
      rintro ⟨_, found, stands, gone⟩
      cases stood.symm.trans stands
      have stoodThen := entries name
      rw [if_pos rfl] at stoodThen
      exact still stoodThen gone

theorem Swept.cons
    (between : Between before middle now)
    (treats : Treats before middle name now isDirectory outcome)
    (swept : Swept middle final rest skipped gone)
    (unlisted : name ∉ rest.map Prod.fst) :
    Swept before final ((name, isDirectory) :: rest)
      (skippedBy name outcome ++ skipped) (goneBy name outcome ++ gone) := by
  have unlisted : ∀ kind, (name, kind) ∉ rest := fun kind member =>
    unlisted (List.mem_map_of_mem (f := Prod.fst) member)
  have different : ∀ {other : EntryName} {kind : Bool},
      (other, kind) ∈ rest → other ≠ name := by
    intro other kind member same
    exact unlisted kind (same ▸ member)
  constructor
  · exact between.toOnward.trans swept.toOnward
  · intro other found listed stands
    rcases List.mem_cons.mp listed with first | later
    · cases first
      exact ⟨now, between.started,
        Nat.le_trans between.ended swept.clock,
        swept.fate_first treats (unlisted true) stands⟩
    · obtain ⟨moment, started, ended, fate⟩ := swept.fates other found later
        (treats.others (different later) stands)
      exact ⟨moment, Nat.le_trans between.clock started, ended,
        fate.since between.toOnward⟩
  · intro other found notListed stands
    rw [List.mem_cons, not_or] at notListed
    refine swept.others other found notListed.2 ?_
    by_cases same : other = name
    · subst same
      have file : isDirectory ≠ true := fun directory =>
        notListed.1 (by rw [directory])
      cases treats with
      | spared entries => rw [entries, stands]
      | _ => exact absurd rfl file
    · exact treats.others same stands
  · intro other left present
    rcases swept.origin other left present with
      ⟨found, stands, inode⟩ | ⟨id, fresh, named, listed, stands, kept⟩
    · by_cases same : other = name
      · subst same
        obtain ⟨stood, standsBefore, inodeBefore⟩ := treats.source_self stands
        exact Or.inl ⟨stood, standsBefore, inode.trans inodeBefore⟩
      · rcases treats.source same stands with
          stood | ⟨⟨id, active⟩, ⟨fresh, abandoned⟩, stood, kept, _⟩
        · exact Or.inl ⟨found, stood, inode⟩
        · subst active abandoned
          -- A moved directory may be listed again, and stays where it is.
          have stays := swept.moved_stays stands kept.2
          cases present.symm.trans stays
          have directory : isDirectory = true := by
            cases treats with
            | spared entries =>
                rw [entries] at stands
                exact absurd rfl (inode_ne stood stands (by simp))
            | _ => rfl
          refine Or.inr ⟨id, fresh, rfl, ?_, stood, kept⟩
          rw [directory]
          exact List.mem_cons_self
    · rcases treats.source (different listed) stands with
        stood | ⟨_, ⟨_, abandoned⟩, _⟩
      · exact Or.inr ⟨id, fresh, named, List.mem_cons_of_mem _ listed, stood,
          kept⟩
      · cases abandoned
  · rw [swept.noted, treats.noted, List.reverse_append, List.append_assoc]
  · rw [List.nodup_append]
    refine ⟨?_, swept.nodup, ?_⟩
    · unfold goneBy
      split <;> simp
    · intro first counted second member same
      subst same
      have firstIs : first = name := by
        unfold goneBy at counted
        split at counted
        · exact List.mem_singleton.mp counted
        · cases counted
      exact different ((swept.counted first).mp member).1 firstIs
  · intro other
    rw [List.mem_append, swept.counted]
    by_cases same : other = name
    · subst same
      simp [swept.counted_first treats (unlisted true), unlisted true,
        eq_comm]
    · have notFirst : other ∉ goneBy name outcome := by
        unfold goneBy
        split <;> simp [same]
      simp only [notFirst, false_or, List.mem_cons, Prod.mk.injEq, same,
        false_and]
      refine and_congr_right fun listed => exists_congr fun found =>
        and_congr_left fun gone => ?_
      constructor
      · intro stands
        rcases treats.source same stands with stood | ⟨_, ⟨fresh, rfl⟩, _, kept, _⟩
        · exact stood
        · exact absurd (swept.moved_stays stands kept.2) gone.absent
      · exact treats.others same

end swept

/-! ## Whole runs -/

/-- The loop over the listing. -/
theorem swept_recoverEntries
    {entries : List (EntryName × Bool)}
    {recovery result : Recovery}
    (distinct : (entries.map Prod.fst).Nodup)
    (run : (recoverEntries (entries.map .ok) recovery).Runs Effect before
      result after) :
    ∃ skipped gone, Swept before after entries skipped gone ∧
      result.skipped.map Prod.fst = recovery.skipped.map Prod.fst ++ skipped ∧
      result.recovered = recovery.recovered + gone.length := by
  induction entries generalizing before recovery with
  | nil =>
      obtain ⟨rfl, rfl⟩ := run
      exact ⟨[], [], swept_nil after, by simp, rfl⟩
  | cons entry rest inductionHypothesis =>
      obtain ⟨name, isDirectory⟩ := entry
      rw [List.map_cons, List.nodup_cons] at distinct
      rw [List.map_cons, recoverEntries] at run
      obtain ⟨outcome, middle, visited, remaining⟩ := (runs_bind ..).mp run
      obtain ⟨now, between, treats⟩ := treats_recoverStagingEntry visited
      cases outcome with
      | error skip =>
          obtain ⟨skipped, gone, swept, reported, counted⟩ :=
            inductionHypothesis distinct.2 remaining
          refine ⟨_, _, swept.cons between treats distinct.1, ?_, ?_⟩
          · simpa [skippedBy] using reported
          · simpa [goneBy] using counted
      | ok discarded =>
          cases discarded with
          | true =>
              obtain ⟨skipped, gone, swept, reported, counted⟩ :=
                inductionHypothesis distinct.2 remaining
              refine ⟨_, _, swept.cons between treats distinct.1, ?_, ?_⟩
              · simpa [skippedBy] using reported
              · simp only [goneBy, List.length_append, List.length_singleton,
                  counted]
                omega
          | false =>
              obtain ⟨skipped, gone, swept, reported, counted⟩ :=
                inductionHypothesis distinct.2 remaining
              refine ⟨_, _, swept.cons between treats distinct.1, ?_, ?_⟩
              · simpa [skippedBy] using reported
              · simpa [goneBy] using counted

/-- What a whole recovery leaves. -/
structure Recovers (start : Startup) (recovery : Recovery)
    (final : Startup) : Prop extends Onward start final where
  fates : ∀ name found, start.entry name = some found →
    ∃ now, start.world.clock ≤ now ∧ now ≤ final.world.clock ∧
      Fate start final name found now
  /-- Every directory was there before, and was moved at most once. -/
  origin : ∀ name left, final.entry name = some left →
    (∃ found, start.entry name = some found ∧ left.inode = found.inode) ∨
      ∃ id fresh, name = .abandoned fresh ∧
        start.entry (.active id) = some left ∧ Kept (.active id) left.dir
  /-- The skipped entries are those that were refused something. -/
  skipped : final.failed =
    (recovery.skipped.map Prod.fst).reverse ++ start.failed
  /-- The count is that of the directories that are gone. -/
  recovered : ∃ gone : List EntryName, gone.Nodup ∧
    recovery.recovered = gone.length ∧
    ∀ name, name ∈ gone ↔
      ∃ found, start.entry name = some found ∧ Gone final found.inode

theorem recovers_recoverIncomplete
    {start final : Startup}
    {outcome : Except ArchiveError Recovery}
    (run : Returns Effect recoverIncomplete start outcome final) :
    (∃ recovery, outcome = .ok recovery ∧ Recovers start recovery final) ∨
      (∃ error, outcome = .error error) ∧ Same start final := by
  unfold recoverIncomplete at run
  rcases returns_bind.mp run with
    ⟨error, rfl, failed⟩ | ⟨listed, middle, reads, remaining⟩
  · obtain ⟨now, later, ⟨_, rfl⟩ | ⟨_, listed, same, _⟩⟩ :=
      Program.runs_perform.mp (returns_attempt.mp failed)
    · exact Or.inr ⟨⟨error, rfl⟩, same_advance later⟩
    · cases same
  obtain ⟨now, later, ⟨⟨_, same⟩, _⟩ | ⟨rfl, listed, same, enumerates⟩⟩ :=
    Program.runs_perform.mp (returns_attempt.mp reads)
  · cases same
  cases same
  obtain ⟨entries, rfl, distinct, directories, _⟩ := enumerates
  obtain ⟨recovery, rfl, loop⟩ := returns_always.mp remaining
  obtain ⟨skipped, gone, swept, reported, counted⟩ :=
    swept_recoverEntries distinct loop
  have listed : ∀ {name found}, start.entry name = some found →
      (name, true) ∈ entries := fun stands =>
    directories _ (Option.isSome_iff_exists.mpr ⟨_, stands⟩)
  rw [List.map_nil, List.nil_append] at reported
  rw [Nat.zero_add] at counted
  refine Or.inl ⟨recovery, rfl,
    (same_advance later).toOnward.trans swept.toOnward, ?_, ?_, ?_, gone,
    swept.nodup, counted, ?_⟩
  · intro name found stands
    obtain ⟨moment, started, ended, fate⟩ :=
      swept.fates name found (listed stands) stands
    exact ⟨moment, Nat.le_trans later started, ended,
      fate.since (same_advance later).toOnward⟩
  · intro name left present
    rcases swept.origin name left present with
      stood | ⟨id, fresh, named, _, stands, kept⟩
    · exact Or.inl stood
    · exact Or.inr ⟨id, fresh, named, stands, kept⟩
  · rw [swept.noted, reported]
    rfl
  · intro name
    rw [swept.counted]
    constructor
    · rintro ⟨_, stood⟩
      exact stood
    · rintro ⟨found, stands, left⟩
      exact ⟨listed stands, found, stands, left⟩

/-- No lease of a directory runs out between the two states. -/
def Still (start last : Startup) : Prop :=
  ∀ name found, start.entry name = some found →
    Expired found.dir last.world.clock → Expired found.dir start.world.clock

/-- What a recovery left where it is and reported no failure for, the next one
leaves there as well. -/
theorem Recovers.again
    {start final last : Startup}
    {recovery second : Recovery}
    (recovers : Recovers start recovery final)
    (recoversAgain : Recovers final second last)
    (still : Still start last)
    {name : EntryName}
    {left : AreaEntry}
    (stands : final.entry name = some left)
    (quiet : name ∉ final.failed) :
    last.entry name = some left := by
  obtain ⟨again, startedAgain, endedAgain, next⟩ :=
    recoversAgain.fates name left stands
  -- What was not expired at the start is not expired now.
  have settled : Expired left.dir again →
      Kept name left.dir ∧ ∃ id, name = .abandoned id := by
    intro expired
    rcases recovers.origin name left stands with
      ⟨found, stood, inode⟩ | ⟨id, fresh, named, stood, kept⟩
    · obtain ⟨now, started, ended, fate⟩ := recovers.fates name found stood
      cases fate with
      | spared alive stays =>
          cases stands.symm.trans stays
          have early := still name left stood (expired.later endedAgain)
          exact absurd (early.later started) alive
      | @waiting id _ kept abandoned stays =>
          cases stands.symm.trans stays
          exact ⟨kept, id, abandoned⟩
      | preserved _ _ _ _ _ vacated =>
          rw [vacated] at stands
          cases stands
      | stuck _ _ _ _ noted => exact absurd noted quiet
      | removed _ _ gone => exact absurd inode (gone name left stands)
      | damaged _ _ _ noted => exact absurd noted quiet
    · exact ⟨⟨by rw [named]; rfl, kept.2⟩, fresh, named⟩
  cases next with
  | spared _ stays => exact stays
  | waiting _ _ _ stays => exact stays
  | preserved expired _ active =>
      obtain ⟨_, id, abandoned⟩ := settled expired
      rw [active] at abandoned
      cases abandoned
  | stuck _ _ _ stays => exact stays
  | removed expired useless => exact absurd (settled expired).1 useless
  | damaged expired useless => exact absurd (settled expired).1 useless

/-- Recovery meets no refusal where there is nothing but directories. -/
theorem runs_succeed
    {α : Type}
    (program : Program interface α)
    {start : Startup}
    (bare : start.files = fun _ => none) :
    program.Runs Effect start (program.run (fun op s => s.succeed op) start).1
      (program.run (fun op s => s.succeed op) start).2 := by
  refine runs_run_kept ?_
    (fun _ before (bare : before.files = fun _ => none) => bare) program bare
  intro op before bare
  refine ⟨before.world.clock, Nat.le_refl _, Or.inr ?_⟩
  cases op with
  | readDir =>
      refine ⟨rfl, _, rfl, before.world.area.names.dedup.map
        fun name => (name, true), by simp, ?_, ?_, ?_⟩
      · rw [List.map_map]
        simpa [Function.comp_def] using before.world.area.names.nodup_dedup
      · intro name present
        have stands : (before.world.area.entry name).isSome := present
        simpa [before.world.area.mem_names] using stands
      · intro name present
        change (before.files name).isSome at present
        rw [bare] at present
        cases present
  | operationId =>
      refine ⟨longer_not_mem _, ?_, rfl⟩
      change before.files _ = none
      rw [bare]
  | listParts inode =>
      refine ⟨rfl, _, rfl, ?_⟩
      intro part
      cases part <;> simp
  | _ => rfl

/-- Expired staging with a commit and a directory that is nobody's. -/
def sample : Startup where
  archive := .empty
  files := fun _ => none
  world := {
    area :=
      (((((TemporaryArea.empty.draw "a").create (.active "a")).getD default
        ).create (.other "b")).getD default
        ).update (.active "a") (fun dir => { dir with
          lease := .expires 7
          identity := .decoded ⟨1, .model, "org/model", "main", [],
            some "aaaaaaaaaaaaaaaaaaaaaaaaaaaaaaaaaaaaaaaa"⟩ })
        |>.update (.other "b") fun dir => { dir with lease := .expires 8 }
    clock := 8 }
  examined := none
  failed := []

/-- What recovery of it returns and leaves. -/
def sampleRecovery : Except ArchiveError Recovery × Startup :=
  recoverIncomplete.run.run (fun op s => s.succeed op) sample

end Startup
end Staging
end ModelKeep
