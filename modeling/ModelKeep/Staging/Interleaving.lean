import ModelKeep.Staging.Calls

/-!
# Interleaved calls on the temporary area

Any number of acquisitions and recoveries work on one area, step by step.  A
step that the area allows may also fail, a listing taken while others rename
may show anything, and a call may be cut off before any of its steps.  Beside
the area itself the state keeps a record of who has drawn which operation id,
whose staging lies under which name, and what each call has read; the record
decides nothing and only serves the statements.

Time passes only as long as the lease of a running acquisition does not
expire: neither the lease file under a name it is claiming or holds, nor a
lease whose expiry it has computed and is about to write.  The clock is not a
file, so a recovery compares the lease it has just read with the time of that
reading.
-/

namespace ModelKeep
namespace Staging

open Concurrency Program

variable {ι : Type}

/-- What a call has met when it read a directory. -/
inductive Reading
  | identity (inode : Nat) (metadata : FetchStagingMetadata)
  | lease (inode expiresAt clock : Nat)
  deriving DecidableEq

/-- The area among calls. -/
structure Shared (ι : Type) where
  world : World
  /-- Who has drawn an operation id. -/
  drawn : String → Option ι
  /-- The directory a name was given to; no name is given twice. -/
  bound : EntryName → Option Nat
  /-- The running acquisition that keeps its staging under a name. -/
  owner : EntryName → Option ι
  /-- The name a call has renewed the lease under and is about to rename. -/
  claiming : ι → Option EntryName
  /-- The expiry a call has computed and is about to write. -/
  pledge : ι → Option Nat
  readings : ι → List Reading
  /-- The staging a running acquisition was returned. -/
  returned : ι → Option FetchStaging
  /-- Which directory was returned to whom, latest first. -/
  returns : List (ι × Nat)

/-- The directory under a name. -/
def Shared.inodeAt (shared : Shared ι) (name : EntryName) : Option Nat :=
  (shared.world.area.entry name).map AreaEntry.inode

section record

variable [DecidableEq ι]

/-- A name was given to a directory. -/
def Shared.bind (shared : Shared ι) (name : EntryName)
    (inode : Option Nat) : Shared ι :=
  { shared with bound := Function.update shared.bound name inode }

def Shared.setOwner (shared : Shared ι) (name : EntryName)
    (owner : Option ι) : Shared ι :=
  { shared with owner := Function.update shared.owner name owner }

def Shared.setClaiming (shared : Shared ι) (actor : ι)
    (name : Option EntryName) : Shared ι :=
  { shared with claiming := Function.update shared.claiming actor name }

def Shared.setPledge (shared : Shared ι) (actor : ι)
    (expiresAt : Option Nat) : Shared ι :=
  { shared with pledge := Function.update shared.pledge actor expiresAt }

def Shared.note (shared : Shared ι) (actor : ι) (reading : Reading) :
    Shared ι :=
  { shared with
    readings := Function.update shared.readings actor
      (reading :: shared.readings actor) }

/-- The call no longer runs. -/
def Shared.forget (shared : Shared ι) (actor : ι) : Shared ι :=
  { shared with
    owner := fun name =>
      if shared.owner name = some actor then none else shared.owner name
    claiming := Function.update shared.claiming actor none
    pledge := Function.update shared.pledge actor none
    returned := Function.update shared.returned actor none }

/-- What a lease means for its writer.  Who writes a lease that has already
expired into the staging it owns gives it up; who writes one under a name it
does not own is claiming it. -/
def Shared.recordLease (shared : Shared ι) (actor : ι) (name : EntryName)
    (expiresAt : Nat) : Shared ι :=
  if shared.owner name = some actor then
    if expiresAt ≤ shared.world.clock then
      (shared.setPledge actor none).setOwner name none
    else
      shared.setPledge actor none
  else
    (shared.setPledge actor none).setClaiming actor (some name)

/-- A directory that its owner renames, or that a call is claiming, belongs to
that call under the new name. -/
def Shared.recordRename (shared : Shared ι) (actor : ι)
    (old new : EntryName) : Shared ι :=
  if shared.owner old = some actor ∨ shared.claiming actor = some old then
    (((shared.bind new (shared.bound old)).setOwner old none).setOwner new
      (some actor)).setClaiming actor none
  else
    (shared.bind new (shared.bound old)).setClaiming actor none

/-- The record of a step, by what it answered. -/
def Shared.record (actor : ι) :
    (op : Op) → op.Reply → Shared ι → Shared ι
  | .readIdentity name, .ok metadata, shared =>
      match shared.inodeAt name with
      | none => shared
      | some inode => shared.note actor (.identity inode metadata)
  | .readLease name, .ok expiresAt, shared =>
      match shared.inodeAt name with
      | none => shared
      | some inode =>
          shared.note actor (.lease inode expiresAt shared.world.clock)
  | .leaseExpiry, expiresAt, shared => shared.setPledge actor expiresAt
  | .operationId, id, shared =>
      { shared with drawn := Function.update shared.drawn id (some actor) }
  | .createDir name, .ok (), shared =>
      (shared.bind name shared.world.area.nextInode).setOwner name
        (some actor)
  | .createPart _, .error _, shared => shared.setPledge actor none
  | .flush, .error _, shared => shared.setPledge actor none
  | .renameLease name expiresAt, .ok (), shared =>
      shared.recordLease actor name expiresAt
  | .renameLease _ _, .error _, shared => shared.setPledge actor none
  | .rename old new, .ok (), shared => shared.recordRename actor old new
  | .rename _ _, .error _, shared => shared.setClaiming actor none
  | .hold staging, (), shared =>
      { shared with
        returned := Function.update shared.returned actor (some staging)
        returns :=
          match shared.inodeAt staging.path with
          | none => shared.returns
          | some inode => (actor, inode) :: shared.returns }
  | .handBack, (), shared =>
      { shared with returned := Function.update shared.returned actor none }
  | .leave, (), shared => shared.forget actor
  | _, _, shared => shared

end record

/-- A failure that has changed nothing. -/
def Failed {α : Type} (reply : Except ArchiveError α) : Prop :=
  ∃ kind, reply = .error (.io kind)

/-- The answers a step may give without doing anything. -/
def Fault : (op : Op) → op.Reply → Prop
  | .readDir, _ => True
  | .listParts _, _ => True
  | .readIdentity _, reply => Failed reply
  | .readLease _, reply => Failed reply
  | .readLeaseAndTime _, reply => Failed reply
  | .createDir _, reply => Failed reply
  | .createPart _, reply => Failed reply
  | .flush, reply => Failed reply
  | .renameLease _ _, reply => Failed reply
  | .renameIdentity _ _, reply => Failed reply
  | .rename _ _, reply => Failed reply
  | .openDir _, reply => Failed reply
  | .unlink _ _, reply => Failed reply
  | .rmdir _, reply => Failed reply
  | .syncDirectory, reply => Failed reply
  | .transfer _ _, reply => Failed reply
  | _, _ => False

section machine

variable [DecidableEq ι]

/-- The steps of one call among others. -/
def exec (actor : ι) : Semantics interface (Shared ι) :=
  fun op before reply after =>
    ∃ world,
      (Effect op before.world reply world ∨
        (Fault op reply ∧ world = before.world)) ∧
      after = { before.record actor op reply with world := world }

/-- No lease of a running acquisition expires before this time. -/
structure LeasesLast (shared : Shared ι) (clock : Nat) : Prop where
  pledged : ∀ actor expiresAt,
    shared.pledge actor = some expiresAt → clock < expiresAt
  owned : ∀ name found expiresAt, shared.owner name ≠ none →
    shared.world.area.entry name = some found →
      found.dir.lease = .expires expiresAt → clock < expiresAt
  claimed : ∀ actor name found expiresAt,
    shared.claiming actor = some name →
      shared.world.area.entry name = some found →
        found.dir.lease = .expires expiresAt → clock < expiresAt

/-- Time passes, and the heartbeat of an active directory renews its lease. -/
inductive Ambient : Shared ι → Shared ι → Prop
  | tick (shared : Shared ι) (clock : Nat) :
      shared.world.clock ≤ clock → LeasesLast shared clock →
        Ambient shared
          { shared with world := { shared.world with clock := clock } }
  | heartbeat (shared : Shared ι) (id : String) (expiresAt : Nat) :
      shared.world.clock < expiresAt →
        Ambient shared
          { shared with
            world := { shared.world with
              area := shared.world.area.update (.active id) fun dir =>
                if dir.lease = .absent then dir
                else { dir with lease := .expires expiresAt } } }

/-- All calls on one area. -/
def machine : Machine interface ι (Shared ι) where
  exec := exec
  release := fun actor before after => after = before.forget actor
  ambient := Ambient

end machine

/-! ## The calls -/

/-- What an acquisition does in the staging it was returned. -/
inductive Work
  | transfer (payload : FileTree Bytes)
  /-- The fetch helper reports the commit. -/
  | resolved (commit : String)

/-- How an acquisition ends. -/
inductive Ending
  | preserve
  | discard
  | leave

structure Acquisition where
  request : StagingRequest
  work : List Work
  ending : Ending

/-- The work of an acquisition, whose failures do not matter here. -/
def performWork (path : EntryName) (request : StagingRequest) :
    List Work → Program interface Unit
  | [] => .done ()
  | .transfer payload :: rest => do
      let _ ← perform (.transfer path payload)
      performWork path request rest
  | .resolved commit :: rest => do
      let _ ← (recordFetchResolvedCommit path request commit).run
      performWork path request rest

/-- What becomes of the staging at the end. -/
def performEnding (path : EntryName) : Ending → Program interface Unit
  | .preserve => do
      let _ ← (preserveFetchStaging path).run
      .done ()
  | .discard => do
      let _ ← (removeDirAll path).run
      .done ()
  | .leave => .done ()

/-- What an acquisition does once it has its answer. -/
def Acquisition.proceed (acquisition : Acquisition) :
    Except FetchStagingError FetchStaging → Program interface Unit
  | .error _ => perform .leave
  | .ok staging => do
      perform (.hold staging)
      performWork staging.path acquisition.request acquisition.work
      perform .handBack
      performEnding staging.path acquisition.ending
      perform .leave

/-- An acquisition from its request for staging to its end. -/
def Acquisition.program (acquisition : Acquisition) :
    Program interface Unit :=
  (acquireFetchStaging acquisition.request).run >>= acquisition.proceed

/-- A call on the area. -/
inductive Call
  | acquire (acquisition : Acquisition)
  | recover

def Call.program : Call → Program interface Unit
  | .acquire acquisition => acquisition.program
  | .recover => do
      let _ ← recoverIncomplete.run
      perform .leave

/-- An area on which no call is running. -/
def Shared.still (area : TemporaryArea) (clock : Nat) : Shared ι where
  world := ⟨area, clock⟩
  drawn := fun _ => none
  bound := fun name => (area.entry name).map AreaEntry.inode
  owner := fun _ => none
  claiming := fun _ => none
  pledge := fun _ => none
  readings := fun _ => []
  returned := fun _ => none
  returns := []

/-- Every call is about to start. -/
def start (calls : ι → Call) (area : TemporaryArea) (clock : Nat) :
    Configuration interface ι (Shared ι) Unit :=
  ⟨.still area clock, fun actor => some (calls actor).program⟩

end Staging
end ModelKeep
