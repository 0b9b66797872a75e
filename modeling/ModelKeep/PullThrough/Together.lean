import ModelKeep.Concurrency.RelyGuarantee
import ModelKeep.PullThrough.Growth
import ModelKeep.PullThrough.Parts
import ModelKeep.PullThrough.Reconcile

/-!
# Acquisitions of one repository together

Any number of pull-throughs run on one archive, call by call, against an
upstream that does not change.  Whatever the staging area and the token answer,
the archive only grows, and an acquisition that looks again after its wait asks
only for what was missing.
-/

namespace ModelKeep

open Concurrency Program

namespace PullThrough

/-! ## The acquisitions -/

/-- A repository upstream: what a revision stands for, and the files of each
commit. -/
structure Upstream where
  commit : String → String
  siblings : String → List String
  pinned : ∀ revision, isHfCommit revision = true → commit revision = revision

/-- The helper lists the path at the commit. -/
def Upstream.Lists (upstream : Upstream) (commit path : String) : Prop :=
  ∃ listed,
    Fetcher.repositoryFileMetadata (upstream.siblings commit) = some listed ∧
      path ∈ listed

/-- A path of the revision that the patterns cover. -/
def Upstream.Covers (upstream : Upstream) (revision : String)
    (included excluded : List String) (path : String) : Prop :=
  upstream.Lists (upstream.commit revision) path ∧
    Fetcher.selected path included excluded = true

/-- The fetcher is asked for the path. -/
def Upstream.Asks (upstream : Upstream) (request : FetchRequest)
    (path : String) : Prop :=
  upstream.Covers request.revision request.files request.exclude path

/-- What an acquisition is for, and whether a selection started it. -/
structure Order where
  requested : String
  reconcile : Bool
  selection : FileSelection

/-- A path of the request. -/
def Order.Covers (order : Order) (upstream : Upstream) (path : String) :
    Prop :=
  upstream.Covers order.requested order.selection.included
    order.selection.excluded path

/-- A call of the fetcher. -/
structure Asking (ι : Type) where
  actor : ι
  /-- The archive when the caller's wait for a slot ended, if it waited. -/
  found : Option Archive
  request : FetchRequest

/-- What the acquisitions share, and what they have asked for so far. -/
structure Common (ι : Type) where
  archive : Archive
  found : ι → Option Archive
  asked : List (Asking ι)
  brought : ι → List FetchedRevision

variable {ι : Type} [DecidableEq ι]

/-- The wait of an acquisition has ended. -/
def Common.admit (common : Common ι) (actor : ι) : Common ι :=
  { common with
    found := Function.update common.found actor (some common.archive) }

/-- The fetcher was called, and perhaps it brought something. -/
def Common.ask (common : Common ι) (actor : ι) (request : FetchRequest)
    (fetched : List FetchedRevision) : Common ι :=
  { common with
    asked := ⟨actor, common.found actor, request⟩ :: common.asked
    brought := Function.update common.brought actor
      (fetched ++ common.brought actor) }

/-- The calls of one acquisition among the others.  The staging area, the
token and the memory of names may answer anything; the file list that a fetcher
has staged for a commit is one that the helper reported. -/
def Among (upstream : Upstream) (sha256 : Bytes → String) (actor : ι) :
    Semantics interface (Common ι)
  | .resolveRef repository reference, before, reply, after =>
      reply = before.archive.resolveRef repository reference ∧ after = before
  | .isComplete repository commit, before, reply, after =>
      reply = before.archive.isCompleteRevision repository commit ∧
        after = before
  | .resolveFile repository commit path, before, reply, after =>
      reply = before.archive.resolveFile repository commit path ∧
        after = before
  | .upstreamFiles repository commit, before, reply, after =>
      reply = before.archive.upstreamFiles repository commit ∧ after = before
  | .manifestPaths repository commit, before, reply, after =>
      reply = before.archive.manifestPaths repository commit ∧ after = before
  | .publish repository request _, before, reply, after =>
      ∃ staged archive fate,
        before.archive.publish sha256 repository request staged =
            (reply, archive, fate) ∧
          after = { before with archive := archive }
  | .extend repository commit files _, before, reply, after =>
      ∃ staged archive,
        before.archive.extend sha256 repository commit files staged =
            (reply, archive) ∧
          after = { before with archive := archive }
  | .recordUpstreamFiles repository commit files, before, reply, after =>
      ∃ archive,
        before.archive.recordUpstreamFiles repository commit files =
            (reply, archive) ∧
          after = { before with archive := archive }
  | .updateRef repository reference commit, before, reply, after =>
      ∃ archive,
        before.archive.updateRef repository reference commit =
            (reply, archive) ∧
          after = { before with archive := archive }
  | .enterTransferGate, before, reply, after =>
      after = match reply with
        | .ok true => before.admit actor
        | _ => before
  | .stagedUpstreamFiles _ _ commit, before, reply, after =>
      (∀ path ∈ reply, upstream.Lists commit path) ∧ after = before
  | .inventory request, before, reply, after =>
      (∀ answer, reply = .ok answer → ∃ inventory,
        answer = some inventory ∧
          Fetcher.inventory (upstream.commit request.revision)
            (upstream.siblings (upstream.commit request.revision)) request =
              some inventory) ∧
        after = before
  | .fetch request, before, reply, after =>
      after = before.ask actor request (match reply with
        | .ok fetched => [fetched]
        | .error _ => [])
  | _, before, _, after => after = before

/-- Acquisitions may be cut off at any call. -/
def acquisitions (upstream : Upstream) (sha256 : Bytes → String) :
    Machine interface ι (Common ι) where
  exec := Among upstream sha256
  release := fun _ before after => after = before
  ambient := fun _ _ => False

/-! ## What they promise -/

/-- The requested revision names a published commit, or is one. -/
def Known (archive : Archive) (repository : Repository)
    (requested : String) : Prop :=
  archive.Names repository requested ∨ archive.Complete repository requested

variable (upstream : Upstream) (sha256 : Bytes → String)
  (repository : Repository) (orders : ι → Order)

/-- An acquisition that waited, and looked again at a revision it knew, asks
for nothing that was listed when its wait ended, and only when something was
missing. -/
def Due (asking : Asking ι) : Prop :=
  (orders asking.actor).reconcile = true → ∀ archive,
    asking.found = some archive →
    Known archive repository (orders asking.actor).requested →
    (∀ path, upstream.Asks asking.request path →
      ¬archive.Listed repository
        (upstream.commit (orders asking.actor).requested) path) ∧
    (archive.Complete repository
        (upstream.commit (orders asking.actor).requested) →
      ∃ path, (orders asking.actor).Covers upstream path ∧
        ¬archive.Listed repository
          (upstream.commit (orders asking.actor).requested) path)

/-- What holds throughout. -/
structure Sound (common : Common ι) : Prop where
  found : ∀ actor archive, common.found actor = some archive →
    Archive.Grows repository archive common.archive
  records : common.archive.Records repository upstream.Lists
  asked : ∀ asking ∈ common.asked, Due upstream repository orders asking

/-- What an acquisition may rely on. -/
structure Rely (actor : ι) (before after : Common ι) : Prop where
  grows : Archive.Grows repository before.archive after.archive
  found : after.found actor = before.found actor
  brought : after.brought actor = before.brought actor

/-- What every call keeps: the archive has grown, and waits that ended
since then found it so. -/
structure Later (before after : Common ι) : Prop where
  grows : Archive.Grows repository before.archive after.archive
  found : ∀ other, after.found other = before.found other ∨
    ∃ archive, after.found other = some archive ∧
      Archive.Grows repository before.archive archive
  asked : ∀ asking ∈ after.asked, asking ∈ before.asked ∨
    asking.found = before.found asking.actor ∨
    ∃ archive, asking.found = some archive ∧
      Archive.Grows repository before.archive archive

/-- What an acquisition guarantees. -/
structure Guarantee (actor : ι) (before after : Common ι) : Prop where
  later : Later repository before after
  found : ∀ other, other ≠ actor → after.found other = before.found other
  brought : ∀ other, other ≠ actor →
    after.brought other = before.brought other

/-- A part of an acquisition among the others. -/
abbrev Performs {α : Type} (actor : ι) (pre : Common ι → Prop)
    (program : Program interface α) (post : α → Common ι → Prop) : Prop :=
  Triple (Among upstream sha256 actor) (Sound upstream repository orders)
    (Rely repository actor) (Guarantee repository actor) pre program post

/-! ## What a call does -/

section calls

variable
  {upstream : Upstream}
  {sha256 : Bytes → String}
  {repository : Repository}
  {orders : ι → Order}
  {actor : ι}
  {before middle after : Common ι}

omit [DecidableEq ι] in
theorem Rely.refl (actor : ι) (common : Common ι) :
    Rely repository actor common common :=
  ⟨.refl _ _, rfl, rfl⟩

omit [DecidableEq ι] in
theorem Rely.trans
    (earlier : Rely repository actor before middle)
    (later : Rely repository actor middle after) :
    Rely repository actor before after :=
  ⟨earlier.grows.trans later.grows, later.found.trans earlier.found,
    later.brought.trans earlier.brought⟩

omit [DecidableEq ι] in
theorem Later.refl (common : Common ι) : Later repository common common :=
  ⟨.refl _ _, fun _ => Or.inl rfl, fun _ known => Or.inl known⟩

omit [DecidableEq ι] in
theorem Later.trans
    (earlier : Later repository before middle)
    (later : Later repository middle after) :
    Later repository before after := by
  have waits : ∀ other archive, middle.found other = some archive →
      middle.found other = before.found other ∨
        Archive.Grows repository before.archive archive := by
    intro other archive stands
    rcases earlier.found other with same | ⟨found, standsToo, grows⟩
    · exact Or.inl same
    · rw [stands] at standsToo
      cases standsToo
      exact Or.inr grows
  refine ⟨earlier.grows.trans later.grows, ?_, ?_⟩
  · intro other
    rcases later.found other with same | ⟨archive, stands, grows⟩
    · rw [same]
      exact earlier.found other
    · exact Or.inr ⟨archive, stands, earlier.grows.trans grows⟩
  · intro asking member
    rcases later.asked asking member with
      known | same | ⟨archive, stands, grows⟩
    · exact earlier.asked asking known
    · rw [same]
      rcases earlier.found asking.actor with
        kept | ⟨archive, stands, grows⟩
      · exact Or.inr (Or.inl kept)
      · exact Or.inr (Or.inr ⟨archive, stands, grows⟩)
    · exact Or.inr (Or.inr ⟨archive, stands, earlier.grows.trans grows⟩)

omit [DecidableEq ι] in
theorem Guarantee.rely
    {other : ι}
    (guarantee : Guarantee repository actor before after)
    (different : actor ≠ other) :
    Rely repository other before after :=
  ⟨guarantee.later.grows, guarantee.found other different.symm,
    guarantee.brought other different.symm⟩

omit [DecidableEq ι] in
theorem Guarantee.refl (actor : ι) (common : Common ι) :
    Guarantee repository actor common common :=
  ⟨.refl common, fun _ _ => rfl, fun _ _ => rfl⟩

/-- The calls that change nothing that is shared. -/
def Op.Still : Op → Prop
  | .publish _ _ _ => False
  | .extend _ _ _ _ => False
  | .recordUpstreamFiles _ _ _ => False
  | .updateRef _ _ _ => False
  | .enterTransferGate => False
  | .fetch _ => False
  | _ => True

theorem Op.Looks.still
    {op : Op}
    (looks : op.Looks) :
    op.Still := by
  cases op with
  | publish => exact looks
  | extend => exact looks
  | recordUpstreamFiles => exact looks
  | updateRef => exact looks
  | enterTransferGate => exact looks
  | fetch => exact looks
  | _ => trivial

theorem after_of_still
    {op : Op}
    {reply : op.Reply}
    (still : op.Still)
    (issued : Among upstream sha256 actor op before reply after) :
    after = before := by
  cases op with
  | publish => exact still.elim
  | extend => exact still.elim
  | recordUpstreamFiles => exact still.elim
  | updateRef => exact still.elim
  | enterTransferGate => exact still.elim
  | fetch => exact still.elim
  | resolveRef => exact issued.2
  | isComplete => exact issued.2
  | resolveFile => exact issued.2
  | upstreamFiles => exact issued.2
  | manifestPaths => exact issued.2
  | stagedUpstreamFiles => exact issued.2
  | inventory => exact issued.2
  | _ => exact issued

omit [DecidableEq ι] in
/-- A change of the archive in which it grows and its records stay true. -/
theorem change_archive
    {archive : Archive}
    (sound : Sound upstream repository orders before)
    (grows : Archive.Grows repository before.archive archive)
    (records : archive.Records repository upstream.Lists) :
    Sound upstream repository orders { before with archive := archive } ∧
      Guarantee repository actor before
        { before with archive := archive } :=
  ⟨⟨fun other found stands => (sound.found other found stands).trans grows,
      records, sound.asked⟩,
    ⟨⟨grows, fun _ => Or.inl rfl, fun _ known => Or.inl known⟩,
      fun _ _ => rfl, fun _ _ => rfl⟩⟩

end calls

end PullThrough
end ModelKeep
