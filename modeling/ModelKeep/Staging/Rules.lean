import ModelKeep.Staging.Exclusive

/-!
# Rules for calls among calls

What a call knows between two of its steps, and what each of its steps makes
of that.  An assertion is usable when nothing the others do can falsify it.
After a failure nothing needs to be known, since the call then ends or passes
on to the next directory.
-/

namespace ModelKeep
namespace Staging

open Concurrency Program

variable {ι : Type} [DecidableEq ι] {calls : ι → Call} {actor : ι}
  {ε α β : Type}

/-! ## Assertions -/

/-- A step of the call itself that gives it nothing and takes nothing. -/
structure Same (actor : ι) (before after : Shared ι) : Prop where
  inode : ∀ name, after.inodeAt name = before.inodeAt name
  bound : after.bound = before.bound
  drawn : ∀ id someone, before.drawn id = some someone →
    after.drawn id = some someone
  owner : after.owner = before.owner
  claiming : after.claiming = before.claiming
  pledge : after.pledge = before.pledge
  returned : after.returned = before.returned

omit [DecidableEq ι] in
theorem Same.refl (shared : Shared ι) : Same actor shared shared :=
  ⟨fun _ => rfl, rfl, fun _ _ drawn => drawn, rfl, rfl, rfl, rfl⟩

/-- Knowledge about what is the call's own. -/
structure Local (actor : ι) (assertion : Shared ι → Prop) : Prop where
  stable : Stable (Rely actor) assertion
  same : ∀ before after, Same actor before after → assertion before →
    assertion after

section local_

omit [DecidableEq ι]

theorem local_true : Local actor fun _ => True :=
  ⟨fun _ _ _ _ => trivial, fun _ _ _ _ => trivial⟩

theorem Local.and
    {first second : Shared ι → Prop}
    (isFirst : Local actor first)
    (isSecond : Local actor second) :
    Local actor fun shared => first shared ∧ second shared :=
  ⟨fun before after moved holds =>
      ⟨isFirst.stable before after moved holds.1,
        isSecond.stable before after moved holds.2⟩,
    fun before after same holds =>
      ⟨isFirst.same before after same holds.1,
        isSecond.same before after same holds.2⟩⟩

theorem local_owns (name : EntryName) (inode : Nat) :
    Local actor (Owns actor name inode) := by
  refine ⟨fun _ _ moved owns => moved.owned name inode owns, ?_⟩
  rintro before after same ⟨owned, stands⟩
  exact ⟨by rw [same.owner, owned], by rw [same.inode, stands]⟩

theorem local_mine (name : EntryName) : Local actor (Mine actor name) := by
  constructor
  · rintro before after moved ⟨id, named, drawn, unbound⟩
    exact ⟨id, named, moved.drawn id actor drawn,
      moved.mine name id named drawn unbound⟩
  · rintro before after same ⟨id, named, drawn, unbound⟩
    exact ⟨id, named, same.drawn id actor drawn, by rw [same.bound, unbound]⟩

theorem local_open (name : EntryName) (inode : Nat) :
    Local actor (Open name inode) := by
  constructor
  · intro before after moved opened
    exact moved.onward.opened name inode opened
  · rintro before after same ⟨bound, unowned⟩
    exact ⟨by rw [same.bound, bound], by rw [same.owner, unowned]⟩

/-- The call is not using the staging it was returned. -/
def Idle (actor : ι) (shared : Shared ι) : Prop :=
  shared.returned actor = none

theorem local_idle : Local actor (Idle actor) := by
  constructor
  · intro before after moved idle
    exact moved.returned.trans idle
  · intro before after same idle
    unfold Idle
    rw [same.returned]
    exact idle

/-- The call has renewed the lease under this name. -/
def Claims (actor : ι) (name : EntryName) (shared : Shared ι) : Prop :=
  shared.claiming actor = some name

theorem local_claims (name : EntryName) :
    Local actor (Claims actor name) := by
  constructor
  · intro before after moved claims
    exact moved.claiming.trans claims
  · intro before after same claims
    unfold Claims
    rw [same.claiming]
    exact claims

/-- The call is about to write a lease with this expiry. -/
def Pledged (actor : ι) (expiresAt : Nat) (shared : Shared ι) : Prop :=
  shared.pledge actor = some expiresAt

theorem local_pledged (expiresAt : Nat) :
    Local actor (Pledged actor expiresAt) := by
  constructor
  · intro before after moved pledged
    exact moved.pledge.trans pledged
  · intro before after same pledged
    unfold Pledged
    rw [same.pledge]
    exact pledged

theorem stable_true : Stable (Rely actor) fun _ => True :=
  fun _ _ _ _ => trivial

end local_

/-! ## Rules -/

/-- A part of a call among the others. -/
abbrev Triples (calls : ι → Call) (actor : ι) (pre : Shared ι → Prop)
    (program : Program interface α) (post : α → Shared ι → Prop) : Prop :=
  Triple (exec actor) (Sound calls) (Rely actor) (Guarantee actor) pre
    program post

/-- A part of a call that may fail; nothing is promised after a failure. -/
abbrev Performs (calls : ι → Call) (actor : ι) (pre : Shared ι → Prop)
    (action : Action ε α) (post : α → Shared ι → Prop) : Prop :=
  Triples calls actor pre action.run (Outcome (fun _ => True) post)

omit [DecidableEq ι] in
theorem stable_outcome
    {post : α → Shared ι → Prop}
    (stable : ∀ value, Stable (Rely actor) (post value))
    (outcome : Except ε α) :
    Stable (Rely actor) (Outcome (fun _ => True) post outcome) := by
  cases outcome with
  | error error => exact stable_true
  | ok value => exact stable value

theorem performs_bind
    {pre : Shared ι → Prop}
    {action : Action ε α}
    (middle : α → Shared ι → Prop)
    {rest : α → Action ε β}
    {post : β → Shared ι → Prop}
    (first : Performs calls actor pre action middle)
    (second : ∀ value,
      Performs calls actor (middle value) (rest value) post) :
    Performs calls actor pre (action >>= rest) post :=
  Triple.exceptBind (Rely.refl actor) stable_true first second

theorem performs_check
    {pre : Shared ι → Prop}
    {outcome : Except ε α}
    {post : α → Shared ι → Prop}
    (stable : Stable (Rely actor) pre)
    (succeeds : ∀ value shared, outcome = .ok value → pre shared →
      post value shared) :
    Performs calls actor pre (check outcome) post := by
  refine triple_done stable ?_
  intro shared _ holds
  cases ended : outcome with
  | error error => trivial
  | ok value => exact succeeds value shared ended holds

theorem performs_always
    {pre : Shared ι → Prop}
    {program : Program interface α}
    {post : α → Shared ι → Prop}
    (stable : ∀ value, Stable (Rely actor) (post value))
    (triple : Triples calls actor pre program post) :
    Performs calls actor pre (always program : Action ε α) post := by
  refine Triple.bind (Rely.refl actor) triple ?_
  intro value
  exact triple_done (stable value) fun _ _ holds => holds

theorem performs_mono
    {pre stronger : Shared ι → Prop}
    {action : Action ε α}
    {post weaker : α → Shared ι → Prop}
    (performs : Performs calls actor pre action post)
    (before : ∀ shared, stronger shared → pre shared)
    (after : ∀ value shared, post value shared → weaker value shared) :
    Performs calls actor stronger action weaker := by
  refine performs.mono (fun shared _ holds => before shared holds) ?_
  intro outcome shared _ reached
  cases outcome with
  | error error => trivial
  | ok value => exact after value shared reached

theorem performs_exists
    {κ : Type}
    {pre : κ → Shared ι → Prop}
    {action : Action ε α}
    {post : α → Shared ι → Prop}
    (performs : ∀ key, Performs calls actor (pre key) action post) :
    Performs calls actor (fun shared => ∃ key, pre key shared) action post :=
  fun start kept ⟨key, holds⟩ => performs key start kept holds

/-- What no step takes back may be carried along. -/
theorem triples_frame
    {pre lasting : Shared ι → Prop}
    {program : Program interface α}
    {post : α → Shared ι → Prop}
    (lasts : ∀ before after, Onward actor before after → lasting before →
      lasting after)
    (triple : Triples calls actor pre program post) :
    Triples calls actor (fun shared => pre shared ∧ lasting shared) program
      fun value shared => post value shared ∧ lasting shared := by
  refine Triple.frame ?_ triple
  rintro before after (moved | guaranteed)
  · exact lasts before after moved.onward
  · exact lasts before after guaranteed.onward

theorem performs_frame
    {pre lasting : Shared ι → Prop}
    {action : Action ε α}
    {post : α → Shared ι → Prop}
    (lasts : ∀ before after, Onward actor before after → lasting before →
      lasting after)
    (performs : Performs calls actor pre action post) :
    Performs calls actor (fun shared => pre shared ∧ lasting shared) action
      fun value shared => post value shared ∧ lasting shared := by
  refine (triples_frame lasts performs).mono (fun _ _ holds => holds) ?_
  intro outcome shared _ reached
  cases outcome with
  | error error => trivial
  | ok value => exact reached

/-- An error of another type is an error all the same. -/
theorem performs_mapError
    {δ : Type}
    {pre : Shared ι → Prop}
    {action : Action ε α}
    {post : α → Shared ι → Prop}
    (convert : ε → δ)
    (stable : ∀ value, Stable (Rely actor) (post value))
    (performs : Performs calls actor pre action post) :
    Performs calls actor pre
      (attempt (action.run >>= fun outcome =>
        .done (outcome.mapError convert)) : Action δ α) post := by
  refine Triple.bind (Rely.refl actor) performs ?_
  intro outcome
  refine triple_done (stable_outcome stable outcome) ?_
  intro shared _ reached
  cases outcome with
  | error error => trivial
  | ok value => exact reached

/-! ## Single steps -/

/-- One step whose conditions are met. -/
theorem triple_step
    {pre : Shared ι → Prop}
    {op : Op}
    {post : op.Reply → Shared ι → Prop}
    (stable : Stable (Rely actor) pre)
    (stablePost : ∀ reply, Stable (Rely actor) (post reply))
    (permitted : ∀ shared, pre shared → Permitted calls actor op shared)
    (reaches : ∀ before reply after, Sound calls before → pre before →
      exec actor op before reply after → post reply after) :
    Triples calls actor pre (perform op) post := by
  refine triple_perform stable stablePost ?_
  intro current sound holds reply after issued
  obtain ⟨soundAfter, guaranteed⟩ :=
    exec_keeps sound (permitted current holds) issued
  exact ⟨soundAfter, guaranteed, reaches current reply after sound holds issued⟩

/-- The steps that give the call nothing and take nothing. -/
def Silent : Op → Prop
  | .readDir => True
  | .readIdentity _ => True
  | .readLease _ => True
  | .readLeaseAndTime _ => True
  | .unixTimestamp => True
  | .renameIdentity _ _ => True
  | .openDir _ => True
  | .listParts _ => True
  | .unlink _ _ => True
  | .syncDirectory => True
  | .transfer _ _ => True
  | _ => False

omit [DecidableEq ι] in
theorem Silent.still {op : Op} (silent : Silent op) : ¬Moves op := by
  cases op <;> first | exact not_false | exact absurd silent not_false

omit [DecidableEq ι] in
theorem Silent.permitted
    {op : Op}
    (silent : Silent op)
    (shared : Shared ι) :
    Permitted calls actor op shared := by
  cases op <;> first | exact trivial | exact absurd silent not_false

theorem Silent.same
    {op : Op}
    {reply : op.Reply}
    {before after : Shared ι}
    (silent : Silent op)
    (issued : exec actor op before reply after) :
    Same actor before after := by
  obtain ⟨world, answered, rfl⟩ := issued
  have calm : Calm before.world world := by
    rcases answered with effect | ⟨_, rfl⟩
    · exact calm_of_effect silent.still effect
    · exact .refl before.world
  have recorded : ∃ readings, before.record actor op reply =
      { before with readings := readings } := by
    cases op with
    | readIdentity name =>
        cases reply with
        | error error => exact ⟨_, rfl⟩
        | ok metadata =>
            dsimp only [Shared.record]
            split <;> exact ⟨_, rfl⟩
    | readLease name =>
        cases reply with
        | error error => exact ⟨_, rfl⟩
        | ok expiresAt =>
            dsimp only [Shared.record]
            split <;> exact ⟨_, rfl⟩
    | readDir | readLeaseAndTime | unixTimestamp | renameIdentity | openDir
    | listParts | unlink | syncDirectory | transfer => exact ⟨_, rfl⟩
    | _ => exact absurd silent not_false
  obtain ⟨readings, same⟩ := recorded
  rw [same]
  exact ⟨calm.inode, rfl, fun _ _ drawn => drawn, rfl, rfl, rfl, rfl⟩

/-- A silent step, with what it adds. -/
theorem triple_silent
    {pre : Shared ι → Prop}
    {op : Op}
    {post : op.Reply → Shared ι → Prop}
    (silent : Silent op)
    (stable : Stable (Rely actor) pre)
    (stablePost : ∀ reply, Stable (Rely actor) (post reply))
    (adds : ∀ before reply after, Sound calls before → pre before →
      exec actor op before reply after → post reply after) :
    Triples calls actor pre (perform op) post :=
  triple_step stable stablePost (fun shared _ => silent.permitted shared) adds

/-- A silent step keeps what the call knows. -/
theorem triple_local
    {pre : Shared ι → Prop}
    (op : Op)
    (silent : Silent op)
    (isLocal : Local actor pre) :
    Triples calls actor pre (perform op) fun _ => pre :=
  triple_silent silent isLocal.stable (fun _ => isLocal.stable)
    fun before _ after _ holds issued =>
      isLocal.same before after (silent.same issued) holds

/-- A silent step that may fail. -/
theorem performs_local
    {pre : Shared ι → Prop}
    {program : Program interface (Except ε α)}
    (triple : Triples calls actor pre program fun _ => pre) :
    Performs calls actor pre (attempt program) fun _ => pre := by
  refine triple.mono (fun _ _ holds => holds) ?_
  intro outcome shared _ holds
  cases outcome with
  | error error => trivial
  | ok value => exact holds

/-- Creating a temporary file in a directory. -/
theorem performs_createPart
    {pre : Shared ι → Prop}
    (isLocal : Local actor pre)
    (name : EntryName) :
    Performs calls actor pre (attempt (perform (.createPart name)))
      fun _ => pre := by
  refine triple_step isLocal.stable
    (stable_outcome fun _ => isLocal.stable) (fun _ _ => trivial) ?_
  intro current reply after sound holds issued
  cases reply with
  | error error => trivial
  | ok =>
      obtain ⟨world, answered, rfl⟩ := issued
      rcases answered with effect | ⟨⟨_, impossible⟩, _⟩
      · have calm : Calm current.world world :=
          calm_within effect fun _ => .refl current.world
        refine isLocal.same current _ ⟨calm.inode, rfl, ?_, rfl, rfl, rfl,
          rfl⟩ holds
        exact fun _ _ drawn => drawn
      · cases impossible

/-- Writing and flushing a temporary file. -/
theorem performs_flush
    {pre : Shared ι → Prop}
    (isLocal : Local actor pre) :
    Performs calls actor pre (attempt (perform .flush)) fun _ => pre := by
  refine triple_step isLocal.stable
    (stable_outcome fun _ => isLocal.stable) (fun _ _ => trivial) ?_
  intro current reply after sound holds issued
  cases reply with
  | error error => trivial
  | ok =>
      obtain ⟨world, answered, rfl⟩ := issued
      rcases answered with effect | ⟨⟨_, impossible⟩, _⟩
      · cases effect
        exact holds
      · cases impossible

/-- The expiry of a lease is computed, and written before it is over. -/
theorem triple_leaseExpiry
    {pre : Shared ι → Prop}
    (isLocal : Local actor pre)
    (unpledged : ∀ shared pledge, pre shared →
      pre (shared.setPledge actor pledge)) :
    Triples calls actor pre (perform .leaseExpiry) fun expiresAt shared =>
      pre shared ∧ Pledged actor expiresAt shared := by
  refine triple_step isLocal.stable
    (fun expiresAt => (isLocal.and (local_pledged expiresAt)).stable)
    (fun _ _ => trivial) ?_
  intro current reply after sound holds issued
  obtain ⟨world, answered, rfl⟩ := issued
  rcases answered with effect | ⟨impossible, _⟩
  · cases effect
    exact ⟨unpledged current _ holds, Function.update_self ..⟩
  · cases impossible

/-- A fresh operation id makes names that are the call's own. -/
theorem triple_operationId
    {pre : Shared ι → Prop}
    (isLocal : Local actor pre) :
    Triples calls actor pre (perform .operationId) fun id shared =>
      pre shared ∧ ∀ name, name.operation = some id →
        Mine actor name shared := by
  refine triple_step isLocal.stable ?_ (fun _ _ => trivial) ?_
  · rintro id before after moved ⟨holds, mine⟩
    exact ⟨isLocal.stable before after moved holds, fun name named =>
      (local_mine name).stable before after moved (mine name named)⟩
  intro current reply after sound holds issued
  obtain ⟨world, answered, rfl⟩ := issued
  rcases answered with ⟨unspent, rfl⟩ | ⟨impossible, _⟩
  · constructor
    · refine isLocal.same current _ ⟨fun _ => rfl, rfl, ?_, rfl, rfl, rfl,
        rfl⟩ holds
      intro id someone drawn
      have different : id ≠ reply := by
        rintro rfl
        exact unspent (sound.drawn id someone drawn)
      exact (Function.update_of_ne different ..).trans drawn
    · intro name named
      refine ⟨reply, named, Function.update_self .., ?_⟩
      change current.bound name = none
      cases bound : current.bound name with
      | none => rfl
      | some inode =>
          exact absurd (sound.named name inode bound reply named) unspent
  · cases impossible

/-- A directory of the call's own is made. -/
theorem triple_createDir (name : EntryName) :
    Triples calls actor (Mine actor name) (perform (.createDir name))
      (Outcome (fun _ => True) fun _ shared =>
        ∃ inode, Owns actor name inode shared) := by
  refine triple_step (local_mine name).stable (stable_outcome ?_)
    (fun _ mine => mine) ?_
  · rintro _ before after moved ⟨inode, owns⟩
    exact ⟨inode, moved.owned name inode owns⟩
  intro current reply after _ _ issued
  cases reply with
  | error error => trivial
  | ok =>
      obtain ⟨world, answered, rfl⟩ := issued
      rcases answered with settled | ⟨⟨_, impossible⟩, _⟩
      · change respond (.createDir name) current.world = _ at settled
        unfold respond at settled
        dsimp only at settled
        split at settled
        · cases settled
        · next area created =>
            cases settled
            obtain ⟨_, _, entry⟩ := TemporaryArea.create_eq_some created
            refine ⟨current.world.area.nextInode, Function.update_self .., ?_⟩
            unfold Shared.inodeAt
            dsimp only
            rw [entry, if_pos rfl]
            rfl
      · cases impossible

/-- A successful lease write has found the directory. -/
theorem renameLease_ok
    {name : EntryName}
    {expiresAt : Nat}
    {before after : Shared ι}
    (issued : exec actor (.renameLease name expiresAt) before (.ok ()) after) :
    after = { before.recordLease actor name expiresAt with
      world := { before.world with
        area := before.world.area.update name fun dir =>
          { dir with lease := .expires expiresAt } } } := by
  obtain ⟨world, answered, rfl⟩ := issued
  rcases answered with settled | ⟨⟨_, impossible⟩, _⟩
  · rcases within_cases settled with ⟨_, impossible, _⟩ | ⟨_, _, _, rfl⟩
    · cases impossible
    · rfl
  · cases impossible

/-- Who renews the lease of its own staging keeps it. -/
theorem performs_renewOwn
    (name : EntryName)
    (inode expiresAt : Nat) :
    Performs calls actor
      (fun shared => Owns actor name inode shared ∧
        Pledged actor expiresAt shared)
      (attempt (perform (.renameLease name expiresAt)))
      fun _ => Owns actor name inode := by
  refine triple_step ((local_owns name inode).and
    (local_pledged expiresAt)).stable
    (stable_outcome fun _ => (local_owns name inode).stable)
    (fun _ holds => ⟨Or.inl holds.1.1, Or.inl holds.2⟩) ?_
  rintro current reply after sound ⟨⟨owned, stands⟩, pledged⟩ issued
  cases reply with
  | error error => trivial
  | ok =>
      have future := sound.last.pledged actor expiresAt pledged
      rw [renameLease_ok issued]
      constructor
      · unfold Shared.recordLease
        rw [if_pos owned, if_neg (by omega)]
        exact owned
      · unfold Shared.inodeAt
        rw [TemporaryArea.inode_update]
        exact stands

/-- Who renews the lease under a name that nobody owns is claiming it. -/
theorem performs_renewOpen
    {old new : EntryName}
    {inode expiresAt : Nat} :
    Performs calls actor
      (fun shared => (Open old inode shared ∧ Mine actor new shared) ∧
        Pledged actor expiresAt shared)
      (attempt (perform (.renameLease old expiresAt)))
      fun _ shared => (Open old inode shared ∧ Mine actor new shared) ∧
        Claims actor old shared := by
  have known : Local actor fun shared =>
      Open old inode shared ∧ Mine actor new shared :=
    (local_open old inode).and (local_mine new)
  refine triple_step (known.and (local_pledged expiresAt)).stable
    (stable_outcome fun _ => (known.and (local_claims old)).stable)
    (fun _ holds => ⟨Or.inr ⟨inode, holds.1.1⟩, Or.inl holds.2⟩) ?_
  rintro current reply after _ ⟨⟨opened, mine⟩, _⟩ issued
  cases reply with
  | error error => trivial
  | ok =>
      rw [renameLease_ok issued]
      unfold Shared.recordLease
      rw [if_neg (by rw [opened.2]; simp)]
      exact ⟨⟨opened, mine⟩, Function.update_self ..⟩

/-- An expired lease gives the staging up. -/
theorem performs_giveUp
    (name : EntryName)
    (inode expiresAt : Nat) :
    Performs calls actor
      (fun shared => Owns actor name inode shared ∧ Idle actor shared)
      (attempt (perform (.renameLease name expiresAt)))
      fun _ _ => True := by
  refine triple_step ((local_owns name inode).and local_idle).stable
    (stable_outcome fun _ => stable_true)
    (fun _ holds => ⟨Or.inl holds.1.1, Or.inr ⟨holds.1.1, holds.2⟩⟩) ?_
  intro _ reply _ _ _ _
  cases reply <;> trivial

/-- Renaming a directory to a name of the call's own. -/
theorem triple_rename
    {old new : EntryName}
    {pre : Shared ι → Prop}
    {post : Shared ι → Prop}
    (stable : Stable (Rely actor) pre)
    (stablePost : Stable (Rely actor) post)
    (permitted : ∀ shared, pre shared →
      Permitted calls actor (.rename old new) shared)
    (reaches : ∀ before found area, Sound calls before → pre before →
      before.world.area.entry old = some found →
      area.entry new = some found →
        post { before.recordRename actor old new with
          world := { before.world with area := area } }) :
    Triples calls actor pre (perform (.rename old new))
      (Outcome (fun _ => True) fun _ => post) := by
  refine triple_step stable (stable_outcome fun _ => stablePost) permitted ?_
  intro current reply after sound holds issued
  cases reply with
  | error error => trivial
  | ok =>
      obtain ⟨world, answered, rfl⟩ := issued
      rcases answered with settled | ⟨⟨_, impossible⟩, _⟩
      · rcases within_cases settled with
          ⟨_, impossible, _⟩ | ⟨_, _, same, gone⟩
        · cases impossible
        · split at same
          · cases same
          · next area moved =>
              rw [moved] at gone
              subst gone
              obtain ⟨found, stands, _, _, entry⟩ :=
                TemporaryArea.move_eq_some moved
              exact reaches current found area sound holds stands
                (by rw [entry, if_pos rfl])
      · cases impossible

/-- The rename is the claim. -/
theorem triple_renameClaimed
    (old new : EntryName)
    (inode : Nat) :
    Triples calls actor
      (fun shared => (Open old inode shared ∧ Mine actor new shared) ∧
        Claims actor old shared)
      (perform (.rename old new))
      (Outcome (fun _ => True) fun _ => Owns actor new inode) := by
  refine triple_rename (((local_open old inode).and (local_mine new)).and
    (local_claims old)).stable (local_owns new inode).stable ?_ ?_
  · rintro shared ⟨⟨opened, mine⟩, _⟩
    exact ⟨mine, Or.inr ⟨inode, opened⟩⟩
  · rintro before found area sound ⟨⟨opened, _⟩, claims⟩ stands standsNow
    have located := sound.located old found stands
    have claimed : before.claiming actor = some old := claims
    rw [opened.1] at located
    constructor
    · unfold Shared.recordRename
      rw [if_pos (Or.inr claimed)]
      exact Function.update_self ..
    · unfold Shared.inodeAt
      dsimp only
      rw [standsNow, located]
      rfl

/-- The owner renames its staging. -/
theorem triple_renameOwn
    (old new : EntryName)
    (inode : Nat) :
    Triples calls actor
      (fun shared => (Owns actor old inode shared ∧ Idle actor shared) ∧
        Mine actor new shared)
      (perform (.rename old new))
      (Outcome (fun _ => True) fun _ shared =>
        Owns actor new inode shared ∧ Idle actor shared) := by
  refine triple_rename (((local_owns old inode).and local_idle).and
    (local_mine new)).stable
    ((local_owns new inode).and local_idle).stable ?_ ?_
  · rintro shared ⟨⟨owns, idle⟩, mine⟩
    exact ⟨mine, Or.inl ⟨owns.1, idle⟩⟩
  · rintro before found area _ ⟨⟨⟨owned, stood⟩, idle⟩, _⟩ stands standsNow
    unfold Shared.inodeAt at stood
    rw [stands] at stood
    unfold Shared.recordRename
    rw [if_pos (Or.inl owned)]
    refine ⟨⟨Function.update_self .., ?_⟩, idle⟩
    unfold Shared.inodeAt
    dsimp only
    rw [standsNow]
    exact stood

/-- Somebody renames a directory that nobody owns. -/
theorem triple_renameOpen
    (old new : EntryName)
    (inode : Nat) :
    Triples calls actor
      (fun shared => Open old inode shared ∧ Mine actor new shared)
      (perform (.rename old new))
      (Outcome (fun _ => True) fun _ _ => True) := by
  refine triple_rename ((local_open old inode).and (local_mine new)).stable
    stable_true ?_ fun _ _ _ _ _ _ _ => trivial
  rintro shared ⟨opened, mine⟩
  exact ⟨mine, Or.inr ⟨inode, opened⟩⟩

/-- A directory is removed by its owner or when nobody owns it. -/
theorem performs_rmdir
    {name : EntryName}
    {pre : Shared ι → Prop}
    (stable : Stable (Rely actor) pre)
    (permitted : ∀ shared, pre shared →
      Permitted calls actor (.rmdir name) shared) :
    Performs calls actor pre (attempt (perform (.rmdir name)))
      fun _ _ => True := by
  refine triple_step stable (stable_outcome fun _ => stable_true) permitted ?_
  intro _ reply _ _ _ _
  cases reply <;> trivial

end Staging
end ModelKeep
