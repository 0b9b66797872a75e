import ModelKeep.Concurrency.Simulation
import ModelKeep.Staging.Scan

/-!
# Leases that cannot be recognised

A directory whose lease is missing, cannot be read as text or names no expiry
is adopted by nobody.  Whether it also stands in nobody's way is told here: an
acquisition is run beside one that finds the same area without the directory,
in the same order.
-/

namespace ModelKeep

/-- The lease tells no expiry. -/
def Lease.Unrecognised (lease : Lease) : Prop :=
  ∀ expiresAt, lease ≠ .expires expiresAt

namespace Staging

open Concurrency Program

variable {ε α β : Type} {before after : World}

/-! ## Names that a program works on -/

/-- A step on these names, or on none at all. -/
def Op.Within (names : EntryName → Prop) : Op → Prop
  | .readIdentity name => names name
  | .readLease name => names name
  | .createDir name => names name
  | .createPart name => names name
  | .renameLease name _ => names name
  | .renameIdentity name _ => names name
  | .rename old new => names old ∧ names new
  | .unixTimestamp => True
  | .leaseExpiry => True
  | .operationId => True
  | .flush => True
  | .syncDirectory => True
  | _ => False

/-- The program works on these names only, from here on. -/
abbrev Stays (names : EntryName → Prop) (program : Program interface α)
    (start : World) : Prop :=
  Along Effect (Op.Within names) program start

section names

variable {names : EntryName → Prop} {name : EntryName}

theorem stays_perform
    (op : Op)
    (fits : op.Within names)
    (start : World) :
    Stays names (perform op) start :=
  ⟨fits, fun _ _ _ => trivial⟩

theorem stays_always
    {program : Program interface α}
    {start : World}
    (stays : Stays names program start) :
    Stays names (always program : Action ε α).run start :=
  Along.bind stays fun _ _ _ => trivial

theorem stays_archived
    {action : Action ArchiveError α}
    {start : World}
    (stays : Stays names action.run start) :
    Stays names (archived action).run start :=
  Along.bind stays fun _ _ _ => trivial

theorem stays_writeLeaseWithExpiry
    (named : names name)
    (expiresAt : Nat)
    (start : World) :
    Stays names (writeStagingLeaseWithExpiry name expiresAt).run start := by
  unfold writeStagingLeaseWithExpiry
  apply Along.exceptBind (stays_perform (.createPart name) named start)
  intro _ _ _
  apply Along.exceptBind (stays_perform .flush trivial _)
  intro _ _ _
  exact stays_perform (.renameLease name expiresAt) named _

theorem stays_writeStagingLease (named : names name) (start : World) :
    Stays names (writeStagingLease name).run start := by
  unfold writeStagingLease
  apply Along.exceptBind (stays_always (stays_perform .leaseExpiry trivial start))
  intro expiresAt _ _
  exact stays_writeLeaseWithExpiry named expiresAt _

theorem stays_readMetadata (named : names name) (start : World) :
    Stays names (readFetchStagingMetadata name).run start := by
  unfold readFetchStagingMetadata
  apply Along.exceptBind (stays_perform (.readIdentity name) named start)
  intro _ _ _
  trivial

theorem stays_writeMetadata
    (named : names name)
    (metadata : FetchStagingMetadata)
    (start : World) :
    Stays names (writeFetchStagingMetadata name metadata).run start := by
  unfold writeFetchStagingMetadata
  apply Along.exceptBind (stays_perform (.createPart name) named start)
  intro _ _ _
  apply Along.exceptBind (stays_perform .flush trivial _)
  intro _ _ _
  apply Along.exceptBind (stays_perform (.renameIdentity name metadata) named _)
  intro _ _ _
  exact stays_perform .syncDirectory trivial _

theorem stays_finishClaim
    (named : names name)
    (metadata : FetchStagingMetadata)
    (files : List String)
    (start : World) :
    Stays names (finishClaim name metadata files).run start := by
  unfold finishClaim
  apply Along.exceptBind (stays_writeStagingLease named start)
  intro _ _ _
  apply Along.exceptBind
  · unfold relabel
    split
    · exact stays_writeMetadata named _ _
    · trivial
  intro _ _ _
  apply Along.exceptBind (stays_perform .syncDirectory trivial _)
  intro _ _ _
  trivial

/-- A fresh active name has one of these names. -/
def Fresh (names : EntryName → Prop) (world : World) : Prop :=
  ∀ id, id ∉ world.area.spent → names (.active id)

theorem stays_claim
    (named : names name)
    (fresh : Fresh names before)
    (metadata : FetchStagingMetadata)
    (files : List String) :
    Stays names (claimFetchStaging name metadata files).run before := by
  unfold claimFetchStaging
  refine ⟨trivial, ?_⟩
  rintro id middle ⟨unspent, rfl⟩
  apply Along.exceptBind (stays_always (stays_writeStagingLease named _))
  intro written _ _
  cases written with
  | error error =>
      dsimp only
      split <;> trivial
  | ok value =>
      apply Along.exceptBind
        (stays_always
          (stays_perform (.rename name (.active id))
            ⟨named, fresh id unspent⟩ _))
      intro renamed _ _
      cases renamed with
      | error error =>
          dsimp only
          split <;> trivial
      | ok value => exact stays_finishClaim (fresh id unspent) _ _ _

theorem spent_createDir
    {reply : Except ArchiveError Unit}
    (issued : Effect (.createDir name) before reply after) :
    after.area.spent = before.area.spent := by
  have settled : respond (.createDir name) before = (reply, after) := issued
  unfold respond at settled
  dsimp only at settled
  split at settled
  · cases settled
    rfl
  · next area created =>
      cases settled
      exact (TemporaryArea.create_eq_some created).2.1

theorem stays_createStaging
    (fresh : Fresh names before)
    (attempts : Nat) :
    Stays names (createStaging .active attempts).run before := by
  induction attempts generalizing before with
  | zero => trivial
  | succ attempts inductionHypothesis =>
      unfold createStaging
      refine ⟨trivial, ?_⟩
      rintro id middle ⟨unspent, rfl⟩
      have named := fresh id unspent
      refine ⟨named, ?_⟩
      intro created made issued
      cases created with
      | ok value =>
          apply Along.exceptBind (stays_writeStagingLease named _)
          intro _ _ _
          apply Along.exceptBind (stays_perform .syncDirectory trivial _)
          intro _ _ _
          trivial
      | error error =>
          change Stays names (ExceptT.run (if _ then _ else _)) made
          split
          · apply inductionHypothesis
            intro other unspentToo
            apply fresh
            rw [spent_createDir issued] at unspentToo
            exact fun spent =>
              unspentToo (List.mem_cons_of_mem id spent)
          · trivial

theorem stays_createFetchStaging
    (fresh : Fresh names before)
    (request : StagingRequest) :
    Stays names (createFetchStaging request).run before := by
  unfold createFetchStaging
  apply Along.exceptBind (stays_createStaging fresh 16)
  intro path middle created
  obtain ⟨id, unspent, same, _⟩ :=
    returns_createStaging (fun _ => rfl) created
  cases same
  apply Along.exceptBind
    (stays_writeMetadata (fresh id unspent) _ _)
  intro _ _ _
  trivial

end names

/-! ## The area elsewhere -/

/-- Two worlds that differ at one name only. -/
structure Elsewhere (name : EntryName) (world other : World) : Prop where
  clock : other.clock = world.clock
  spent : other.area.spent = world.area.spent
  inodes : other.area.nextInode = world.area.nextInode
  entry : ∀ elsewhere, elsewhere ≠ name →
    other.area.entry elsewhere = world.area.entry elsewhere

/-- Two worlds that differ at one name only and have these directories
there. -/
structure Beside (name : EntryName) (here there : Option AreaEntry)
    (world other : World) : Prop extends Elsewhere name world other where
  here : world.area.entry name = here
  there : other.area.entry name = there

section beside

variable {name : EntryName} {here there : Option AreaEntry} {other : World}

theorem Beside.symm
    (beside : Beside name here there before other) :
    Beside name there here other before where
  clock := beside.clock.symm
  spent := beside.spent.symm
  inodes := beside.inodes.symm
  entry := fun elsewhere different => (beside.entry elsewhere different).symm
  here := beside.there
  there := beside.here

theorem Elsewhere.told
    (elsewhere : Elsewhere name before other)
    {asked : EntryName}
    (different : asked ≠ name)
    (view : AreaEntry → Except ArchiveError α) :
    other.told asked view = before.told asked view := by
  unfold World.told
  rw [elsewhere.entry asked different]

theorem Elsewhere.identity
    (elsewhere : Elsewhere name before other)
    {asked : EntryName}
    (different : asked ≠ name) :
    other.identity asked = before.identity asked := by
  unfold World.identity
  rw [elsewhere.told different]

theorem Beside.change
    (beside : Beside name here there before other)
    {changed : EntryName}
    (different : changed ≠ name)
    (change : StagingDir → StagingDir) :
    Beside name here there (before.change changed change)
      (other.change changed change) where
  clock := beside.clock
  spent := beside.spent
  inodes := beside.inodes
  entry := by
    intro elsewhere apart
    change (other.area.update changed change).entry elsewhere =
      (before.area.update changed change).entry elsewhere
    rw [TemporaryArea.entry_update, TemporaryArea.entry_update,
      beside.entry elsewhere apart]
  here := (entry_change_of_ne different.symm change).trans beside.here
  there := (entry_change_of_ne different.symm change).trans beside.there

theorem Beside.rename
    (beside : Beside name here there before other)
    {old new : EntryName}
    (oldElsewhere : old ≠ name)
    (newElsewhere : new ≠ name)
    {area : TemporaryArea}
    (moved : before.area.move old new = some area) :
    ∃ areaToo, other.area.move old new = some areaToo ∧
      Beside name here there { before with area := area }
        { other with area := areaToo } := by
  obtain ⟨found, stands, free, spent, entries⟩ :=
    TemporaryArea.move_eq_some moved
  have freeToo : other.area.Free new := by
    refine ⟨(beside.entry new newElsewhere).trans free.1, ?_⟩
    rw [beside.spent]
    exact free.2
  obtain ⟨areaToo, movedToo⟩ := TemporaryArea.move_isSome
    ((beside.entry old oldElsewhere).trans stands) freeToo
  obtain ⟨foundToo, standsToo, _, spentToo, entriesToo⟩ :=
    TemporaryArea.move_eq_some movedToo
  rw [beside.entry old oldElsewhere, stands] at standsToo
  cases standsToo
  refine ⟨areaToo, movedToo, ⟨beside.clock, ?_, ?_, ?_⟩, ?_, ?_⟩
  · exact spentToo.trans (beside.spent.trans spent.symm)
  · exact (TemporaryArea.nextInode_move movedToo).trans
      (beside.inodes.trans (TemporaryArea.nextInode_move moved).symm)
  · intro elsewhere different
    change areaToo.entry elsewhere = area.entry elsewhere
    rw [entries, entriesToo, beside.entry elsewhere different]
  · change area.entry name = here
    rw [entries, if_neg newElsewhere.symm, if_neg oldElsewhere.symm,
      beside.here]
  · change areaToo.entry name = there
    rw [entriesToo, if_neg newElsewhere.symm, if_neg oldElsewhere.symm,
      beside.there]

theorem Beside.create
    (beside : Beside name here there before other)
    {new : EntryName}
    (newElsewhere : new ≠ name)
    {area : TemporaryArea}
    (created : before.area.create new = some area) :
    ∃ areaToo, other.area.create new = some areaToo ∧
      Beside name here there { before with area := area }
        { other with area := areaToo } := by
  obtain ⟨free, spent, entries⟩ := TemporaryArea.create_eq_some created
  have freeToo : other.area.Free new := by
    refine ⟨(beside.entry new newElsewhere).trans free.1, ?_⟩
    rw [beside.spent]
    exact free.2
  obtain ⟨areaToo, createdToo⟩ := TemporaryArea.create_isSome freeToo
  obtain ⟨_, spentToo, entriesToo⟩ :=
    TemporaryArea.create_eq_some createdToo
  refine ⟨areaToo, createdToo, ⟨beside.clock, ?_, ?_, ?_⟩, ?_, ?_⟩
  · exact spentToo.trans (beside.spent.trans spent.symm)
  · have inodes := beside.inodes
    rw [TemporaryArea.nextInode_create created,
      TemporaryArea.nextInode_create createdToo, inodes]
  · intro elsewhere different
    change areaToo.entry elsewhere = area.entry elsewhere
    rw [entries, entriesToo, beside.entry elsewhere different, beside.inodes]
  · change area.entry name = here
    rw [entries, if_neg newElsewhere.symm, beside.here]
  · change areaToo.entry name = there
    rw [entriesToo, if_neg newElsewhere.symm, beside.there]

/-- A step on a directory that has to be there goes the same way. -/
theorem Beside.within
    (beside : Beside name here there before other)
    {asked : EntryName}
    (different : asked ≠ name)
    {step : World → AreaEntry → Except ArchiveError α × TemporaryArea}
    (alike : ∀ found, before.area.entry asked = some found →
      (step other found).1 = (step before found).1 ∧
        Beside name here there { before with area := (step before found).2 }
          { other with area := (step other found).2 }) :
    (other.within asked (step other)).1 =
        (before.within asked (step before)).1 ∧
      Beside name here there (before.within asked (step before)).2
        (other.within asked (step other)).2 := by
  cases stands : before.area.entry asked with
  | none =>
      rw [within_none stands,
        within_none ((beside.entry asked different).trans stands)]
      exact ⟨rfl, beside⟩
  | some found =>
      rw [within_some stands,
        within_some ((beside.entry asked different).trans stands)]
      exact alike found stands

theorem answered_alike
    {op : Op}
    {reply : op.Reply}
    (alike : (respond op other).1 = (respond op before).1 ∧
      Beside name here there (respond op before).2 (respond op other).2)
    (settled : respond op before = (reply, after)) :
    ∃ afterToo, respond op other = (reply, afterToo) ∧
      Beside name here there after afterToo := by
  rw [settled] at alike
  exact ⟨(respond op other).2, Prod.ext alike.1 rfl, alike.2⟩

theorem Beside.draw
    (beside : Beside name here there before other)
    (id : String) :
    Beside name here there (before.draw id) (other.draw id) where
  clock := beside.clock
  spent := congrArg (id :: ·) beside.spent
  inodes := beside.inodes
  entry := beside.entry
  here := beside.here
  there := beside.there

/-- A step elsewhere has the same answer in both worlds. -/
theorem Beside.step
    (beside : Beside name here there before other)
    {op : Op}
    (fits : op.Within (· ≠ name))
    {reply : op.Reply}
    (issued : Effect op before reply after) :
    ∃ afterToo, Effect op other reply afterToo ∧
      Beside name here there after afterToo := by
  cases op with
  | readIdentity asked =>
      exact answered_alike (@Beside.within _ _ _ _ _ _ beside _ fits
        (fun world found => (found.dir.readIdentity, world.area))
        fun _ _ => ⟨rfl, beside⟩) issued
  | readLease asked =>
      exact answered_alike (@Beside.within _ _ _ _ _ _ beside _ fits
        (fun world found => (found.dir.lease.expiry, world.area))
        fun _ _ => ⟨rfl, beside⟩) issued
  | createPart asked =>
      exact answered_alike (@Beside.within _ _ _ _ _ _ beside _ fits
        (fun world _ => (.ok (), world.area))
        fun _ _ => ⟨rfl, beside⟩) issued
  | renameLease asked expiresAt =>
      exact answered_alike (@Beside.within _ _ _ _ _ _ beside _ fits
        (fun world _ => (.ok (), world.area.update asked fun dir =>
          { dir with lease := .expires expiresAt }))
        fun _ _ => ⟨rfl, beside.change fits fun dir =>
          { dir with lease := .expires expiresAt }⟩) issued
  | renameIdentity asked metadata =>
      exact answered_alike (@Beside.within _ _ _ _ _ _ beside _ fits
        (fun world _ => (.ok (), world.area.update asked fun dir =>
          { dir with identity := .decoded metadata }))
        fun _ _ => ⟨rfl, beside.change fits fun dir =>
          { dir with identity := .decoded metadata }⟩) issued
  | rename old new =>
      refine answered_alike ?_ issued
      apply beside.within fits.1
      intro _ _
      cases moved : before.area.move old new with
      | some area =>
          obtain ⟨areaToo, movedToo, renamed⟩ :=
            beside.rename fits.1 fits.2 moved
          rw [movedToo]
          exact ⟨rfl, renamed⟩
      | none =>
          cases movedToo : other.area.move old new with
          | none => exact ⟨rfl, beside⟩
          | some areaToo =>
              obtain ⟨area, movedBack, _⟩ :=
                beside.symm.rename fits.1 fits.2 movedToo
              rw [moved] at movedBack
              cases movedBack
  | createDir new =>
      refine answered_alike ?_ issued
      unfold respond
      dsimp only
      cases created : before.area.create new with
      | some area =>
          obtain ⟨areaToo, createdToo, made⟩ := beside.create fits created
          rw [createdToo]
          exact ⟨rfl, made⟩
      | none =>
          cases createdToo : other.area.create new with
          | none => exact ⟨rfl, beside⟩
          | some areaToo =>
              obtain ⟨area, createdBack, _⟩ :=
                beside.symm.create fits createdToo
              rw [created] at createdBack
              cases createdBack
  | operationId =>
      obtain ⟨unspent, rfl⟩ := issued
      refine ⟨other.draw reply, ⟨?_, rfl⟩, beside.draw reply⟩
      rw [beside.spent]
      exact unspent
  | unixTimestamp =>
      refine answered_alike ?_ issued
      exact ⟨beside.clock, beside⟩
  | leaseExpiry =>
      refine answered_alike ?_ issued
      exact ⟨congrArg (· + stagingLeaseSeconds) beside.clock, beside⟩
  | flush =>
      refine answered_alike ?_ issued
      exact ⟨rfl, beside⟩
  | syncDirectory =>
      refine answered_alike ?_ issued
      exact ⟨rfl, beside⟩
  | _ => cases fits

/-- A program that stays elsewhere ends alike in both worlds. -/
theorem Beside.runs
    (beside : Beside name here there before other)
    {program : Program interface α}
    (stays : Stays (· ≠ name) program before)
    {outcome : α}
    (run : program.Runs Effect before outcome after) :
    ∃ afterToo, program.Runs Effect other outcome afterToo ∧
      Beside name here there after afterToo :=
  stays.exists_runs
    (fun _ _ _ _ _ fits besideThen issued => besideThen.step fits issued)
    beside run

end beside

/-! ## Scans in a given order -/

/-- The steps of a call that runs alone and is told these listings, one after
the other. -/
def Scripted : Semantics interface (World × List (List DirEntry)) :=
  fun op start reply finish =>
    Effect op start.1 reply finish.1 ∧
      match op, reply with
      | .readDir, reply =>
          ∃ listed, reply = .ok listed ∧ start.2 = listed :: finish.2
      | _, _ => finish.2 = start.2

/-- A program that asks for no listing runs as ever. -/
theorem runs_scripted
    {names : EntryName → Prop}
    {program : Program interface α}
    (stays : Stays names program before)
    {script left : List (List DirEntry)}
    {outcome : α} :
    program.Runs Scripted (before, script) outcome (after, left) ↔
      program.Runs Effect before outcome after ∧ left = script := by
  induction program generalizing before with
  | done value =>
      simp only [runs_done, Prod.mk.injEq]
      tauto
  | call op next inductionHypothesis =>
      have other : op ≠ .readDir := by
        rintro rfl
        exact stays.1
      have step : ∀ reply finish,
          Scripted op (before, script) reply finish ↔
            Effect op before reply finish.1 ∧ finish.2 = script := by
        intro reply finish
        cases op <;> first | rfl | exact absurd rfl other
      constructor
      · rintro ⟨reply, ⟨middle, listings⟩, issued, run⟩
        obtain ⟨plain, rfl⟩ := (step _ _).mp issued
        obtain ⟨run, left⟩ :=
          (inductionHypothesis reply (stays.2 reply middle plain)).mp run
        exact ⟨⟨reply, middle, plain, run⟩, left⟩
      · rintro ⟨⟨reply, middle, issued, run⟩, left⟩
        exact ⟨reply, (middle, script), (step _ _).mpr ⟨issued, rfl⟩,
          (inductionHypothesis reply (stays.2 reply middle issued)).mpr
            ⟨run, left⟩⟩

/-! ## What decides an acquisition -/

/-- The first verdict that is not to pass. -/
def firstVerdict (judge : DirEntry → Verdict) : List DirEntry → Verdict
  | [] => .pass
  | entry :: rest =>
      match judge entry with
      | .pass => firstVerdict judge rest
      | verdict => verdict

theorem firstVerdict_cons_pass
    {judge : DirEntry → Verdict}
    {entry : DirEntry}
    (passes : judge entry = .pass)
    (rest : List DirEntry) :
    firstVerdict judge (entry :: rest) = firstVerdict judge rest := by
  rw [firstVerdict, passes]

theorem firstVerdict_cons_of_ne
    {judge : DirEntry → Verdict}
    {entry : DirEntry}
    (stops : judge entry ≠ .pass)
    (rest : List DirEntry) :
    firstVerdict judge (entry :: rest) = judge entry := by
  rw [firstVerdict]
  split
  · next passes => exact absurd passes stops
  · rfl

/-- A scan ends at an entry with a verdict. -/
def EndsAt (judge : DirEntry → Verdict) (listed : List DirEntry)
    (entry : DirEntry) (verdict : Verdict) : Prop :=
  verdict ≠ .pass ∧ ∃ earlier rest, listed = earlier ++ entry :: rest ∧
    (∀ passed ∈ earlier, judge passed = .pass) ∧ judge entry = verdict

theorem firstVerdict_eq_pass
    {judge : DirEntry → Verdict}
    {listed : List DirEntry} :
    firstVerdict judge listed = .pass ↔
      ∀ entry ∈ listed, judge entry = .pass := by
  induction listed with
  | nil => simp [firstVerdict]
  | cons entry rest inductionHypothesis =>
      by_cases passes : judge entry = .pass
      · rw [firstVerdict_cons_pass passes, inductionHypothesis]
        simp [passes]
      · rw [firstVerdict_cons_of_ne passes]
        simp [passes]

theorem firstVerdict_append
    {judge : DirEntry → Verdict}
    {earlier : List DirEntry}
    (passes : ∀ entry ∈ earlier, judge entry = .pass)
    (rest : List DirEntry) :
    firstVerdict judge (earlier ++ rest) = firstVerdict judge rest := by
  induction earlier with
  | nil => rfl
  | cons entry earlier inductionHypothesis =>
      obtain ⟨first, others⟩ := List.forall_mem_cons.mp passes
      rw [List.cons_append, firstVerdict_cons_pass first,
        inductionHypothesis others]

theorem EndsAt.firstVerdict
    {judge : DirEntry → Verdict}
    {listed : List DirEntry}
    {entry : DirEntry}
    {verdict : Verdict}
    (ends : EndsAt judge listed entry verdict) :
    firstVerdict judge listed = verdict := by
  obtain ⟨stops, earlier, rest, rfl, passes, rfl⟩ := ends
  rw [firstVerdict_append passes, firstVerdict_cons_of_ne stops]

theorem exists_endsAt
    {judge : DirEntry → Verdict}
    {listed : List DirEntry}
    (stops : firstVerdict judge listed ≠ .pass) :
    ∃ entry ∈ listed,
      EndsAt judge listed entry (firstVerdict judge listed) := by
  induction listed with
  | nil => exact absurd rfl stops
  | cons entry rest inductionHypothesis =>
      by_cases passes : judge entry = .pass
      · rw [firstVerdict_cons_pass passes] at stops ⊢
        obtain ⟨last, member, _, earlier, later, split, passed, judged⟩ :=
          inductionHypothesis stops
        refine ⟨last, List.mem_cons_of_mem entry member, stops,
          entry :: earlier, later, ?_, ?_, judged⟩
        · rw [split]
          rfl
        · exact List.forall_mem_cons.mpr ⟨passes, passed⟩
      · rw [firstVerdict_cons_of_ne passes]
        exact ⟨entry, List.mem_cons_self, passes, [], rest, rfl, by simp,
          rfl⟩

/-- A scan without an entry ends as it does with it, unless it ends there. -/
theorem firstVerdict_filter
    {judge : DirEntry → Verdict}
    (left : DirEntry)
    (listed : List DirEntry) :
    firstVerdict judge (listed.filter fun entry => entry ≠ left) =
        firstVerdict judge listed ∨
      EndsAt judge listed left (judge left) := by
  induction listed with
  | nil => exact Or.inl rfl
  | cons entry rest inductionHypothesis =>
      by_cases passes : judge entry = .pass
      · rw [firstVerdict_cons_pass passes]
        rcases inductionHypothesis with same |
          ⟨stops, earlier, later, split, passed, judged⟩
        · left
          rw [← same]
          by_cases here : entry = left
          · rw [List.filter_cons_of_neg (by simp [here])]
          · rw [List.filter_cons_of_pos (by simp [here]),
              firstVerdict_cons_pass passes]
        · right
          refine ⟨stops, entry :: earlier, later, ?_, ?_, judged⟩
          · rw [split]
            rfl
          · exact List.forall_mem_cons.mpr ⟨passes, passed⟩
      · by_cases here : entry = left
        · subst here
          exact Or.inr ⟨passes, [], rest, rfl, by simp, rfl⟩
        · left
          rw [List.filter_cons_of_pos (by simp [here]),
            firstVerdict_cons_of_ne passes, firstVerdict_cons_of_ne passes]

section acquisition

variable {request : StagingRequest} {first second : List DirEntry}

/-- The verdict of both scans. -/
def World.verdict (world : World) (request : StagingRequest)
    (first second : List DirEntry) : Verdict :=
  match firstVerdict (world.judgeAbandoned request world.clock) first with
  | .pass => firstVerdict (world.judgeActive request world.clock) second
  | verdict => verdict

/-- How an acquisition ends whose scans came to a verdict. -/
def Verdict.Concludes (verdict : Verdict) (request : StagingRequest)
    (before : World) (outcome : Except FetchStagingError FetchStaging)
    (after : World) : Prop :=
  match verdict with
  | .pass => ∃ made, outcome = made.mapError .archive ∧
      Returns Effect (createFetchStaging request) before made after
  | .refuse error => outcome = .error error ∧ after = before
  | .adopt staging metadata => ∃ claimed, outcome = .ok claimed ∧
      Returns Effect (claimFetchStaging staging metadata request.files) before
        (.ok (some claimed)) after

theorem returns_firstOf_verdict
    {now : Nat}
    {visit : DirEntry → Action FetchStagingError (Option FetchStaging)}
    {judge : DirEntry → Verdict}
    (judged : ∀ entry outcome later,
      Returns Effect (visit entry) before outcome later ↔
        (judge entry).Ends request.files before outcome later)
    (adoptable : ∀ entry staging metadata,
      judge entry = .adopt staging metadata →
        before.Adoptable request now staging metadata)
    (listed : List DirEntry)
    {outcome : Except FetchStagingError (Option FetchStaging)} :
    Returns Effect (firstOf visit listed) before outcome after ↔
      (firstVerdict judge listed).Ends request.files before outcome after := by
  induction listed with
  | nil => exact returns_check
  | cons entry rest inductionHypothesis =>
      rw [firstOf]
      by_cases passes : judge entry = .pass
      · rw [firstVerdict_cons_pass passes]
        have visits : Settles Effect (visit entry).run before (.ok none)
            before := by
          intro outcome later
          change Returns _ _ _ _ _ ↔ _
          rw [judged, passes]
          rfl
        rw [returns_bind_of visits]
        exact inductionHypothesis
      · rw [firstVerdict_cons_of_ne passes, ← judged, returns_bind]
        have never : ∀ later,
            ¬Returns Effect (visit entry) before (.ok none) later := by
          intro later visited
          exact passes (((judged _ _ _).mp visited).eq_pass
            (adoptable entry)).1
        constructor
        · rintro (⟨error, rfl, failed⟩ | ⟨_ | claimed, middle, visited, run⟩)
          · exact failed
          · exact absurd visited (never middle)
          · obtain ⟨rfl, rfl⟩ := returns_check.mp run
            exact visited
        · intro visited
          rcases outcome with error | _ | claimed
          · exact Or.inl ⟨error, rfl, visited⟩
          · exact absurd visited (never after)
          · exact Or.inr ⟨some claimed, after, visited,
              returns_check.mpr ⟨rfl, rfl⟩⟩

/-! ## Listings that are given -/

/-- Any name at all. -/
abbrev Anywhere : EntryName → Prop := fun _ => True

theorem stays_weighLease
    {name : EntryName}
    {now : Nat}
    {alive expired : Action FetchStagingError (Option FetchStaging)}
    {start : World}
    (aliveStays : ∀ world, Stays Anywhere alive.run world)
    (expiredStays : ∀ world, Stays Anywhere expired.run world) :
    Stays Anywhere (weighLease name now alive expired).run start := by
  unfold weighLease
  apply Along.exceptBind
    (stays_always (@stays_perform Anywhere (.readLease name) trivial start))
  intro lease middle _
  cases lease with
  | error error =>
      dsimp only
      split <;> trivial
  | ok expiresAt =>
      dsimp only
      split
      · exact aliveStays middle
      · exact expiredStays middle

theorem stays_adopt
    (staging : EntryName)
    (metadata : FetchStagingMetadata)
    (files : List String)
    (world : World) :
    Stays Anywhere (archived (claimFetchStaging staging metadata files)).run
      world :=
  stays_archived (stays_claim trivial (fun _ _ => trivial) metadata files)

theorem stays_visitAbandoned (now : Nat) (entry : DirEntry) (start : World) :
    Stays Anywhere (visitAbandoned request now entry).run start := by
  unfold visitAbandoned
  match entry with
  | .error error => trivial
  | .ok (.other name, isDirectory) => trivial
  | .ok (.active name, isDirectory) => trivial
  | .ok (.abandoned id, false) => trivial
  | .ok (.abandoned id, true) =>
      refine Along.exceptBind (trivial : Along _ _ (.done _) _) ?_
      intro _ _ run
      obtain ⟨same, rfl⟩ := returns_check.mp run
      cases same
      apply Along.exceptBind (stays_always (stays_readMetadata trivial _))
      intro identity _ _
      cases identity with
      | error error => trivial
      | ok metadata =>
          dsimp only
          split
          · exact stays_weighLease (fun _ => trivial)
              (stays_adopt _ metadata request.files)
          · trivial

theorem stays_visitActive (now : Nat) (entry : DirEntry) (start : World) :
    Stays Anywhere (visitActive request now entry).run start := by
  unfold visitActive
  match entry with
  | .error error => trivial
  | .ok (.other name, isDirectory) => trivial
  | .ok (.abandoned name, isDirectory) => trivial
  | .ok (.active id, false) => trivial
  | .ok (.active id, true) =>
      refine Along.exceptBind (trivial : Along _ _ (.done _) _) ?_
      intro _ _ run
      obtain ⟨same, rfl⟩ := returns_check.mp run
      cases same
      apply Along.exceptBind (stays_always (stays_readMetadata trivial _))
      intro identity _ _
      cases identity with
      | error error => trivial
      | ok metadata =>
          dsimp only
          split
          · apply stays_weighLease
            · intro _
              split <;> trivial
            · intro world
              split
              · exact stays_adopt _ metadata request.files world
              · trivial
          · trivial

theorem stays_firstOf
    {visit : DirEntry → Action FetchStagingError (Option FetchStaging)}
    (stays : ∀ entry world, Stays Anywhere (visit entry).run world)
    (listed : List DirEntry)
    (start : World) :
    Stays Anywhere (firstOf visit listed).run start := by
  induction listed generalizing start with
  | nil => trivial
  | cons entry rest inductionHypothesis =>
      rw [firstOf]
      apply Along.exceptBind (stays entry start)
      intro claimed middle _
      cases claimed with
      | some claimed => trivial
      | none => exact inductionHypothesis middle

/-- How an acquisition ends that is told these listings. -/
def Ends (request : StagingRequest) (before : World)
    (first second : List DirEntry)
    (outcome : Except FetchStagingError FetchStaging) (after : World) : Prop :=
  ∃ left, Returns Scripted (acquireFetchStaging request)
    (before, [first, second]) outcome (after, left)

theorem returns_scripted_readDir
    {listed : List DirEntry}
    {script left : List (List DirEntry)}
    (listing : Listing before.area listed)
    {rest : List DirEntry → Action FetchStagingError β}
    {outcome : Except FetchStagingError β} :
    Returns Scripted (archived (attempt (perform .readDir)) >>= rest)
        (before, listed :: script) outcome (after, left) ↔
      Returns Scripted (rest listed) (before, script) outcome
        (after, left) := by
  constructor
  · rintro ⟨reply, ⟨middle, remaining⟩, ⟨⟨same, _⟩, told, rfl, script⟩, run⟩
    dsimp only at same script
    cases script
    subst same
    exact run
  · intro run
    exact ⟨.ok listed, (before, script), ⟨⟨rfl, listed, rfl, listing⟩, listed,
      rfl, rfl⟩, run⟩

/-- A scan and what follows it, by the verdict of the scan. -/
theorem returns_scan_bind
    {visit : DirEntry → Action FetchStagingError (Option FetchStaging)}
    {judge : DirEntry → Verdict}
    (stays : ∀ entry world, Stays Anywhere (visit entry).run world)
    {listed : List DirEntry}
    (judged : ∀ outcome later,
      Returns Effect (firstOf visit listed) before outcome later ↔
        (firstVerdict judge listed).Ends request.files before outcome later)
    (claims : ∀ staging metadata,
      firstVerdict judge listed = .adopt staging metadata →
        ∀ outcome later,
          Returns Effect (claimFetchStaging staging metadata request.files)
              before outcome later →
            ∃ claimed, outcome = .ok (some claimed))
    {rest : Action FetchStagingError FetchStaging}
    {script : List (List DirEntry)}
    {outcome : Except FetchStagingError FetchStaging} :
    (∃ left, Returns Scripted
      (firstOf visit listed >>= fun found =>
        match found with
        | some claimed => check (.ok claimed)
        | none => rest) (before, script) outcome (after, left)) ↔
      match firstVerdict judge listed with
      | .pass =>
          ∃ left, Returns Scripted rest (before, script) outcome (after, left)
      | verdict => verdict.Concludes request before outcome after := by
  have scans : ∀ outcome later left,
      Returns Scripted (firstOf visit listed) (before, script) outcome
          (later, left) ↔
        (firstVerdict judge listed).Ends request.files before outcome later ∧
          left = script := by
    intro outcome later left
    rw [← judged]
    exact runs_scripted (stays_firstOf stays listed before)
  cases verdict : firstVerdict judge listed with
  | pass =>
      rw [verdict] at scans
      have settled : Settles Scripted (firstOf visit listed).run
          (before, script) (.ok none) (before, script) := by
        rintro outcome ⟨later, left⟩
        change Returns _ _ _ _ _ ↔ _
        rw [scans, Prod.mk.injEq]
        exact and_assoc
      simp only [returns_bind_of settled]
  | refuse error =>
      rw [verdict] at scans
      constructor
      · rintro ⟨left, run⟩
        rcases returns_bind.mp run with
          ⟨failure, rfl, failed⟩ | ⟨found, ⟨middle, _⟩, scanned, _⟩
        · obtain ⟨⟨same, rfl⟩, _⟩ := (scans _ _ _).mp failed
          cases same
          exact ⟨rfl, rfl⟩
        · cases ((scans _ _ _).mp scanned).1.1
      · rintro ⟨rfl, rfl⟩
        exact ⟨script, returns_bind.mpr (Or.inl ⟨error, rfl,
          (scans _ _ _).mpr ⟨⟨rfl, rfl⟩, rfl⟩⟩)⟩
  | adopt staging metadata =>
      rw [verdict] at scans
      constructor
      · rintro ⟨left, run⟩
        rcases returns_bind.mp run with
          ⟨failure, rfl, failed⟩ | ⟨found, ⟨middle, _⟩, scanned, run⟩
        · obtain ⟨answer, same, claim⟩ :=
            returns_archived.mp ((scans _ _ _).mp failed).1
          obtain ⟨claimed, rfl⟩ := claims _ _ verdict _ _ claim
          cases same
        · obtain ⟨answer, same, claim⟩ :=
            returns_archived.mp ((scans _ _ _).mp scanned).1
          obtain ⟨claimed, rfl⟩ := claims _ _ verdict _ _ claim
          cases same
          obtain ⟨rfl, ended⟩ := returns_check.mp run
          rw [Prod.mk.injEq] at ended
          obtain ⟨rfl, _⟩ := ended
          exact ⟨claimed, rfl, claim⟩
      · rintro ⟨claimed, rfl, claim⟩
        refine ⟨script, returns_bind.mpr (Or.inr ⟨some claimed,
          (after, script), (scans _ _ _).mpr ⟨?_, rfl⟩,
          returns_check.mpr ⟨rfl, rfl⟩⟩)⟩
        exact returns_archived.mpr ⟨_, rfl, claim⟩

/-- A claim of a directory that may be taken over goes through. -/
theorem claims_of_adoptable
    {now : Nat}
    {staging : EntryName}
    {metadata : FetchStagingMetadata}
    (adoptable : before.Adoptable request now staging metadata)
    {outcome : Except ArchiveError (Option FetchStaging)}
    (run : Returns Effect
      (claimFetchStaging staging metadata request.files) before outcome
      after) :
    ∃ claimed, outcome = .ok (some claimed) := by
  obtain ⟨found, _, stands, recorded, _⟩ := adoptable.recorded
  obtain ⟨_, _, same, _⟩ := returns_claim stands recorded run
  exact ⟨_, same⟩

/-- An acquisition comes down to the verdict of its scans. -/
theorem ends_iff
    (valid : validateRequest request = .ok ())
    (listing : Listing before.area first)
    (listingToo : Listing before.area second)
    {outcome : Except FetchStagingError FetchStaging} :
    Ends request before first second outcome after ↔
      (before.verdict request first second).Concludes request before outcome
        after := by
  have begins : ∀ left,
      Returns Scripted (acquireFetchStaging request) (before, [first, second])
          outcome (after, left) ↔
        Returns Scripted
          (archived (attempt (perform .readDir)) >>= fun listed =>
            firstOf (visitAbandoned request before.clock) listed >>=
              fun found => match found with
                | some claimed => check (.ok claimed)
                | none => archived (attempt (perform .readDir)) >>=
                    fun listed =>
                      firstOf (visitActive request before.clock) listed >>=
                        fun found => match found with
                          | some claimed => check (.ok claimed)
                          | none => archived (createFetchStaging request))
          (before, [first, second]) outcome (after, left) := by
    intro left
    unfold acquireFetchStaging
    rw [valid]
    constructor
    · rintro ⟨now, ⟨middle, script⟩, ⟨told, kept⟩, run⟩
      have answered : (before.clock, before) = (now, middle) := told
      cases answered
      cases kept
      exact run
    · intro run
      exact ⟨before.clock, (before, [first, second]), ⟨rfl, rfl⟩, run⟩
  unfold Ends
  simp only [begins, returns_scripted_readDir listing]
  rw [returns_scan_bind (stays_visitAbandoned before.clock)
    (fun _ _ => returns_firstOf_verdict
      (fun entry _ _ => returns_visitAbandoned entry)
      (fun _ _ _ => adoptable_of_abandoned) first)
    (fun staging metadata verdict _ _ => by
      obtain ⟨entry, _, _, _, _, _, _, judged⟩ :=
        exists_endsAt (verdict.trans_ne (by simp))
      rw [verdict] at judged
      exact claims_of_adoptable (adoptable_of_abandoned judged))]
  unfold World.verdict
  cases firstVerdict (before.judgeAbandoned request before.clock) first with
  | refuse error => rfl
  | adopt staging metadata => rfl
  | pass =>
      dsimp only
      simp only [returns_scripted_readDir listingToo]
      rw [returns_scan_bind (stays_visitActive before.clock)
        (fun _ _ => returns_firstOf_verdict
          (fun entry _ _ => returns_visitActive entry)
          (fun _ _ _ => adoptable_of_active) second)
        (fun staging metadata verdict _ _ => by
          obtain ⟨entry, _, _, _, _, _, _, judged⟩ :=
            exists_endsAt (verdict.trans_ne (by simp))
          rw [verdict] at judged
          exact claims_of_adoptable (adoptable_of_active judged))]
      cases firstVerdict (before.judgeActive request before.clock) second with
      | refuse error => rfl
      | adopt staging metadata => rfl
      | pass =>
          dsimp only
          have stays :
              Stays Anywhere (createFetchStaging request).run before :=
            stays_createFetchStaging (fun _ _ => trivial) request
          have creates : ∀ left,
              Returns Scripted (archived (createFetchStaging request))
                  (before, []) outcome (after, left) ↔
                Returns Effect (archived (createFetchStaging request)) before
                  outcome after ∧ left = [] := fun left =>
            runs_scripted (stays_archived stays)
          simp only [creates, exists_and_left, exists_eq, and_true]
          exact returns_archived

theorem ends_iff_of_invalid
    {error : ArchiveError}
    (invalid : validateRequest request = .error error)
    {outcome : Except FetchStagingError FetchStaging} :
    Ends request before first second outcome after ↔
      outcome = .error (.archive error) ∧ after = before := by
  unfold Ends acquireFetchStaging
  rw [invalid]
  constructor
  · rintro ⟨left, rfl, same⟩
    rw [Prod.mk.injEq] at same
    exact ⟨rfl, same.1⟩
  · rintro ⟨rfl, rfl⟩
    exact ⟨_, rfl, rfl⟩

/-! ## The area without a directory -/

/-- The world without a directory of the area. -/
def World.lacking (world : World) (name : EntryName) : World :=
  { world with area := world.area.remove name }

/-- A listing without a directory. -/
def lacking (name : EntryName) (listed : List DirEntry) : List DirEntry :=
  listed.filter fun entry => entry ≠ .ok (name, true)

/-- An acquisition goes the same way as without the directory, up to the name
that it makes up, and leaves the directory as it is. -/
structure Unaffected (request : StagingRequest) (before : World)
    (name : EntryName) (first second : List DirEntry) : Prop where
  kept : ∀ outcome after,
    Ends request before first second outcome after →
      after.area.entry name = before.area.entry name
  without : ∀ outcome after,
    Ends request before first second outcome after →
      ∃ afterToo, Ends request (before.lacking name) (lacking name first)
          (lacking name second) outcome afterToo ∧
        Elsewhere name after afterToo
  within : ∀ outcome afterToo,
    Ends request (before.lacking name) (lacking name first)
        (lacking name second) outcome afterToo →
      ∃ after, Ends request before first second outcome after ∧
        Elsewhere name after afterToo

/-- The scans of an acquisition end at a directory with a verdict. -/
def World.StopsAt (world : World) (request : StagingRequest)
    (first second : List DirEntry) (name : EntryName) (verdict : Verdict) :
    Prop :=
  EndsAt (world.judgeAbandoned request world.clock) first (.ok (name, true))
      verdict ∨
    (∀ entry ∈ first,
      world.judgeAbandoned request world.clock entry = .pass) ∧
    EndsAt (world.judgeActive request world.clock) second (.ok (name, true))
      verdict

theorem beside_lacking (world : World) (name : EntryName) :
    Beside name (world.area.entry name) none world (world.lacking name) where
  clock := rfl
  spent := rfl
  inodes := rfl
  entry := fun _ different => if_neg different
  here := rfl
  there := if_pos rfl

theorem listing_lacking
    (name : EntryName)
    {listed : List DirEntry}
    (listing : Listing before.area listed) :
    Listing (before.lacking name).area (lacking name listed) := by
  obtain ⟨entries, rfl, distinct, complete⟩ := listing
  refine ⟨entries.filter fun entry => entry ≠ (name, true), ?_, ?_, ?_⟩
  · unfold lacking
    rw [List.filter_map]
    congr 1
    apply List.filter_congr
    intro entry _
    simp
  · exact distinct.sublist (List.filter_sublist.map _)
  · intro other
    change _ ↔ (if other = name then none else _).isSome
    rw [List.mem_filter, complete]
    by_cases same : other = name
    · simp [same]
    · simp [same]

/-- Elsewhere a lease is weighed as before. -/
theorem Elsewhere.weigh
    {name asked : EntryName}
    {other : World}
    (elsewhere : Elsewhere name before other)
    (different : asked ≠ name)
    (now : Nat)
    (alive expired : Verdict) :
    other.weigh asked now alive expired =
      before.weigh asked now alive expired := by
  unfold World.weigh
  rw [elsewhere.told different]

theorem Elsewhere.judgeAbandoned
    {name : EntryName}
    {other : World}
    (elsewhere : Elsewhere name before other)
    {now : Nat}
    {entry : DirEntry}
    (different : entry ≠ .ok (name, true)) :
    other.judgeAbandoned request now entry =
      before.judgeAbandoned request now entry := by
  match entry with
  | .error error => rfl
  | .ok (.other name, isDirectory) => rfl
  | .ok (.active name, isDirectory) => rfl
  | .ok (.abandoned id, false) => rfl
  | .ok (.abandoned id, true) =>
      have apart : EntryName.abandoned id ≠ name := by
        rintro rfl
        exact different rfl
      unfold World.judgeAbandoned
      simp only [elsewhere.identity apart, elsewhere.weigh apart]

theorem Elsewhere.judgeActive
    {name : EntryName}
    {other : World}
    (elsewhere : Elsewhere name before other)
    {now : Nat}
    {entry : DirEntry}
    (different : entry ≠ .ok (name, true)) :
    other.judgeActive request now entry =
      before.judgeActive request now entry := by
  match entry with
  | .error error => rfl
  | .ok (.other name, isDirectory) => rfl
  | .ok (.abandoned name, isDirectory) => rfl
  | .ok (.active id, false) => rfl
  | .ok (.active id, true) =>
      have apart : EntryName.active id ≠ name := by
        rintro rfl
        exact different rfl
      unfold World.judgeActive
      simp only [elsewhere.identity apart, elsewhere.weigh apart]

theorem firstVerdict_congr
    {judge judgeToo : DirEntry → Verdict}
    {listed : List DirEntry}
    (same : ∀ entry ∈ listed, judge entry = judgeToo entry) :
    firstVerdict judge listed = firstVerdict judgeToo listed := by
  induction listed with
  | nil => rfl
  | cons entry rest inductionHypothesis =>
      obtain ⟨first, others⟩ := List.forall_mem_cons.mp same
      rw [firstVerdict, firstVerdict, first, inductionHypothesis others]

/-- Unless the scans end at the directory, they end alike without it. -/
theorem verdict_lacking
    {name : EntryName}
    (passes : ∀ verdict,
      ¬before.StopsAt request first second name verdict) :
    (before.lacking name).verdict request (lacking name first)
        (lacking name second) =
      before.verdict request first second := by
  have elsewhere := (beside_lacking before name).toElsewhere
  have different : ∀ listed, ∀ entry ∈ lacking name listed,
      entry ≠ .ok (name, true) := by
    intro listed entry member
    simpa using (List.mem_filter.mp member).2
  have firstSame : firstVerdict
      ((before.lacking name).judgeAbandoned request before.clock)
      (lacking name first) =
        firstVerdict (before.judgeAbandoned request before.clock) first := by
    rw [firstVerdict_congr fun entry member =>
      elsewhere.judgeAbandoned (different first entry member)]
    rcases firstVerdict_filter (.ok (name, true)) first with same | ends
    · exact same
    · exact absurd (Or.inl ends) (passes _)
  unfold World.verdict
  change (match firstVerdict
      ((before.lacking name).judgeAbandoned request before.clock)
      (lacking name first) with
    | .pass => firstVerdict
        ((before.lacking name).judgeActive request before.clock)
        (lacking name second)
    | verdict => verdict) = _
  rw [firstSame]
  cases firstPasses :
      firstVerdict (before.judgeAbandoned request before.clock) first with
  | refuse error => rfl
  | adopt staging metadata => rfl
  | pass =>
      dsimp only
      rw [firstVerdict_congr fun entry member =>
        elsewhere.judgeActive (different second entry member)]
      rcases firstVerdict_filter (.ok (name, true)) second with same | ends
      · exact same
      · exact absurd
          (Or.inr ⟨firstVerdict_eq_pass.mp firstPasses, ends⟩) (passes _)

theorem World.StopsAt.verdict
    {name : EntryName}
    {verdict : Verdict}
    (stops : before.StopsAt request first second name verdict) :
    before.verdict request first second = verdict := by
  unfold World.verdict
  rcases stops with ends | ⟨passes, ends⟩
  · rw [ends.firstVerdict]
    cases verdict with
    | pass => exact absurd rfl ends.1
    | refuse error => rfl
    | adopt staging metadata => rfl
  · rw [firstVerdict_eq_pass.mpr passes]
    exact ends.firstVerdict

/-- What is no directory is passed over. -/
theorem exists_directory
    {area : TemporaryArea}
    {listed : List DirEntry}
    (listing : Listing area listed)
    {judge : DirEntry → Verdict}
    (overlooks : ∀ name, judge (.ok (name, false)) = .pass)
    (stops : firstVerdict judge listed ≠ .pass) :
    ∃ name, EndsAt judge listed (.ok (name, true))
      (firstVerdict judge listed) := by
  obtain ⟨entry, member, ends⟩ := exists_endsAt stops
  obtain ⟨entries, rfl, _⟩ := listing
  obtain ⟨⟨name, isDirectory⟩, _, rfl⟩ := List.mem_map.mp member
  cases isDirectory with
  | true => exact ⟨name, ends⟩
  | false =>
      obtain ⟨different, _, _, _, _, judged⟩ := ends
      exact absurd (judged.symm.trans (overlooks name)) different

theorem exists_stopsAt
    (listing : Listing before.area first)
    (listingToo : Listing before.area second)
    (stops : before.verdict request first second ≠ .pass) :
    ∃ name, before.StopsAt request first second name
      (before.verdict request first second) := by
  have overlooksAbandoned : ∀ name,
      before.judgeAbandoned request before.clock (.ok (name, false)) =
        .pass := by
    intro name
    cases name <;> rfl
  have overlooksActive : ∀ name,
      before.judgeActive request before.clock (.ok (name, false)) =
        .pass := by
    intro name
    cases name <;> rfl
  have decided : before.verdict request first second =
      match firstVerdict (before.judgeAbandoned request before.clock) first
      with
      | .pass => firstVerdict (before.judgeActive request before.clock) second
      | verdict => verdict := rfl
  by_cases firstPasses :
      firstVerdict (before.judgeAbandoned request before.clock) first = .pass
  · rw [firstPasses] at decided
    dsimp only at decided
    rw [decided] at stops ⊢
    obtain ⟨name, ends⟩ :=
      exists_directory listingToo overlooksActive stops
    exact ⟨name, Or.inr ⟨firstVerdict_eq_pass.mp firstPasses, ends⟩⟩
  · obtain ⟨name, ends⟩ :=
      exists_directory listing overlooksAbandoned firstPasses
    have whole : before.StopsAt request first second name
        (firstVerdict (before.judgeAbandoned request before.clock) first) :=
      Or.inl ends
    exact ⟨name, whole.verdict.symm ▸ whole⟩

/-- What has no recognisable lease is adopted by nobody. -/
theorem adopts_elsewhere
    {name staging : EntryName}
    {found : AreaEntry}
    {now : Nat}
    {metadata : FetchStagingMetadata}
    (stands : before.area.entry name = some found)
    (unrecognised : found.dir.lease.Unrecognised)
    (adoptable : before.Adoptable request now staging metadata) :
    staging ≠ name := by
  rintro rfl
  obtain ⟨other, expiresAt, standsToo, _, leased, _⟩ := adoptable.recorded
  rw [stands] at standsToo
  cases standsToo
  exact unrecognised expiresAt leased

theorem adoptable_of_stopsAt
    {name staging : EntryName}
    {metadata : FetchStagingMetadata}
    (stops : before.StopsAt request first second name
      (.adopt staging metadata)) :
    before.Adoptable request before.clock staging metadata := by
  rcases stops with ⟨_, _, _, _, _, judged⟩ | ⟨_, _, _, _, _, _, judged⟩
  · exact adoptable_of_abandoned judged
  · exact adoptable_of_active judged

/-- The directory that is adopted is the one that the scan ends at. -/
theorem adopted_of_stopsAt
    {name staging : EntryName}
    {metadata : FetchStagingMetadata}
    (stops : before.StopsAt request first second name
      (.adopt staging metadata)) :
    staging = name := by
  have weighs : ∀ {named : EntryName} {alive expired : Verdict},
      before.weigh named before.clock alive expired =
          .adopt staging metadata →
        alive ≠ .adopt staging metadata →
        expired = .adopt staging metadata := fun weighed notAlive =>
    (weigh_eq_adopt weighed notAlive).1
  rcases stops with ⟨_, _, _, _, _, judged⟩ | ⟨_, _, _, _, _, _, judged⟩
  · cases name with
    | other id => cases judged
    | active id => cases judged
    | abandoned id =>
        unfold World.judgeAbandoned at judged
        dsimp only at judged
        split at judged
        · cases judged
        · split at judged
          · cases weighs judged (by simp)
            rfl
          · cases judged
  · cases name with
    | other id => cases judged
    | abandoned id => cases judged
    | active id =>
        unfold World.judgeActive at judged
        dsimp only at judged
        split at judged
        · cases judged
        · split at judged
          · have same := weighs judged (by split <;> simp)
            split at same
            · cases same
              rfl
            · cases same
          · cases judged

/-- What an acquisition does elsewhere it does beside any directory. -/
theorem Verdict.Concludes.beside
    {name : EntryName}
    {here there : Option AreaEntry}
    {other : World}
    {verdict : Verdict}
    (beside : Beside name here there before other)
    (drawn : ∀ id ∈ name.operation, id ∈ before.area.spent)
    (elsewhere : ∀ staging metadata,
      verdict = .adopt staging metadata → staging ≠ name)
    {outcome : Except FetchStagingError FetchStaging}
    (concludes : verdict.Concludes request before outcome after) :
    ∃ afterToo, verdict.Concludes request other outcome afterToo ∧
      Beside name here there after afterToo := by
  have fresh : Fresh (· ≠ name) before := by
    rintro id unspent rfl
    exact unspent (drawn id rfl)
  cases verdict with
  | pass =>
      obtain ⟨made, rfl, run⟩ := concludes
      obtain ⟨afterToo, runToo, besideToo⟩ :=
        beside.runs (stays_createFetchStaging fresh request) run
      exact ⟨afterToo, ⟨made, rfl, runToo⟩, besideToo⟩
  | refuse error =>
      obtain ⟨rfl, rfl⟩ := concludes
      exact ⟨other, ⟨rfl, rfl⟩, beside⟩
  | adopt staging metadata =>
      obtain ⟨claimed, rfl, run⟩ := concludes
      have apart : (fun other => other ≠ name) staging :=
        elsewhere staging metadata rfl
      have stays : Stays (· ≠ name)
          (claimFetchStaging staging metadata request.files).run before :=
        @stays_claim before (· ≠ name) staging apart fresh metadata _
      obtain ⟨afterToo, runToo, besideToo⟩ := beside.runs stays run
      exact ⟨afterToo, ⟨claimed, rfl, runToo⟩, besideToo⟩

/-- An acquisition is not affected by a directory without a recognisable lease
exactly when its scans do not end there, or end with the same error at another
directory once that one is gone. -/
theorem unaffected_iff
    {name : EntryName}
    {found : AreaEntry}
    (stands : before.area.entry name = some found)
    (unrecognised : found.dir.lease.Unrecognised)
    (listing : Listing before.area first)
    (listingToo : Listing before.area second) :
    Unaffected request before name first second ↔
      (validateRequest request = .ok () → ∀ error,
        before.StopsAt request first second name (.refuse error) →
          ∃ other, (before.lacking name).StopsAt request (lacking name first)
            (lacking name second) other (.refuse error)) := by
  have beside := beside_lacking before name
  have drawn : ∀ id ∈ name.operation, id ∈ before.area.spent := by
    intro id named
    exact before.area.issued name id (by rw [stands]; rfl) named
  cases checked : validateRequest request with
  | error error =>
      refine iff_of_true ⟨?_, ?_, ?_⟩ (by simp)
      · intro outcome after ends
        obtain ⟨_, rfl⟩ := (ends_iff_of_invalid checked).mp ends
        rfl
      · intro outcome after ends
        obtain ⟨rfl, rfl⟩ := (ends_iff_of_invalid checked).mp ends
        exact ⟨_, (ends_iff_of_invalid checked).mpr ⟨rfl, rfl⟩,
          beside.toElsewhere⟩
      · intro outcome after ends
        obtain ⟨rfl, rfl⟩ := (ends_iff_of_invalid checked).mp ends
        exact ⟨_, (ends_iff_of_invalid checked).mpr ⟨rfl, rfl⟩,
          beside.toElsewhere⟩
  | ok value =>
      have whole : ∀ outcome after, Ends request before first second outcome
          after ↔ _ := fun _ _ => ends_iff checked listing listingToo
      have less : ∀ outcome after, Ends request (before.lacking name)
          (lacking name first) (lacking name second) outcome after ↔ _ :=
        fun _ _ => ends_iff checked (listing_lacking name listing)
          (listing_lacking name listingToo)
      by_cases stops : ∃ verdict,
          before.StopsAt request first second name verdict
      · obtain ⟨verdict, stops⟩ := stops
        rw [stops.verdict] at whole
        cases verdict with
        | pass =>
            rcases stops with ends | ⟨_, ends⟩
            · exact absurd rfl ends.1
            · exact absurd rfl ends.1
        | adopt staging metadata =>
            exact absurd (adopted_of_stopsAt stops)
              (adopts_elsewhere stands unrecognised
                (adoptable_of_stopsAt stops))
        | refuse error =>
            constructor
            · intro unaffected _ other stopsToo
              cases stops.verdict.symm.trans stopsToo.verdict
              obtain ⟨afterToo, ends, _⟩ := unaffected.without _ _
                ((whole _ _).mpr ⟨rfl, rfl⟩)
              rw [less] at ends
              cases decided : (before.lacking name).verdict request
                  (lacking name first) (lacking name second) with
              | pass =>
                  rw [decided] at ends
                  obtain ⟨made, same, creates⟩ := ends
                  obtain ⟨_, _, _, rfl, _⟩ :=
                    returns_createFetchStaging creates
                  cases same
              | adopt staging metadata =>
                  rw [decided] at ends
                  obtain ⟨_, same, _⟩ := ends
                  cases same
              | refuse errorToo =>
                  rw [decided] at ends
                  cases ends.1
                  rw [← decided]
                  exact exists_stopsAt (listing_lacking name listing)
                    (listing_lacking name listingToo)
                    (by rw [decided]; simp)
            · intro same
              obtain ⟨other, stopsToo⟩ := same rfl error stops
              rw [stopsToo.verdict] at less
              refine ⟨?_, ?_, ?_⟩
              · intro outcome after ends
                obtain ⟨_, rfl⟩ := (whole _ _).mp ends
                rfl
              · intro outcome after ends
                obtain ⟨rfl, rfl⟩ := (whole _ _).mp ends
                exact ⟨_, (less _ _).mpr ⟨rfl, rfl⟩, beside.toElsewhere⟩
              · intro outcome after ends
                obtain ⟨rfl, rfl⟩ := (less _ _).mp ends
                exact ⟨_, (whole _ _).mpr ⟨rfl, rfl⟩, beside.toElsewhere⟩
      · refine iff_of_true ?_ fun _ error ends => absurd ⟨_, ends⟩ stops
        rw [verdict_lacking (not_exists.mp stops)] at less
        have elsewhere : ∀ staging metadata,
            before.verdict request first second = .adopt staging metadata →
              staging ≠ name := by
          intro staging metadata decided
          obtain ⟨last, ends⟩ := exists_stopsAt listing listingToo
            (by rw [decided]; simp)
          rw [decided] at ends
          exact adopts_elsewhere stands unrecognised
            (adoptable_of_stopsAt ends)
        refine ⟨?_, ?_, ?_⟩
        · intro outcome after ends
          obtain ⟨_, _, besideToo⟩ :=
            ((whole _ _).mp ends).beside beside drawn elsewhere
          exact besideToo.here
        · intro outcome after ends
          obtain ⟨afterToo, concludes, besideToo⟩ :=
            ((whole _ _).mp ends).beside beside drawn elsewhere
          exact ⟨afterToo, (less _ _).mpr concludes, besideToo.toElsewhere⟩
        · intro outcome afterToo ends
          obtain ⟨after, concludes, besideToo⟩ :=
            ((less _ _).mp ends).beside beside.symm drawn elsewhere
          exact ⟨after, (whole _ _).mpr concludes,
            besideToo.symm.toElsewhere⟩

/-- An abandoned directory whose lease names no expiry. -/
def nameless : World :=
  ⟨(((TemporaryArea.empty.draw "0").create (.abandoned "0")).getD
    .empty).update (.abandoned "0") fun dir =>
      { dir with
        lease := .noExpiry
        identity := .decoded ⟨1, .model, "org/model", "main", [],
          some "aaaaaaaaaaaaaaaaaaaaaaaaaaaaaaaaaaaaaaaa"⟩ }, 100⟩

theorem listing_nameless :
    Listing nameless.area [.ok (.abandoned "0", true)] := by
  refine ⟨[(.abandoned "0", true)], rfl, by simp, ?_⟩
  intro name
  rw [← TemporaryArea.mem_names]
  have only : nameless.area.names = [.abandoned "0"] := by decide +kernel
  rw [only]
  simp

/-- It does not affect a request for another revision. -/
theorem unaffected_iff_sample :
    Unaffected ⟨.model, "org/model", "dev", []⟩ nameless (.abandoned "0")
      [.ok (.abandoned "0", true)] [.ok (.abandoned "0", true)] := by
  have stands : ∃ found, nameless.area.entry (.abandoned "0") = some found ∧
      found.dir.lease = .noExpiry := ⟨_, rfl, rfl⟩
  obtain ⟨found, stands, leased⟩ := stands
  refine (unaffected_iff stands ?_ listing_nameless listing_nameless).mpr ?_
  · intro expiresAt same
    rw [leased] at same
    cases same
  · rintro _ error (⟨_, _, _, _, _, judged⟩ | ⟨_, _, _, _, _, _, judged⟩)
    · have passes : nameless.judgeAbandoned
          ⟨.model, "org/model", "dev", []⟩ nameless.clock
          (.ok (.abandoned "0", true)) = .pass := rfl
      rw [passes] at judged
      cases judged
    · cases judged

/-- It refuses a request that it matches, which nothing stands in the way
of. -/
theorem affected_by_unrecognised :
    ¬∀ (request : StagingRequest) (before : World) (name : EntryName)
      (found : AreaEntry) (first second : List DirEntry),
      before.area.entry name = some found → found.dir.lease.Unrecognised →
      Listing before.area first → Listing before.area second →
        Unaffected request before name first second := by
  intro unaffected
  have stands : ∃ found, nameless.area.entry (.abandoned "0") = some found ∧
      found.dir.lease = .noExpiry := ⟨_, rfl, rfl⟩
  obtain ⟨found, stands, leased⟩ := stands
  have alike := unaffected ⟨.model, "org/model", "main", []⟩ _ _ _ _ _ stands
    (by
      intro expiresAt same
      rw [leased] at same
      cases same) listing_nameless listing_nameless
  have valid : validateRequest ⟨.model, "org/model", "main", []⟩ = .ok () := by
    decide +kernel
  have refuses : nameless.verdict ⟨.model, "org/model", "main", []⟩
      [.ok (.abandoned "0", true)] [.ok (.abandoned "0", true)] =
        .refuse (.archive
          (.integrityMismatch "staging lease has no expiry")) := rfl
  have ends := (ends_iff valid listing_nameless listing_nameless).mpr
    (by rw [refuses]; exact ⟨rfl, rfl⟩)
  obtain ⟨after, endsToo, _⟩ := alike.without _ _ ends
  have less := listing_lacking (.abandoned "0") listing_nameless
  obtain ⟨made, same, creates⟩ := (ends_iff valid less less).mp endsToo
  obtain ⟨_, _, _, rfl, _⟩ := returns_createFetchStaging creates
  cases same

end acquisition

end Staging
end ModelKeep
