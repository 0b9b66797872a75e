import ModelKeep.Operations.Store

/-!
# What the calls on a repository promise

An update promises to put in place no ref but its own, and that one only for a
commit that stands and that nobody is taking apart.  A removal promises to
touch nothing but its revision.  The temporary file of an update is nobody
else's, so it is not counted among the refs.
-/

namespace ModelKeep
namespace Operations

open Concurrency

variable {ι : Type}

/-! ## Refs that are in place -/

namespace Store

/-- The temporary file of a call bears this name. -/
def Owns (calls : ι → Call) (store : Store ι) (actor : ι) (name : String) :
    Prop :=
  ∃ reference id, (calls actor).reference = some reference ∧
    store.drawn actor = some id ∧ name = Refs.temporaryName reference id

/-- A regular file that is not the temporary file of a call. -/
def Placed (store : Store ι) (name : String) (text : Option String) : Prop :=
  store.dir.refNode name = some (.file text) ∧
    ∀ actor, store.temporary actor ≠ some name

/-- A ref that is in place names the commit. -/
def Names (store : Store ι) (name commit : String) : Prop :=
  ∃ text, store.Placed name (some text) ∧ Archive.trim text = commit

/-- No removal has begun to delete the revision. -/
def Unharmed (store : Store ι) (commit : String) : Prop :=
  ∀ actor, store.removing actor ≠ some commit

end Store

/-- What is left of a revision. -/
def Within (left whole : RevisionDir) : Prop :=
  ∀ entry, left.Has entry → whole.Has entry

theorem Within.refl (revision : RevisionDir) : Within revision revision :=
  fun _ => id

theorem Within.trans
    {first second third : RevisionDir}
    (earlier : Within second first)
    (later : Within third second) :
    Within third first :=
  fun entry present => earlier entry (later entry present)

/-! ## The contract of one call -/

/-- What every reachable store satisfies. -/
structure Sound
    (sha256 : Bytes → String)
    (repoType : RepositoryType)
    (calls : ι → Call)
    (store : Store ι) :
    Prop where
  asked : ∀ actor, ∀ path ∈ store.placed actor,
    path ∈ (calls actor).request.files
  revisions : ∀ commit revision,
    store.dir.revision commit = some revision → store.Unharmed commit →
      ∃ manifest, Extension.Intact sha256 repoType
        (store.shared commit revision) manifest
  refs : ∀ name text, store.Placed name text → ∃ found,
    text = some found ∧
      (store.dir.revision (Archive.trim found)).isSome ∧
      store.Unharmed (Archive.trim found)
  removals : ∀ actor commit, store.removing actor = some commit →
    (calls actor).removes = true ∧ (calls actor).commit = commit
  temporaries : ∀ actor name, store.temporary actor = some name →
    store.Owns calls actor name
  distinct : ∀ actor other name, actor ≠ other →
    store.Owns calls actor name → ¬store.Owns calls other name
  unasked : ∀ actor other name, store.Owns calls actor name →
    (calls other).reference ≠ some name

/-- What a call guarantees. -/
structure Guarantee (calls : ι → Call) (actor : ι)
    (before after : Store ι) : Prop where
  others : ∀ other, other ≠ actor →
    after.drawn other = before.drawn other ∧
      after.temporary other = before.temporary other ∧
      after.removing other = before.removing other ∧
      after.part other = before.part other ∧
      after.placed other = before.placed other
  owned : ∀ other name, other ≠ actor → before.Owns calls other name →
    after.dir.refNode name = before.dir.refNode name
  refs : ∀ name text, after.Placed name text → before.Placed name text ∨
    (calls actor).reference = some name ∧
      text = some (calls actor).commit ∧
      Archive.trim (calls actor).commit = (calls actor).commit
  apart : ∀ commit, commit ≠ (calls actor).commit →
    after.dir.revision commit = before.dir.revision commit ∧
      after.lock commit = before.lock commit
  grows : (calls actor).removes = false → ∀ revision,
    before.dir.revision (calls actor).commit = some revision →
      ∃ grown, after.dir.revision (calls actor).commit = some grown ∧
        Extension.Guarantee actor
          (before.shared (calls actor).commit revision)
          (after.shared (calls actor).commit grown)
  shrinks : (calls actor).isRemoval = true → ∀ left,
    after.dir.revision (calls actor).commit = some left →
      ∃ revision, before.dir.revision (calls actor).commit = some revision ∧
        Within left revision

/-- What a call may rely on. -/
structure Rely (calls : ι → Call) (actor : ι)
    (before after : Store ι) : Prop where
  drawn : after.drawn actor = before.drawn actor
  temporary : after.temporary actor = before.temporary actor
  removing : after.removing actor = before.removing actor
  placed : after.placed actor = before.placed actor
  owned : ∀ name, before.Owns calls actor name →
    after.dir.refNode name = before.dir.refNode name
  stands : (calls actor).isRemoval = false → ∀ revision,
    before.dir.revision (calls actor).commit = some revision →
      ∃ grown, after.dir.revision (calls actor).commit = some grown ∧
        Extension.Rely actor
          (before.shared (calls actor).commit revision)
          (after.shared (calls actor).commit grown)
  unharmed : (calls actor).isRemoval = false →
    before.Unharmed (calls actor).commit →
      after.Unharmed (calls actor).commit
  unnamed : (calls actor).removes = true → ∀ name,
    after.Names name (calls actor).commit →
      before.Names name (calls actor).commit
  shrinks : (calls actor).removes = true → ∀ left,
    after.dir.revision (calls actor).commit = some left →
      ∃ revision, before.dir.revision (calls actor).commit = some revision ∧
        Within left revision

/-- Nothing is known of the call yet. -/
structure Fresh (actor : ι) (store : Store ι) : Prop where
  drawn : store.drawn actor = none
  temporary : store.temporary actor = none
  removing : store.removing actor = none
  placed : store.placed actor = []

/-- The call has nothing left to clean up. -/
structure Finished (actor : ι) (store : Store ι) : Prop where
  temporary : store.temporary actor = none
  removing : store.removing actor = none

variable {calls : ι → Call} {actor : ι}

theorem Rely.refl (calls : ι → Call) (actor : ι) (store : Store ι) :
    Rely calls actor store store where
  drawn := rfl
  temporary := rfl
  removing := rfl
  placed := rfl
  owned := fun _ _ => rfl
  stands := fun _ revision found => ⟨revision, found, .refl ..⟩
  unharmed := fun _ => id
  unnamed := fun _ _ => id
  shrinks := fun _ left found => ⟨left, found, .refl left⟩

theorem Store.Owns.congr
    {before after : Store ι}
    {name : String}
    (owns : before.Owns calls actor name)
    (same : after.drawn actor = before.drawn actor) :
    after.Owns calls actor name := by
  obtain ⟨reference, id, asked, drawn, named⟩ := owns
  exact ⟨reference, id, asked, same.trans drawn, named⟩

theorem Rely.trans
    {first second third : Store ι}
    (earlier : Rely calls actor first second)
    (later : Rely calls actor second third) :
    Rely calls actor first third where
  drawn := later.drawn.trans earlier.drawn
  temporary := later.temporary.trans earlier.temporary
  removing := later.removing.trans earlier.removing
  placed := later.placed.trans earlier.placed
  owned := fun name owns =>
    (later.owned name (owns.congr earlier.drawn)).trans
      (earlier.owned name owns)
  stands := by
    intro kind revision found
    obtain ⟨middle, foundThen, relied⟩ := earlier.stands kind revision found
    obtain ⟨last, foundNow, reliedToo⟩ := later.stands kind middle foundThen
    exact ⟨last, foundNow, relied.trans reliedToo⟩
  unharmed := fun kind unharmed =>
    later.unharmed kind (earlier.unharmed kind unharmed)
  unnamed := fun kind name named =>
    earlier.unnamed kind name (later.unnamed kind name named)
  shrinks := by
    intro kind left found
    obtain ⟨middle, foundThen, inner⟩ := later.shrinks kind left found
    obtain ⟨whole, foundFirst, outer⟩ := earlier.shrinks kind middle foundThen
    exact ⟨whole, foundFirst, outer.trans inner⟩

theorem Guarantee.refl (calls : ι → Call) (actor : ι) (store : Store ι) :
    Guarantee calls actor store store where
  others := fun _ _ => ⟨rfl, rfl, rfl, rfl, rfl⟩
  owned := fun _ _ _ _ => rfl
  refs := fun _ _ => Or.inl
  apart := fun _ _ => ⟨rfl, rfl⟩
  grows := fun _ revision found => ⟨revision, found, .refl ..⟩
  shrinks := fun _ left found => ⟨left, found, .refl left⟩

theorem reference_of_isRemoval
    {call : Call}
    (removal : call.isRemoval = true) :
    call.reference = none := by
  cases call with
  | remove repoId commit dryRun => rfl
  | _ => cases removal

section rely

variable {sha256 : Bytes → String} {repoType : RepositoryType}

/-- Where the revision of a call is not touched, its share is the same but for
what the other call has renamed elsewhere. -/
theorem Guarantee.shared_rely
    {other : ι}
    {before after : Store ι}
    {commit : String}
    {revision : RevisionDir}
    (guarantee : Guarantee calls actor before after)
    (different : actor ≠ other)
    (lock : after.lock commit = before.lock commit) :
    Extension.Rely other (before.shared commit revision)
      (after.shared commit revision) := by
  obtain ⟨_, _, _, part, placed⟩ := guarantee.others other different.symm
  refine ⟨.of_revision_eq rfl, ?_, part, placed⟩
  intro held
  exact ⟨lock.trans held, rfl⟩

/-- What one call guarantees, another that does not conflict relies on. -/
theorem Guarantee.rely
    {other : ι}
    {before after : Store ι}
    (guarantee : Guarantee calls actor before after)
    (different : actor ≠ other)
    (apart : ¬Conflict calls actor other)
    (sound : Sound sha256 repoType calls after) :
    Rely calls other before after := by
  obtain ⟨drawn, temporary, removing, part, placed⟩ :=
    guarantee.others other different.symm
  have keeps : (calls other).isRemoval = false →
      (calls actor).commit = (calls other).commit →
        (calls actor).removes = false := by
    intro kind same
    by_contra removes
    exact apart (Or.inl ⟨same, by simpa using removes, kind⟩)
  refine ⟨drawn, temporary, removing, placed,
    fun name => guarantee.owned other name different.symm, ?_, ?_, ?_, ?_⟩
  · intro kind revision found
    by_cases same : (calls actor).commit = (calls other).commit
    · rw [← same] at found ⊢
      obtain ⟨grown, foundNow, guaranteed⟩ :=
        guarantee.grows (keeps kind same) revision found
      exact ⟨grown, foundNow, guaranteed.rely different⟩
    · obtain ⟨untouched, lock⟩ := guarantee.apart _ (Ne.symm same)
      exact ⟨revision, untouched.trans found,
        guarantee.shared_rely different lock⟩
  · intro kind unharmed third harms
    by_cases self : third = actor
    · subst self
      obtain ⟨removes, same⟩ := sound.removals third _ harms
      rw [keeps kind same] at removes
      cases removes
    · rw [(guarantee.others third self).2.2.1] at harms
      exact unharmed third harms
  · rintro kind name ⟨text, inPlace, trimmed⟩
    rcases guarantee.refs name _ inPlace with older | ⟨writes, same, plain⟩
    · exact ⟨text, older, trimmed⟩
    · cases same
      rw [plain] at trimmed
      -- The call that writes a ref is no removal.
      refine absurd (Or.inr ⟨trimmed.symm, kind, ?_⟩) apart
      cases removal : (calls actor).isRemoval with
      | false => rfl
      | true =>
          rw [reference_of_isRemoval removal] at writes
          cases writes
  · intro kind left found
    by_cases same : (calls actor).commit = (calls other).commit
    · cases removal : (calls actor).isRemoval with
      | true =>
          rw [← same] at found ⊢
          exact guarantee.shrinks removal left found
      | false => exact absurd (Or.inr ⟨same.symm, kind, removal⟩) apart
    · rw [(guarantee.apart _ (Ne.symm same)).1] at found
      exact ⟨left, found, .refl left⟩

end rely

/-! ## Parts of a call -/

section acts

variable {sha256 : Bytes → String} {repoType : RepositoryType}
  {α β : Type}

abbrev Lasting (calls : ι → Call) (actor : ι)
    (assertion : Store ι → Prop) : Prop :=
  Stable (Rely calls actor) assertion

theorem lasting_true : Lasting calls actor fun _ : Store ι => True :=
  fun _ _ _ _ => trivial

theorem lasting_finished :
    Lasting calls actor (Finished actor : Store ι → Prop) :=
  fun _ _ relied finished =>
    ⟨relied.temporary.trans finished.temporary,
      relied.removing.trans finished.removing⟩

theorem lasting_unharmed
    {commit : String}
    (kind : (calls actor).isRemoval = false)
    (about : (calls actor).commit = commit) :
    Lasting calls actor fun store : Store ι => store.Unharmed commit := by
  subst about
  exact fun _ _ relied => relied.unharmed kind

/-- Only updates and removals have anything to clean up. -/
theorem Sound.finished
    {store : Store ι}
    (sound : Sound sha256 repoType calls store)
    (nothing : (calls actor).reference = none)
    (harmless : (calls actor).removes = false) :
    Finished actor store where
  temporary := by
    cases held : store.temporary actor with
    | none => rfl
    | some name =>
        obtain ⟨_, _, asked, _⟩ := sound.temporaries actor name held
        rw [nothing] at asked
        cases asked
  removing := by
    cases held : store.removing actor with
    | none => rfl
    | some commit =>
        have removes := (sound.removals actor commit held).1
        rw [harmless] at removes
        cases removes

variable [DecidableEq ι]

/-- A part of a call among other calls. -/
abbrev Acts
    (sha256 : Bytes → String)
    (repoType : RepositoryType)
    (calls : ι → Call)
    (actor : ι)
    (pre : Store ι → Prop)
    (action : Action α)
    (failed : Store ι → Prop)
    (succeeded : α → Store ι → Prop) :
    Prop :=
  Program.Triple (exec repoType calls actor) (Sound sha256 repoType calls)
    (Rely calls actor) (Guarantee calls actor) pre action.run
    (Program.Outcome failed succeeded)

theorem acts_bind
    {pre failed : Store ι → Prop}
    {action : Action α}
    (middle : α → Store ι → Prop)
    {rest : α → Action β}
    {post : β → Store ι → Prop}
    (lastingFailed : Lasting calls actor failed)
    (first : Acts sha256 repoType calls actor pre action failed middle)
    (second : ∀ value, Acts sha256 repoType calls actor (middle value)
      (rest value) failed post) :
    Acts sha256 repoType calls actor pre (action >>= rest) failed post :=
  Program.Triple.exceptBind (Rely.refl calls actor) lastingFailed first second

theorem acts_always
    {pre failed : Store ι → Prop}
    {program : Program interface α}
    {post : α → Store ι → Prop}
    (lasting : ∀ value, Lasting calls actor (post value))
    (triple : Program.Triple (exec repoType calls actor)
      (Sound sha256 repoType calls) (Rely calls actor)
      (Guarantee calls actor) pre program post) :
    Acts sha256 repoType calls actor pre (Program.always program) failed
      post :=
  Program.Triple.bind (Rely.refl calls actor) triple fun value =>
    Program.triple_done (lasting value) fun _ _ holds => holds

theorem acts_check
    {pre failed : Store ι → Prop}
    {outcome : Except ArchiveError α}
    (lasting : Lasting calls actor pre)
    (fails : ∀ store, Sound sha256 repoType calls store → pre store →
      failed store) :
    Acts sha256 repoType calls actor pre (Program.check outcome) failed
      fun value store => pre store ∧ outcome = .ok value := by
  refine Program.triple_done lasting ?_
  intro store sound holds
  cases outcome with
  | error error => exact fails store sound holds
  | ok value => exact ⟨holds, rfl⟩

/-- A step that changes nothing. -/
theorem triple_still
    {op : Op}
    {pre : Store ι → Prop}
    {post : op.Reply → Store ι → Prop}
    (lasting : Lasting calls actor pre)
    (lastingPost : ∀ reply, Lasting calls actor (post reply))
    (effect : ∀ before reply after,
      exec repoType calls actor op before reply after → pre before →
        after = before ∧ post reply before) :
    Program.Triple (exec repoType calls actor) (Sound sha256 repoType calls)
      (Rely calls actor) (Guarantee calls actor) pre (perform op) post := by
  apply Program.triple_perform lasting lastingPost
  intro before sound holds reply after issued
  obtain ⟨rfl, reached⟩ := effect before reply after issued holds
  exact ⟨sound, .refl .., reached⟩

theorem acts_syncRevisions
    {pre : Store ι → Prop}
    (lasting : Lasting calls actor pre) :
    Acts sha256 repoType calls actor pre
      (Program.attempt (perform .syncRevisions)) pre fun _ => pre := by
  have still : Program.Triple (exec repoType calls actor)
      (Sound sha256 repoType calls) (Rely calls actor)
      (Guarantee calls actor) pre (perform .syncRevisions) fun _ => pre :=
    triple_still lasting (fun _ => lasting)
      fun _ _ _ issued holds => ⟨issued, holds⟩
  refine still.mono (fun _ _ => id) ?_
  intro reply _ _ holds
  cases reply <;> exact holds

end acts

end Operations
end ModelKeep
