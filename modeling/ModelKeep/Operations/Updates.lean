import ModelKeep.Operations.Contract

/-!
# An update among other calls

The temporary file is where the update left it, whatever the other calls do,
and the commit stays where it is.  The rename is the only step by which a ref
comes into place.
-/

namespace ModelKeep
namespace Operations

open Concurrency Program

variable {ι : Type} {sha256 : Bytes → String} {repoType : RepositoryType}
  {calls : ι → Call} {actor : ι}

/-! ## Steps on the refs -/

/-- A step that changes only the entries in `refs` that belong to the call. -/
structure RefMove (calls : ι → Call) (actor : ι) (before after : Store ι) :
    Prop where
  revisions : after.dir.revisions = before.dir.revisions
  lock : after.lock = before.lock
  part : after.part = before.part
  placed : after.placed = before.placed
  removing : after.removing = before.removing
  others : ∀ other, other ≠ actor →
    after.drawn other = before.drawn other ∧
      after.temporary other = before.temporary other
  drawn : after.drawn actor = before.drawn actor ∨
    ∃ id, after.drawn actor = some id ∧ Unused calls before actor id
  temporary : ∀ name, after.temporary actor = some name →
    after.Owns calls actor name
  nodes : ∀ name, after.dir.refNode name = before.dir.refNode name ∨
    after.Owns calls actor name ∨ (calls actor).reference = some name
  refs : ∀ name text, after.Placed name text → before.Placed name text ∨
    (calls actor).reference = some name ∧
      text = some (calls actor).commit ∧
      Archive.trim (calls actor).commit = (calls actor).commit ∧
      (before.dir.revision (calls actor).commit).isSome ∧
      before.Unharmed (calls actor).commit

namespace RefMove

variable {before after : Store ι}

theorem revision
    (move : RefMove calls actor before after)
    (commit : String) :
    after.dir.revision commit = before.dir.revision commit := by
  unfold RepositoryDir.revision
  rw [move.revisions]

theorem shared
    (move : RefMove calls actor before after)
    (commit : String)
    (revision : RevisionDir) :
    after.shared commit revision = before.shared commit revision := by
  unfold Store.shared
  rw [move.lock, move.part, move.placed]

theorem unharmed
    (move : RefMove calls actor before after)
    (commit : String) :
    after.Unharmed commit ↔ before.Unharmed commit := by
  unfold Store.Unharmed
  rw [move.removing]

/-- Names made with the id that the call has drawn are nobody else's. -/
theorem owns
    (move : RefMove calls actor before after)
    (sound : Sound sha256 repoType calls before)
    {name : String}
    (owns : after.Owns calls actor name) :
    (∀ other, other ≠ actor → ¬before.Owns calls other name) ∧
      ∀ other, (calls other).reference ≠ some name := by
  obtain ⟨reference, id, asked, drawn, rfl⟩ := owns
  rcases move.drawn with same | ⟨fresh, drawnToo, unused⟩
  · have older : before.Owns calls actor
        (Refs.temporaryName reference id) :=
      ⟨reference, id, asked, same.symm.trans drawn, rfl⟩
    exact ⟨fun other different =>
      sound.distinct actor other _ different.symm older,
      fun other => sound.unasked actor other _ older⟩
  · rw [drawn] at drawnToo
    cases drawnToo
    obtain ⟨_, apart, unasked⟩ := unused reference
    refine ⟨?_, unasked⟩
    rintro other different ⟨referenceToo, idToo, _, drawnOther, same⟩
    exact apart other idToo different drawnOther referenceToo same

theorem distinct
    (move : RefMove calls actor before after)
    (sound : Sound sha256 repoType calls before)
    (one other : ι)
    (name : String)
    (different : one ≠ other)
    (ownsOne : after.Owns calls one name) :
    ¬after.Owns calls other name := by
  intro ownsOther
  have older : ∀ {third}, third ≠ actor → after.Owns calls third name →
      before.Owns calls third name :=
    fun apart owned => owned.congr (move.others _ apart).1.symm
  by_cases first : one = actor
  · subst first
    exact (move.owns sound ownsOne).1 other different.symm
      (older different.symm ownsOther)
  · by_cases second : other = actor
    · subst second
      exact (move.owns sound ownsOther).1 one first (older first ownsOne)
    · exact sound.distinct one other name different (older first ownsOne)
        (older second ownsOther)

theorem sound
    (move : RefMove calls actor before after)
    (sound : Sound sha256 repoType calls before) :
    Sound sha256 repoType calls after where
  asked := by
    rw [move.placed]
    exact sound.asked
  revisions := by
    intro commit revision found unharmed
    rw [move.revision] at found
    rw [move.shared]
    exact sound.revisions commit revision found
      ((move.unharmed commit).mp unharmed)
  refs := by
    intro name text inPlace
    rcases move.refs name text inPlace with
      older | ⟨_, rfl, plain, stands, unharmed⟩
    · obtain ⟨found, same, stands, unharmed⟩ := sound.refs name text older
      refine ⟨found, same, ?_, (move.unharmed _).mpr unharmed⟩
      rw [move.revision]
      exact stands
    · refine ⟨_, rfl, ?_⟩
      rw [plain, move.revision, move.unharmed]
      exact ⟨stands, unharmed⟩
  removals := by
    rw [move.removing]
    exact sound.removals
  temporaries := by
    intro other name named
    by_cases same : other = actor
    · subst same
      exact move.temporary name named
    · obtain ⟨drawn, temporary⟩ := move.others other same
      rw [temporary] at named
      exact (sound.temporaries other name named).congr drawn
  distinct := move.distinct sound
  unasked := by
    intro one other name owns
    by_cases same : one = actor
    · subst same
      exact (move.owns sound owns).2 other
    · exact sound.unasked one other name
        (owns.congr (move.others one same).1.symm)

theorem guarantee
    (move : RefMove calls actor before after)
    (sound : Sound sha256 repoType calls before) :
    Guarantee calls actor before after where
  others := by
    intro other different
    rw [move.removing, move.part, move.placed]
    exact ⟨(move.others other different).1, (move.others other different).2,
      rfl, rfl, rfl⟩
  owned := by
    intro other name different owns
    rcases move.nodes name with same | mine | asked
    · exact same
    · exact absurd owns ((move.owns sound mine).1 other different)
    · exact absurd asked (sound.unasked other actor name owns)
  refs := by
    intro name text inPlace
    rcases move.refs name text inPlace with older | ⟨asked, same, plain, _⟩
    · exact Or.inl older
    · exact Or.inr ⟨asked, same, plain⟩
  apart := fun commit _ => ⟨move.revision commit, by rw [move.lock]⟩
  grows := by
    intro _ revision found
    refine ⟨revision, by rw [move.revision]; exact found, ?_⟩
    rw [move.shared]
    exact .refl ..
  shrinks := by
    intro _ left found
    rw [move.revision] at found
    exact ⟨left, found, .refl left⟩

end RefMove

/-! ## The update -/

section update

variable [DecidableEq ι] {repoId reference commit : String}

/-- The temporary file of the update holds this, if it is there, and the
commit stands. -/
structure Underway (calls : ι → Call) (actor : ι) (temporary commit : String)
    (text : Option String) (store : Store ι) : Prop where
  owns : store.Owns calls actor temporary
  held : store.temporary actor = text.map fun _ => temporary
  node : store.dir.refNode temporary =
    text.map fun text => .file (some text)
  stands : (store.dir.revision commit).isSome
  unharmed : store.Unharmed commit

/-- Nothing has been drawn yet. -/
structure Waiting (actor : ι) (commit : String) (store : Store ι) :
    Prop where
  drawn : store.drawn actor = none
  temporary : store.temporary actor = none
  unharmed : store.Unharmed commit

omit [DecidableEq ι] in
theorem isSome_of_rely
    {before after : Store ι}
    (kind : (calls actor).isRemoval = false)
    (relied : Rely calls actor before after)
    (stands : (before.dir.revision (calls actor).commit).isSome) :
    (after.dir.revision (calls actor).commit).isSome := by
  obtain ⟨revision, found⟩ := Option.isSome_iff_exists.mp stands
  obtain ⟨grown, foundNow, _⟩ := relied.stands kind revision found
  rw [foundNow]
  rfl

variable (update : calls actor = .updateRef repoId reference commit)

include update

omit [DecidableEq ι] in
theorem lasting_waiting :
    Lasting calls actor (Waiting actor commit : Store ι → Prop) := by
  intro before after relied waiting
  refine ⟨relied.drawn.trans waiting.drawn,
    relied.temporary.trans waiting.temporary, ?_⟩
  have unharmed := relied.unharmed (by rw [update]; rfl)
  rw [update] at unharmed
  exact unharmed waiting.unharmed

omit [DecidableEq ι] in
theorem lasting_underway
    (temporary : String)
    (text : Option String) :
    Lasting calls actor
      (Underway calls actor temporary commit text : Store ι → Prop) := by
  intro before after relied underway
  have kind : (calls actor).isRemoval = false := by
    rw [update]
    rfl
  have stands := isSome_of_rely kind relied
  have unharmed := relied.unharmed kind
  rw [update] at stands unharmed
  exact ⟨underway.owns.congr relied.drawn,
    relied.temporary.trans underway.held,
    (relied.owned temporary underway.owns).trans underway.node,
    stands underway.stands, unharmed underway.unharmed⟩

omit [DecidableEq ι] in
/-- The call is over as soon as the temporary file is gone. -/
theorem finished_of_temporary
    {store : Store ι}
    (sound : Sound sha256 repoType calls store)
    (gone : store.temporary actor = none) :
    Finished actor store := by
  refine ⟨gone, ?_⟩
  cases removing : store.removing actor with
  | none => rfl
  | some other =>
      have removes := (sound.removals actor other removing).1
      rw [update] at removes
      cases removes

/-- A step of an update, before its temporary file is there. -/
theorem quietMove
    {op : Refs.Op}
    {before after : Store ι}
    {reply : op.Reply}
    (issued : execRef calls actor op before reply after)
    (entries : SameEntries after.dir before.dir)
    (gone : before.temporary actor = none)
    (still : after.temporary actor = none) :
    RefMove calls actor before after := by
  obtain ⟨_, unused, same⟩ := issued
  have others : ∀ other, other ≠ actor →
      after.drawn other = before.drawn other ∧
        after.temporary other = before.temporary other := by
    intro other different
    rw [same]
    exact ⟨Function.update_of_ne different ..,
      Function.update_of_ne different ..⟩
  refine ⟨entries.revisions, by rw [same], by rw [same], by rw [same],
    by rw [same], others, ?_, ?_, ?_, ?_⟩
  · cases drew : drawnAfter none op reply with
    | none =>
        left
        rw [same]
        dsimp only
        rw [Function.update_self]
        cases op <;> first | rfl | cases drew
    | some id =>
        right
        refine ⟨id, ?_, unused id drew⟩
        rw [same]
        dsimp only
        rw [Function.update_self]
        cases op <;> first | exact drew | cases drew
  · intro name named
    rw [still] at named
    cases named
  · intro name
    rw [entries.refNode]
    exact Or.inl rfl
  · rintro name text ⟨node, notTemporary⟩
    left
    refine ⟨by rw [← entries.refNode]; exact node, ?_⟩
    intro other named
    by_cases self : other = actor
    · subst self
      rw [gone] at named
      cases named
    · rw [← (others other self).2] at named
      exact notTemporary other named

/-- A step of an update that has drawn its id. -/
theorem underwayMove
    {op : Refs.Op}
    {before after : Store ι}
    {reply : op.Reply}
    {temporary : String}
    {text textAfter : Option String}
    (valid : validateRevision commit = .ok ())
    (issued : execRef calls actor op before reply after)
    (underway : Underway calls actor temporary commit text before)
    (drawn : drawnAfter (before.drawn actor) op reply = before.drawn actor)
    (revisions : after.dir.revisions = before.dir.revisions)
    (held : after.temporary actor = textAfter.map fun _ => temporary)
    (node : after.dir.refNode temporary =
      textAfter.map fun text => .file (some text))
    (nodes : ∀ name, name ≠ temporary →
      after.dir.refNode name = before.dir.refNode name ∨
        name = reference ∧
          after.dir.refNode name = some (.file (some commit))) :
    RefMove calls actor before after ∧
      Underway calls actor temporary commit textAfter after := by
  obtain ⟨_, _, same⟩ := issued
  have others : ∀ other, other ≠ actor →
      after.drawn other = before.drawn other ∧
        after.temporary other = before.temporary other := by
    intro other different
    rw [same]
    exact ⟨Function.update_of_ne different ..,
      Function.update_of_ne different ..⟩
  have drawnSame : after.drawn actor = before.drawn actor := by
    rw [same]
    dsimp only
    rw [Function.update_self, drawn]
  have owns := underway.owns.congr drawnSame
  have removing : after.removing = before.removing := by rw [same]
  have stands : ∀ other, after.dir.revision other =
      before.dir.revision other := by
    intro other
    unfold RepositoryDir.revision
    rw [revisions]
  refine ⟨⟨revisions, by rw [same], by rw [same], by rw [same],
    removing, others, Or.inl drawnSame, ?_, ?_, ?_⟩, owns, held, node,
    by rw [stands]; exact underway.stands,
    by unfold Store.Unharmed; rw [removing]; exact underway.unharmed⟩
  · intro name named
    rw [held] at named
    cases textAfter with
    | none => cases named
    | some text =>
        cases named
        exact owns
  · intro name
    by_cases mine : name = temporary
    · subst mine
      exact Or.inr (Or.inl owns)
    · rcases nodes name mine with kept | ⟨rfl, _⟩
      · exact Or.inl kept
      · rw [update]
        exact Or.inr (Or.inr rfl)
  · rintro name found ⟨there, notTemporary⟩
    by_cases mine : name = temporary
    · subst mine
      rw [node] at there
      cases textAfter with
      | none => cases there
      | some text => exact absurd held (notTemporary actor)
    rcases nodes name mine with kept | ⟨rfl, put⟩
    · left
      refine ⟨kept.symm.trans there, ?_⟩
      intro other named
      by_cases self : other = actor
      · subst self
        rw [underway.held] at named
        cases text with
        | none => cases named
        | some text =>
            cases named
            exact mine rfl
      · rw [← (others other self).2] at named
        exact notTemporary other named
    · right
      rw [put] at there
      cases there
      rw [update]
      exact ⟨rfl, rfl, Archive.trim_revision valid, underway.stands,
        underway.unharmed⟩

omit update in
theorem execRef_temporary
    {op : Refs.Op}
    {before after : Store ι}
    {reply : op.Reply}
    (issued : execRef calls actor op before reply after) :
    after.temporary actor =
      temporaryAfter (before.temporary actor) op reply := by
  rw [issued.2.2]
  exact Function.update_self ..

/-- A step that leaves the refs as they are. -/
theorem Underway.kept
    {op : Refs.Op}
    {before after : Store ι}
    {reply : op.Reply}
    {temporary : String}
    {text : Option String}
    (underway : Underway calls actor temporary commit text before)
    (valid : validateRevision commit = .ok ())
    (issued : execRef calls actor op before reply after)
    (drawn : drawnAfter (before.drawn actor) op reply = before.drawn actor)
    (still : temporaryAfter (before.temporary actor) op reply =
      before.temporary actor)
    (same : after.dir = before.dir) :
    RefMove calls actor before after ∧
      Underway calls actor temporary commit text after := by
  apply underwayMove update valid issued underway drawn
  · rw [same]
  · rw [execRef_temporary issued, still, underway.held]
  · rw [same, underway.node]
  · intro name _
    exact Or.inl (by rw [same])

/-! ## The program of an update -/

/-- A part of an update run by one call among the others. -/
abbrev Updates {α : Type}
    (sha256 : Bytes → String)
    (repoType : RepositoryType)
    (calls : ι → Call)
    (actor : ι)
    (pre : Store ι → Prop)
    (action : Refs.Action α)
    (failed : Store ι → Prop)
    (succeeded : α → Store ι → Prop) :
    Prop :=
  Program.Triple (execRef calls actor) (Sound sha256 repoType calls)
    (Rely calls actor) (Guarantee calls actor) pre action.run
    (Outcome failed succeeded)

omit update in
theorem updates_bind
    {α β : Type}
    {pre failed : Store ι → Prop}
    {action : Refs.Action α}
    (middle : α → Store ι → Prop)
    {rest : α → Refs.Action β}
    {post : β → Store ι → Prop}
    (lastingFailed : Lasting calls actor failed)
    (first : Updates sha256 repoType calls actor pre action failed middle)
    (second : ∀ value, Updates sha256 repoType calls actor (middle value)
      (rest value) failed post) :
    Updates sha256 repoType calls actor pre (action >>= rest) failed post :=
  Triple.exceptBind (Rely.refl calls actor) lastingFailed first second

omit update in
theorem updates_always
    {α : Type}
    {pre failed : Store ι → Prop}
    {program : Program Refs.interface α}
    {post : α → Store ι → Prop}
    (lasting : ∀ value, Lasting calls actor (post value))
    (triple : Program.Triple (execRef calls actor)
      (Sound sha256 repoType calls) (Rely calls actor)
      (Guarantee calls actor) pre program post) :
    Updates sha256 repoType calls actor pre (always program) failed post :=
  Triple.bind (Rely.refl calls actor) triple fun value =>
    triple_done (lasting value) fun _ _ holds => holds

omit update in
/-- One step on the refs. -/
theorem triple_move
    {op : Refs.Op}
    {pre : Store ι → Prop}
    {post : op.Reply → Store ι → Prop}
    (lasting : Lasting calls actor pre)
    (lastingPost : ∀ reply, Lasting calls actor (post reply))
    (effect : ∀ before reply after, Sound sha256 repoType calls before →
      pre before → execRef calls actor op before reply after →
        RefMove calls actor before after ∧ post reply after) :
    Program.Triple (execRef calls actor) (Sound sha256 repoType calls)
      (Rely calls actor) (Guarantee calls actor) pre (Refs.perform op)
      post := by
  apply triple_perform lasting lastingPost
  intro before sound holds reply after issued
  obtain ⟨move, reached⟩ := effect before reply after sound holds issued
  exact ⟨move.sound sound, move.guarantee sound, reached⟩

/-- However far the temporary file has come. -/
abbrev Somewhere (calls : ι → Call) (actor : ι) (temporary commit : String)
    (store : Store ι) : Prop :=
  ∃ text, Underway calls actor temporary commit text store

omit [DecidableEq ι] in
theorem lasting_somewhere (temporary : String) :
    Lasting calls actor
      (Somewhere calls actor temporary commit : Store ι → Prop) := by
  rintro before after relied ⟨text, underway⟩
  exact ⟨text,
    lasting_underway update temporary text before after relied underway⟩

omit [DecidableEq ι] in
theorem lasting_outcome
    {α : Type}
    {temporary : String}
    {succeeded : α → Store ι → Prop}
    (lasting : ∀ value, Lasting calls actor (succeeded value))
    (outcome : Except ArchiveError α) :
    Lasting calls actor
      (Outcome (Somewhere calls actor temporary commit) succeeded
        outcome) := by
  cases outcome with
  | error error => exact lasting_somewhere update temporary
  | ok value => exact lasting value

section steps

variable (valid : validateRevision commit = .ok ()) (temporary : String)

include valid

theorem updates_createNew :
    Updates sha256 repoType calls actor
      (Underway calls actor temporary commit none)
      (attempt (Refs.perform (.createNew temporary)))
      (Somewhere calls actor temporary commit)
      fun _ => Underway calls actor temporary commit (some "") := by
  refine triple_move (lasting_underway update _ _)
    (lasting_outcome update fun _ => lasting_underway update _ _) ?_
  intro before reply after _ underway issued
  have refused : ∀ error, reply = .error error →
      after.dir = before.dir →
        RefMove calls actor before after ∧
          Outcome (Somewhere calls actor temporary commit)
            (fun _ => Underway calls actor temporary commit (some "")) reply
            after := by
    rintro error rfl same
    obtain ⟨move, kept⟩ := underway.kept update valid issued rfl rfl same
    exact ⟨move, none, kept⟩
  rcases issued.1 with succeeds | ⟨_, ⟨error, failed⟩, same⟩
  · simp only [Refs.Succeeds, underway.node, Option.map_none] at succeeds
    obtain ⟨rfl, revisions, refNode⟩ := succeeds
    apply underwayMove update valid issued underway rfl revisions
    · exact execRef_temporary issued
    · rw [refNode]
      exact Function.update_self ..
    · intro name different
      rw [refNode]
      exact Or.inl (Function.update_of_ne different ..)
  · exact refused error failed same

/-- One more character is written. -/
theorem updates_write
    (text : String)
    (character : Char) :
    Updates sha256 repoType calls actor
      (Underway calls actor temporary commit (some text))
      (attempt (Refs.perform (.write temporary character)))
      (Somewhere calls actor temporary commit)
      fun _ => Underway calls actor temporary commit
        (some (text.push character)) := by
  refine triple_move (lasting_underway update _ _)
    (lasting_outcome update fun _ => lasting_underway update _ _) ?_
  intro before reply after _ underway issued
  rcases issued.1 with succeeds | ⟨_, ⟨error, rfl⟩, same⟩
  · simp only [Refs.Succeeds, underway.node, Option.map_some] at succeeds
    obtain ⟨rfl, revisions, refNode⟩ := succeeds
    apply underwayMove update valid issued underway rfl revisions
    · exact (execRef_temporary issued).trans underway.held
    · rw [refNode]
      exact Function.update_self ..
    · intro name different
      rw [refNode]
      exact Or.inl (Function.update_of_ne different ..)
  · obtain ⟨move, kept⟩ := underway.kept update valid issued rfl rfl same
    exact ⟨move, some text, kept⟩

theorem updates_writeAll
    (characters : List Char)
    (text : String) :
    Updates sha256 repoType calls actor
      (Underway calls actor temporary commit (some text))
      (Refs.writeAll temporary characters)
      (Somewhere calls actor temporary commit)
      fun _ => Underway calls actor temporary commit
        (some (String.ofList (text.toList ++ characters))) := by
  induction characters generalizing text with
  | nil =>
      rw [List.append_nil, String.ofList_toList]
      exact triple_done (lasting_underway update _ _)
        fun _ _ underway => underway
  | cons character rest inductionHypothesis =>
      rw [Refs.writeAll]
      refine updates_bind _ (lasting_somewhere update temporary)
        (updates_write update valid temporary text character) fun _ => ?_
      have longer := inductionHypothesis (text.push character)
      rwa [String.toList_push, List.append_assoc] at longer

/-- A step that leaves everything as it is. -/
theorem triple_quiet
    {op : Refs.Op}
    (text : Option String)
    (quiet : ∀ before reply after,
      execRef calls actor op before reply after →
        after.dir = before.dir ∧
          drawnAfter (before.drawn actor) op reply = before.drawn actor ∧
          temporaryAfter (before.temporary actor) op reply =
            before.temporary actor) :
    Program.Triple (execRef calls actor) (Sound sha256 repoType calls)
      (Rely calls actor) (Guarantee calls actor)
      (Underway calls actor temporary commit text) (Refs.perform op)
      fun _ => Underway calls actor temporary commit text := by
  apply triple_move (lasting_underway update _ _)
    fun _ => lasting_underway update _ _
  intro before reply after _ underway issued
  obtain ⟨same, drawn, still⟩ := quiet before reply after issued
  exact underway.kept update valid issued drawn still same

theorem updates_sync
    (text : Option String) :
    Updates sha256 repoType calls actor
      (Underway calls actor temporary commit text)
      (attempt (Refs.perform (.sync temporary)))
      (Somewhere calls actor temporary commit)
      fun _ => Underway calls actor temporary commit text := by
  refine (triple_quiet update valid temporary text ?_).mono
    (fun _ _ => id) ?_
  · intro before reply after issued
    refine ⟨?_, rfl, rfl⟩
    rcases issued.1 with ⟨_, same⟩ | ⟨_, _, same⟩
    · exact same
    · exact same
  · intro reply state _ underway
    cases reply with
    | error error => exact ⟨text, underway⟩
    | ok _ => exact underway

theorem updates_syncDirectory
    (text : Option String) :
    Updates sha256 repoType calls actor
      (Underway calls actor temporary commit text)
      (attempt (Refs.perform .syncDirectory))
      (Somewhere calls actor temporary commit)
      fun _ => Underway calls actor temporary commit text := by
  refine (triple_quiet update valid temporary text ?_).mono
    (fun _ _ => id) ?_
  · intro before reply after issued
    refine ⟨?_, rfl, rfl⟩
    rcases issued.1 with ⟨_, same⟩ | ⟨_, _, same⟩
    · exact same
    · exact same
  · intro reply state _ underway
    cases reply with
    | error error => exact ⟨text, underway⟩
    | ok _ => exact underway

/-- The whole file becomes the ref. -/
theorem updates_rename
    (different : temporary ≠ reference) :
    Updates sha256 repoType calls actor
      (Underway calls actor temporary commit (some commit))
      (attempt (Refs.perform (.rename temporary reference)))
      (Somewhere calls actor temporary commit)
      fun _ => Underway calls actor temporary commit none := by
  refine triple_move (lasting_underway update _ _)
    (lasting_outcome update fun _ => lasting_underway update _ _) ?_
  intro before reply after _ underway issued
  have refused : ∀ error, reply = .error error → after.dir = before.dir →
      RefMove calls actor before after ∧
        Outcome (Somewhere calls actor temporary commit)
          (fun _ => Underway calls actor temporary commit none) reply
          after := by
    rintro error rfl same
    obtain ⟨move, kept⟩ := underway.kept update valid issued rfl rfl same
    exact ⟨move, some commit, kept⟩
  rcases issued.1 with succeeds | ⟨_, ⟨error, failed⟩, same⟩
  · simp only [Refs.Succeeds, underway.node, Option.map_some] at succeeds
    split at succeeds
    · next absent => cases absent
    · exact refused _ succeeds.1 succeeds.2
    · next node _ same _ =>
        cases same
        obtain ⟨rfl, revisions, refNode⟩ := succeeds
        apply underwayMove update valid issued underway rfl revisions
        · exact execRef_temporary issued
        · rw [refNode, Function.update_of_ne different, Function.update_self]
          rfl
        · intro name other
          rw [refNode]
          by_cases same : name = reference
          · subst same
            exact Or.inr ⟨rfl, Function.update_self ..⟩
          · rw [Function.update_of_ne same, Function.update_of_ne other]
            exact Or.inl rfl
  · exact refused error failed same

/-- Whatever is left of the temporary file is removed. -/
theorem triple_removeFile
    (text : Option String) :
    Program.Triple (execRef calls actor) (Sound sha256 repoType calls)
      (Rely calls actor) (Guarantee calls actor)
      (Underway calls actor temporary commit text)
      (Refs.perform (.removeFile temporary))
      fun _ => Underway calls actor temporary commit none := by
  apply triple_move (lasting_underway update _ _)
    fun _ => lasting_underway update _ _
  intro before reply after _ underway issued
  rcases issued.1 with succeeds | ⟨allowed, _⟩
  · cases text with
    | none =>
        simp only [Refs.Succeeds, underway.node, Option.map_none] at succeeds
        obtain ⟨rfl, same⟩ := succeeds
        exact underway.kept update valid issued rfl rfl same
    | some text =>
        simp only [Refs.Succeeds, underway.node, Option.map_some] at succeeds
        obtain ⟨rfl, revisions, refNode⟩ := succeeds
        apply underwayMove update valid issued underway rfl revisions
        · exact execRef_temporary issued
        · rw [refNode]
          exact Function.update_self ..
        · intro name different
          rw [refNode]
          exact Or.inl (Function.update_of_ne different ..)
  · exact absurd rfl (allowed temporary)

theorem updates_replaceRef
    (different : temporary ≠ reference) :
    Updates sha256 repoType calls actor
      (Underway calls actor temporary commit none)
      (Refs.replaceRef temporary reference commit)
      (Somewhere calls actor temporary commit)
      fun _ => Underway calls actor temporary commit none := by
  have failed : Lasting calls actor
      (Somewhere calls actor temporary commit : Store ι → Prop) :=
    lasting_somewhere update temporary
  unfold Refs.replaceRef
  refine updates_bind _ failed
    (updates_createNew update valid temporary) fun _ => ?_
  refine updates_bind _ failed
    (updates_writeAll update valid temporary commit.toList "") fun _ => ?_
  have whole : String.ofList ("".toList ++ commit.toList) = commit := by simp
  rw [whole]
  refine updates_bind _ failed
    (updates_sync update valid temporary (some commit)) fun _ => ?_
  refine updates_bind _ failed
    (updates_rename update valid temporary different) fun _ => ?_
  exact updates_syncDirectory update valid temporary none

/-- Nothing is left of the temporary file, whatever came of it. -/
theorem updates_replaceOrCleanUp
    (different : temporary ≠ reference) :
    Updates sha256 repoType calls actor
      (Underway calls actor temporary commit none)
      (Refs.replaceOrCleanUp temporary reference commit)
      (Finished actor) fun _ => Finished actor := by
  have finishes : ∀ state, Sound sha256 repoType calls state →
      Underway calls actor temporary commit none state →
        Finished actor state :=
    fun _ sound underway => finished_of_temporary update sound underway.held
  unfold Refs.replaceOrCleanUp
  refine updates_bind (Outcome (Somewhere calls actor temporary commit)
    fun _ => Underway calls actor temporary commit none) lasting_finished
    ?_ fun outcome => ?_
  · exact updates_always
      (lasting_outcome update fun _ => lasting_underway update _ _)
      (updates_replaceRef update valid temporary different)
  cases outcome with
  | ok _ => exact triple_done (lasting_underway update _ _) finishes
  | error error =>
      refine updates_bind
        (fun _ => Underway calls actor temporary commit none)
        lasting_finished ?_
        fun _ => triple_done (lasting_underway update _ _) finishes
      apply updates_always fun _ => lasting_underway update _ _
      rintro start sound ⟨text, underway⟩
      exact triple_removeFile update valid temporary text start sound underway

end steps

/-- The commit has been found. -/
structure Ready (actor : ι) (commit : String) (store : Store ι) : Prop
    extends Waiting actor commit store where
  stands : (store.dir.revision commit).isSome

omit [DecidableEq ι] in
theorem lasting_ready :
    Lasting calls actor (Ready actor commit : Store ι → Prop) := by
  intro before after relied ready
  have stands := isSome_of_rely (by rw [update]; rfl) relied
  rw [update] at stands
  exact ⟨lasting_waiting update before after relied ready.toWaiting,
    stands ready.stands⟩

/-- A step before the id is drawn. -/
theorem Waiting.kept
    {op : Refs.Op}
    {before after : Store ι}
    {reply : op.Reply}
    (waiting : Waiting actor commit before)
    (issued : execRef calls actor op before reply after)
    (entries : SameEntries after.dir before.dir)
    (drawn : drawnAfter (before.drawn actor) op reply = before.drawn actor)
    (still : temporaryAfter (before.temporary actor) op reply =
      before.temporary actor) :
    RefMove calls actor before after ∧ Waiting actor commit after := by
  have gone : after.temporary actor = none := by
    rw [execRef_temporary issued, still, waiting.temporary]
  have move := quietMove update issued entries waiting.temporary gone
  refine ⟨move, ?_, gone, (move.unharmed commit).mpr waiting.unharmed⟩
  rw [issued.2.2]
  dsimp only
  rw [Function.update_self, drawn, waiting.drawn]

/-- Whether the commit is there decides whether the update goes on. -/
theorem updates_isDir
    {failed : Store ι → Prop} :
    Updates sha256 repoType calls actor (Waiting actor commit)
      (always (Refs.perform (.isDir commit))) failed
      fun isDir store => Waiting actor commit store ∧
        (isDir = true → Ready actor commit store) := by
  have lasting : ∀ isDir : Bool, Lasting calls actor fun store : Store ι =>
      Waiting actor commit store ∧
        (isDir = true → Ready actor commit store) := by
    rintro isDir before after relied ⟨waiting, ready⟩
    exact ⟨lasting_waiting update before after relied waiting,
      fun found => lasting_ready update before after relied (ready found)⟩
  apply updates_always lasting
  apply triple_move (lasting_waiting update) lasting
  intro before reply after _ waiting issued
  have same : after.dir = before.dir ∧
      (reply = true → (before.dir.revision commit).isSome) := by
    rcases issued.1 with ⟨rfl, same⟩ | ⟨_, rfl, same⟩
    · exact ⟨same, id⟩
    · exact ⟨same, nofun⟩
  obtain ⟨move, kept⟩ := waiting.kept update issued
    (Refs.sameEntries_of_eq same.1) rfl rfl
  refine ⟨move, kept, fun found => ⟨kept, ?_⟩⟩
  rw [same.1]
  exact same.2 found

theorem updates_createDirAll :
    Updates sha256 repoType calls actor (Ready actor commit)
      (attempt (Refs.perform .createDirAll)) (Finished actor)
      fun _ => Ready actor commit := by
  have kept : Program.Triple (execRef calls actor)
      (Sound sha256 repoType calls) (Rely calls actor)
      (Guarantee calls actor) (Ready actor commit)
      (Refs.perform .createDirAll) fun _ => Ready actor commit := by
    apply triple_move (lasting_ready update) fun _ => lasting_ready update
    intro before reply after _ ready issued
    have entries : SameEntries after.dir before.dir := by
      rcases issued.1 with ⟨_, same⟩ | ⟨_, _, same⟩
      · exact same
      · exact Refs.sameEntries_of_eq same
    obtain ⟨move, waiting⟩ := ready.toWaiting.kept update issued entries rfl
      rfl
    refine ⟨move, waiting, ?_⟩
    rw [move.revision]
    exact ready.stands
  refine kept.mono (fun _ _ => id) ?_
  intro reply store sound ready
  cases reply with
  | error error => exact finished_of_temporary update sound ready.temporary
  | ok _ => exact ready

/-- The operation id is drawn, and the temporary file has its name. -/
theorem updates_operationId
    {failed : Store ι → Prop} :
    Updates sha256 repoType calls actor (Ready actor commit)
      (always (Refs.perform .operationId)) failed fun id =>
        Underway calls actor (Refs.temporaryName reference id) commit
          none := by
  apply updates_always fun _ => lasting_underway update _ _
  apply triple_move (lasting_ready update)
    fun _ => lasting_underway update _ _
  intro before id after _ ready issued
  have same : after.dir = before.dir := by
    rcases issued.1 with ⟨_, same⟩ | ⟨_, impossible⟩
    · exact same
    · exact impossible.elim
  have gone : after.temporary actor = none := by
    rw [execRef_temporary issued]
    exact ready.temporary
  have move := quietMove update issued (Refs.sameEntries_of_eq same)
    ready.temporary gone
  refine ⟨move, ⟨reference, id, by rw [update]; rfl, ?_, rfl⟩, gone, ?_, ?_,
    (move.unharmed commit).mpr ready.unharmed⟩
  · rw [issued.2.2]
    exact Function.update_self ..
  · rw [same]
    exact (issued.2.1 id rfl reference).1
  · rw [same]
    exact ready.stands

/-- A whole update, from before it has drawn its operation id. -/
theorem updates_updateRef :
    Updates sha256 repoType calls actor (Waiting actor commit)
      (Refs.updateRef repoId reference commit)
      (Finished actor) fun _ => Finished actor := by
  have finishes : ∀ store, Sound sha256 repoType calls store →
      Waiting actor commit store → Finished actor store :=
    fun _ sound waiting =>
      finished_of_temporary update sound waiting.temporary
  have checks : ∀ {α : Type} (outcome : Except ArchiveError α),
      Updates sha256 repoType calls actor (Waiting actor commit)
        (check outcome) (Finished actor) fun value store =>
          Waiting actor commit store ∧ outcome = .ok value := by
    intro α outcome
    refine triple_done (lasting_waiting update) ?_
    intro store sound waiting
    cases outcome with
    | error error => exact finishes store sound waiting
    | ok value => exact ⟨waiting, rfl⟩
  unfold Refs.updateRef
  refine updates_bind _ lasting_finished (checks _) fun _ => ?_
  refine triple_of_fact fun _ => ?_
  refine updates_bind _ lasting_finished (checks _) fun _ => ?_
  refine triple_of_fact fun _ => ?_
  refine updates_bind _ lasting_finished (checks _) fun _ => ?_
  refine triple_of_fact fun valid => ?_
  refine updates_bind _ lasting_finished (updates_isDir update)
    fun isDir => ?_
  cases isDir with
  | false =>
      refine triple_done (fun before after relied holds => ?_) ?_
      · exact ⟨lasting_waiting update before after relied holds.1, nofun⟩
      · exact fun store sound holds => finishes store sound holds.1
  | true =>
      intro start sound found
      refine updates_bind _ lasting_finished (updates_createDirAll update)
        (fun _ => ?_) start sound (found.2 rfl)
      refine updates_bind _ lasting_finished (updates_operationId update)
        fun id => ?_
      exact updates_replaceOrCleanUp update valid _
        (Refs.temporaryName_ne reference id)

omit update in
/-- The steps of an update are steps on the repository. -/
theorem ref_respects
    (sha256 : Bytes → String)
    (repoType : RepositoryType)
    (calls : ι → Call)
    (actor : ι) :
    Respects refSteps (execRef calls actor) (exec repoType calls actor)
      (fun store => store) (fun _ => True)
      (Sound sha256 repoType calls) (Sound sha256 repoType calls)
      (Rely calls actor) (Guarantee calls actor)
      (Rely calls actor) (Guarantee calls actor) where
  lives := fun _ _ _ relied => ⟨trivial, relied⟩
  holds := fun _ _ sound => sound
  step := fun _ _ _ _ _ _ issued => issued
  back := fun _ _ _ _ _ _ _ sound guarantee => ⟨trivial, sound, guarantee⟩

/-- An update among other calls. -/
theorem safe_updateRef
    {start : Store ι}
    (sound : Sound sha256 repoType calls start)
    (waiting : Waiting actor commit start) :
    ((calls actor).program sha256 repoType).Safe (exec repoType calls actor)
      (Sound sha256 repoType calls) (Rely calls actor)
      (Guarantee calls actor) (fun _ => Finished actor) start := by
  have safe := updates_updateRef update start sound waiting
  have whole := safe.embed (ref_respects sha256 repoType calls actor) trivial
  rw [update]
  refine whole.mono ?_
  rintro outcome store _ ⟨_, finished⟩
  cases outcome <;> exact finished

end update

end Operations
end ModelKeep
