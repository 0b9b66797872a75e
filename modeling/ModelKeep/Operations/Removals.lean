import ModelKeep.Operations.Contract

/-!
# A removal among other calls

While the refs are read no call that runs beside the removal makes a ref name
its commit, so that what has been read stays true until the revision is gone.
The entries of the revision go one by one, the ones below a directory first.
-/

namespace ModelKeep
namespace Operations

open Concurrency Program

variable {ι : Type} {sha256 : Bytes → String} {repoType : RepositoryType}
  {calls : ι → Call} {actor : ι} {repoId commit : String} {dryRun : Bool}

/-! ## Reading the refs -/

/-- Of the refs only these may name the commit, unless one has been found. -/
structure Scanning (actor : ι) (commit : String) (dryRun : Bool)
    (remaining references : List String) (store : Store ι) : Prop where
  removing : store.removing actor = none
  unread : dryRun = false → references = [] → ∀ name,
    store.Names name commit → name ∈ remaining

/-- The references, with one more if this text names the commit. -/
def withReference (commit name : String) (references : List String) :
    Option String → List String
  | some text =>
      if Archive.trim text = commit then references ++ [name] else references
  | none => references

theorem withReference_eq_nil
    {name : String}
    {references : List String}
    {text : Option String} :
    withReference commit name references text = [] ↔
      references = [] ∧ ∀ found, text = some found →
        Archive.trim found ≠ commit := by
  cases text with
  | none => simp [withReference]
  | some text =>
      by_cases names : Archive.trim text = commit
      · simp [withReference, names]
      · simp [withReference, names]

/-- The removal deletes, and only these entries can be left. -/
structure Deleting (actor : ι) (commit : String) (remaining : List Entry)
    (store : Store ι) : Prop where
  removing : store.removing actor = some commit
  left : ∀ revision, store.dir.revision commit = some revision →
    ∀ entry, revision.Has entry → entry ∈ remaining

/-- The entries that remain of a listing, each before the directory it is
in. -/
def Ordered (entries : List Entry) : Prop :=
  entries.Nodup ∧ entries.Pairwise fun earlier later =>
    ∀ above below, earlier = .node above → later = .node below →
      ¬above <+: below

theorem Ordered.tail
    {entry : Entry}
    {rest : List Entry}
    (ordered : Ordered (entry :: rest)) :
    Ordered rest :=
  ⟨(List.nodup_cons.mp ordered.1).2, (List.pairwise_cons.mp ordered.2).2⟩

/-- The first of the entries that are left can be removed. -/
theorem exists_removedEntry
    {revision : RevisionDir}
    {entry : Entry}
    {rest : List Entry}
    (ordered : Ordered (entry :: rest))
    (left : ∀ other, revision.Has other → other ∈ entry :: rest)
    (present : revision.Has entry) :
    ∃ after, revision.RemovedEntry entry after := by
  cases entry with
  | manifest => exact ⟨_, present, rfl⟩
  | upstreamFiles => exact ⟨_, present, rfl⟩
  | node path =>
      have leaf : revision.tree.Leaf path := by
        intro below member above
        have among := left (.node below) member
        rcases List.mem_cons.mp among with same | later
        · cases same
          rfl
        · exact absurd above
            ((List.pairwise_cons.mp ordered.2).1 _ later path below rfl rfl)
      obtain ⟨tree, removed⟩ := FileTree.exists_remove present leaf
      exact ⟨_, tree, removed, rfl⟩

/-- A removed entry is gone, and nothing new has come. -/
theorem has_of_removedEntry
    {revision after : RevisionDir}
    {entry other : Entry}
    (removed : revision.RemovedEntry entry after)
    (present : after.Has other) :
    revision.Has other ∧ other ≠ entry := by
  cases entry with
  | manifest =>
      obtain ⟨_, rfl⟩ := removed
      cases other with
      | manifest => exact absurd rfl present
      | upstreamFiles => exact ⟨present, nofun⟩
      | node path => exact ⟨present, nofun⟩
  | upstreamFiles =>
      obtain ⟨_, rfl⟩ := removed
      cases other with
      | manifest => exact ⟨present, nofun⟩
      | upstreamFiles => exact absurd rfl present
      | node path => exact ⟨present, nofun⟩
  | node path =>
      obtain ⟨tree, gone, rfl⟩ := removed
      cases other with
      | manifest => exact ⟨present, nofun⟩
      | upstreamFiles => exact ⟨present, nofun⟩
      | node below =>
          have stays : below ∈ tree.paths := present
          have looked := FileTree.lookup_remove gone below
          rw [FileTree.mem_paths_iff, looked] at stays
          by_cases same : below = path
          · simp [same] at stays
          · rw [if_neg same] at stays
            exact ⟨(revision.tree.mem_paths_iff below).mpr stays,
              fun alike => same (Entry.node.inj alike)⟩

section removal

variable [DecidableEq ι]
  (removal : calls actor = .remove repoId commit dryRun)

include removal

omit [DecidableEq ι] in
theorem lasting_scanning
    (remaining references : List String) :
    Lasting calls actor
      (Scanning actor commit dryRun remaining references :
        Store ι → Prop) := by
  intro before after relied scanning
  refine ⟨relied.removing.trans scanning.removing, ?_⟩
  intro deletes none name named
  have unnamed := relied.unnamed (by rw [removal, deletes]; rfl) name
  rw [removal] at unnamed
  exact scanning.unread deletes none name (unnamed named)

omit [DecidableEq ι] in
theorem lasting_deleting
    (deletes : dryRun = false)
    (remaining : List Entry) :
    Lasting calls actor
      (Deleting actor commit remaining : Store ι → Prop) := by
  intro before after relied deleting
  refine ⟨relied.removing.trans deleting.removing, ?_⟩
  intro revision found entry present
  have shrinks := relied.shrinks (by rw [removal, deletes]; rfl) revision
  rw [removal] at shrinks
  obtain ⟨whole, foundThen, within⟩ := shrinks found
  exact deleting.left whole foundThen entry (within entry present)

omit [DecidableEq ι] in
/-- A removal has no temporary file. -/
theorem finished_of_removing
    {store : Store ι}
    (sound : Sound sha256 repoType calls store)
    (ended : store.removing actor = none) :
    Finished actor store := by
  refine ⟨?_, ended⟩
  cases held : store.temporary actor with
  | none => rfl
  | some name =>
      obtain ⟨_, _, asked, _⟩ := sound.temporaries actor name held
      rw [removal] at asked
      cases asked

omit [DecidableEq ι] in
theorem Scanning.finished
    {remaining references : List String}
    {store : Store ι}
    (scanning : Scanning actor commit dryRun remaining references store)
    (sound : Sound sha256 repoType calls store) :
    Finished actor store :=
  finished_of_removing removal sound scanning.removing

/-- One entry of `refs` is read. -/
theorem acts_readRef
    (name : String)
    (rest references : List String) :
    Acts sha256 repoType calls actor
      (Scanning actor commit dryRun (name :: rest) references)
      (attempt (perform (.readRef name))) (Finished actor)
      fun text => Scanning actor commit dryRun rest
        (withReference commit name references text) := by
  have lasting := lasting_scanning removal
  have reads : Program.Triple (exec repoType calls actor)
      (Sound sha256 repoType calls) (Rely calls actor)
      (Guarantee calls actor)
      (Scanning actor commit dryRun (name :: rest) references)
      (perform (.readRef name))
      (Outcome (Scanning actor commit dryRun (name :: rest) references)
        fun text => Scanning actor commit dryRun rest
          (withReference commit name references text)) := by
    refine triple_still (lasting _ _) (fun reply => ?_) ?_
    · cases reply with
      | error _ => exact lasting _ _
      | ok _ => exact lasting _ _
    · rintro before reply after ⟨rfl, answered⟩ scanning
      refine ⟨rfl, ?_⟩
      cases reply with
      | error _ => exact scanning
      | ok text =>
          refine ⟨scanning.removing, fun deletes none other named => ?_⟩
          have unread := withReference_eq_nil.mp none
          have among := scanning.unread deletes unread.1 other named
          rcases List.mem_cons.mp among with rfl | later
          · -- What the call has read there does not name the commit.
            obtain ⟨found, ⟨node, _⟩, names⟩ := named
            rw [node] at answered
            rcases answered with ⟨_, impossible⟩ | same
            · cases impossible
            · cases same
              exact absurd names (unread.2 found rfl)
          · exact later
  refine reads.mono (fun _ _ => id) ?_
  intro reply store sound reached
  cases reply with
  | error _ => exact reached.finished removal sound
  | ok _ => exact reached

/-- The loop over the entries of `refs`. -/
theorem acts_referencesTo
    (names references : List String) :
    Acts sha256 repoType calls actor
      (Scanning actor commit dryRun names references)
      (referencesTo commit names references) (Finished actor)
      fun found => Scanning actor commit dryRun [] found := by
  induction names generalizing references with
  | nil =>
      exact triple_done (lasting_scanning removal [] references)
        fun _ _ scanning => scanning
  | cons name rest inductionHypothesis =>
      rw [referencesTo]
      refine acts_bind _ lasting_finished
        (acts_readRef removal name rest references) fun text => ?_
      cases text with
      | none => exact inductionHypothesis references
      | some text =>
          dsimp only [withReference]
          split
          · exact inductionHypothesis (references ++ [name])
          · exact inductionHypothesis references

/-! ## Deleting the revision -/

/-- What is not the revision of the removal stays. -/
structure Takes (commit : String) (actor : ι) (before after : Store ι) :
    Prop where
  began : before.removing actor = some commit
  lock : after.lock = before.lock
  part : after.part = before.part
  placed : after.placed = before.placed
  drawn : after.drawn = before.drawn
  temporary : after.temporary = before.temporary
  refNode : after.dir.refNode = before.dir.refNode
  others : ∀ other, other ≠ commit →
    after.dir.revision other = before.dir.revision other
  within : ∀ left, after.dir.revision commit = some left →
    ∃ revision, before.dir.revision commit = some revision ∧
      Within left revision
  /-- The removal ends only when the revision is gone. -/
  removing : after.removing = before.removing ∨
    after.removing = Function.update before.removing actor none ∧
      after.dir.revision commit = none

section takes

variable {before after : Store ι}

omit [DecidableEq ι] removal in
theorem Takes.placed_iff [DecidableEq ι]
    (takes : Takes commit actor before after)
    (name : String)
    (text : Option String) :
    after.Placed name text ↔ before.Placed name text := by
  unfold Store.Placed
  rw [takes.refNode, takes.temporary]

omit removal in
/-- Whoever is removing afterwards was removing before. -/
theorem Takes.removing_before
    (takes : Takes commit actor before after)
    {other : ι}
    {target : String}
    (removing : after.removing other = some target) :
    before.removing other = some target := by
  rcases takes.removing with same | ⟨ended, _⟩
  · rw [← same]
    exact removing
  · rw [ended] at removing
    by_cases self : other = actor
    · subst self
      rw [Function.update_self] at removing
      cases removing
    · rwa [Function.update_of_ne self] at removing

omit removal in
/-- The others that were removing still are. -/
theorem Takes.unharmed_before
    (takes : Takes commit actor before after)
    {target : String}
    (different : target ≠ commit)
    (unharmed : after.Unharmed target) :
    before.Unharmed target := by
  intro other removing
  have others : other ≠ actor := by
    rintro rfl
    rw [takes.began] at removing
    exact different (Option.some.inj removing).symm
  rcases takes.removing with same | ⟨ended, _⟩
  · exact unharmed other (by rw [same]; exact removing)
  · apply unharmed other
    rw [ended, Function.update_of_ne others]
    exact removing

theorem Takes.sound
    (takes : Takes commit actor before after)
    (sound : Sound sha256 repoType calls before) :
    Sound sha256 repoType calls after where
  asked := by
    rw [takes.placed]
    exact sound.asked
  revisions := by
    intro target revision found unharmed
    by_cases same : target = commit
    · subst same
      rcases takes.removing with still | ⟨_, gone⟩
      · exact absurd (by rw [still]; exact takes.began) (unharmed actor)
      · rw [gone] at found
        cases found
    · rw [takes.others target same] at found
      obtain ⟨manifest, intact⟩ := sound.revisions target revision found
        (takes.unharmed_before same unharmed)
      refine ⟨manifest, intact.toStocked, ?_⟩
      unfold Store.shared
      rw [takes.placed]
      exact intact.tracked
  refs := by
    intro name text inPlace
    obtain ⟨found, same, stands, unharmed⟩ :=
      sound.refs name text ((takes.placed_iff name text).mp inPlace)
    have different : Archive.trim found ≠ commit := by
      intro names
      exact unharmed actor (by rw [names]; exact takes.began)
    refine ⟨found, same, ?_, fun other removing =>
      unharmed other (takes.removing_before removing)⟩
    rw [takes.others _ different]
    exact stands
  removals := fun other target removing =>
    sound.removals other target (takes.removing_before removing)
  temporaries := by
    intro other name held
    rw [takes.temporary] at held
    exact (sound.temporaries other name held).congr (by rw [takes.drawn])
  distinct := by
    intro one other name different owns ownsToo
    exact sound.distinct one other name different
      (owns.congr (by rw [takes.drawn])) (ownsToo.congr (by rw [takes.drawn]))
  unasked := fun one other name owns =>
    sound.unasked one other name (owns.congr (by rw [takes.drawn]))

theorem Takes.guarantee
    (takes : Takes commit actor before after)
    (deletes : dryRun = false) :
    Guarantee calls actor before after where
  others := by
    intro other different
    rw [takes.drawn, takes.temporary, takes.part, takes.placed]
    refine ⟨rfl, rfl, ?_, rfl, rfl⟩
    rcases takes.removing with same | ⟨ended, _⟩
    · rw [same]
    · rw [ended, Function.update_of_ne different]
  owned := fun _ _ _ _ => by rw [takes.refNode]
  refs := fun name text inPlace =>
    Or.inl ((takes.placed_iff name text).mp inPlace)
  apart := by
    intro other different
    rw [removal] at different
    exact ⟨takes.others other different, by rw [takes.lock]⟩
  grows := by
    intro harmless
    rw [removal, deletes] at harmless
    cases harmless
  shrinks := by
    intro _ left found
    rw [removal] at found ⊢
    exact takes.within left found

end takes

omit [DecidableEq ι] in
/-- From here on nobody may count on the revision. -/
theorem listed_sound [DecidableEq ι]
    (deletes : dryRun = false)
    {before : Store ι}
    (sound : Sound sha256 repoType calls before)
    (scanning : Scanning actor commit dryRun [] [] before) :
    Sound sha256 repoType calls { before with
        removing := Function.update before.removing actor (some commit) } ∧
      Guarantee calls actor before { before with
        removing := Function.update before.removing actor (some commit) } := by
  have earlier : ∀ {other : ι} {target : String},
      before.removing other = some target →
        Function.update before.removing actor (some commit) other =
          some target := by
    intro other target removing
    rw [Function.update_of_ne]
    · exact removing
    · rintro rfl
      rw [scanning.removing] at removing
      cases removing
  refine ⟨⟨sound.asked, ?_, ?_, ?_, sound.temporaries, sound.distinct,
    sound.unasked⟩, ⟨?_, fun _ _ _ _ => rfl, fun _ _ => Or.inl,
      fun _ _ => ⟨rfl, rfl⟩, fun _ revision found =>
        ⟨revision, found, .refl ..⟩, fun _ left found =>
          ⟨left, found, .refl left⟩⟩⟩
  · intro target revision found unharmed
    exact sound.revisions target revision found
      fun other removing => unharmed other (earlier removing)
  · intro name text inPlace
    obtain ⟨found, rfl, stands, unharmed⟩ := sound.refs name text inPlace
    refine ⟨found, rfl, stands, fun other removing => ?_⟩
    dsimp only at removing
    by_cases self : other = actor
    · subst self
      rw [Function.update_self] at removing
      have unread := scanning.unread deletes rfl name
        ⟨found, inPlace, (Option.some.inj removing).symm⟩
      cases unread
    · rw [Function.update_of_ne self] at removing
      exact unharmed other removing
  · intro other target removing
    dsimp only at removing
    by_cases self : other = actor
    · subst self
      rw [Function.update_self] at removing
      cases removing
      rw [removal, deletes]
      exact ⟨rfl, rfl⟩
    · rw [Function.update_of_ne self] at removing
      exact sound.removals other target removing
  · intro other different
    exact ⟨rfl, rfl, Function.update_of_ne different .., rfl, rfl⟩

/-- The removal begins to delete. -/
theorem acts_listRevision
    (deletes : dryRun = false) :
    Acts sha256 repoType calls actor (Scanning actor commit dryRun [] [])
      (attempt (perform (.listRevision commit))) (Finished actor)
      fun entries store => Deleting actor commit entries store ∧
        Ordered entries := by
  refine triple_perform (lasting_scanning removal _ _) (fun reply => ?_) ?_
  · cases reply with
    | error _ => exact lasting_finished
    | ok entries =>
        rintro before after relied ⟨deleting, ordered⟩
        exact ⟨lasting_deleting removal deletes entries before after relied
          deleting, ordered⟩
  rintro before sound scanning reply after
    (⟨⟨_, rfl⟩, rfl⟩ | ⟨revision, entries, found, rfl, listed, rfl⟩)
  · exact ⟨sound, .refl .., scanning.finished removal sound⟩
  · obtain ⟨soundNow, guarantee⟩ :=
      listed_sound removal deletes sound scanning
    refine ⟨soundNow, guarantee, ⟨Function.update_self .., ?_⟩,
      listed.nodup, listed.order⟩
    intro standing there entry has
    rw [found] at there
    cases there
    exact (listed.mem entry).mpr has

/-- One entry is removed, or was removed by another removal. -/
theorem acts_removeEntry
    (deletes : dryRun = false)
    {entry : Entry}
    {rest : List Entry}
    (ordered : Ordered (entry :: rest)) :
    Acts sha256 repoType calls actor
      (Deleting actor commit (entry :: rest))
      (attempt (perform (.removeEntry commit entry))) (Finished actor)
      fun _ => Deleting actor commit rest := by
  have lasting := lasting_deleting removal deletes
  refine triple_perform (lasting _) (fun reply => ?_) ?_
  · cases reply with
    | error _ => exact lasting_finished
    | ok _ => exact lasting rest
  rintro before sound deleting reply after
    (⟨revision, left, found, removed, rfl, rfl⟩ |
      ⟨absent, rfl, rfl⟩ | ⟨⟨revision, found, present, stuck⟩, _⟩)
  · have takes : Takes commit actor before
        { before with dir := before.dir.putRevision commit left } := by
      refine ⟨deleting.removing, rfl, rfl, rfl, rfl, rfl, rfl, ?_, ?_,
        Or.inl rfl⟩
      · intro other different
        rw [RepositoryDir.revision_putRevision, if_neg different]
      · intro now there
        rw [RepositoryDir.revision_putRevision, if_pos rfl] at there
        cases there
        exact ⟨revision, found,
          fun other there => (has_of_removedEntry removed there).1⟩
    refine ⟨takes.sound removal sound, takes.guarantee removal deletes,
      deleting.removing, ?_⟩
    intro now there other has
    rw [RepositoryDir.revision_putRevision, if_pos rfl] at there
    cases there
    obtain ⟨hadBefore, different⟩ := has_of_removedEntry removed has
    rcases List.mem_cons.mp (deleting.left revision found other hadBefore) with
      same | later
    · exact absurd same different
    · exact later
  · refine ⟨sound, .refl .., deleting.removing, ?_⟩
    intro revision found other has
    rcases List.mem_cons.mp (deleting.left revision found other has) with
      rfl | later
    · exact absurd has (absent revision found)
    · exact later
  · obtain ⟨left, removed⟩ := exists_removedEntry ordered
      (deleting.left revision found) present
    exact absurd removed (stuck left)

theorem acts_removeEntries
    (deletes : dryRun = false)
    {entries : List Entry}
    (ordered : Ordered entries) :
    Acts sha256 repoType calls actor (Deleting actor commit entries)
      (removeEntries commit entries) (Finished actor)
      fun _ => Deleting actor commit [] := by
  induction entries with
  | nil =>
      exact triple_done (lasting_deleting removal deletes [])
        fun _ _ deleting => deleting
  | cons entry rest inductionHypothesis =>
      rw [removeEntries]
      exact acts_bind _ lasting_finished
        (acts_removeEntry removal deletes ordered)
        fun _ => inductionHypothesis ordered.tail

/-- The directory itself goes last. -/
theorem acts_removeRoot
    (deletes : dryRun = false) :
    Acts sha256 repoType calls actor (Deleting actor commit [])
      (attempt (perform (.removeRoot commit))) (Finished actor)
      fun _ => Finished actor := by
  refine triple_perform (lasting_deleting removal deletes [])
    (fun reply => ?_) ?_
  · cases reply <;> exact lasting_finished
  intro before sound deleting reply after issued
  have ends : Takes commit actor before after →
      after.removing actor = none →
        Sound sha256 repoType calls after ∧ Guarantee calls actor before after ∧
          Finished actor after := by
    intro takes ended
    have soundNow := takes.sound removal sound
    exact ⟨soundNow, takes.guarantee removal deletes,
      finished_of_removing removal soundNow ended⟩
  suffices reached : Sound sha256 repoType calls after ∧
      Guarantee calls actor before after ∧ Finished actor after by
    cases reply <;> exact reached
  unfold exec execRemoveRoot at issued
  dsimp only at issued
  split at issued
  · next absent =>
      obtain ⟨_, rfl⟩ := issued
      refine ends ⟨deleting.removing, rfl, rfl, rfl, rfl, rfl, rfl,
        fun _ _ => rfl, ?_, Or.inr ⟨rfl, absent⟩⟩ (Function.update_self ..)
      intro left found
      exact ⟨left, found, .refl left⟩
  · next revision found =>
      rcases issued with ⟨_, _, rfl⟩ | ⟨occupied, _⟩
      · refine ends ⟨deleting.removing, rfl, rfl, rfl, rfl, rfl, rfl, ?_, ?_,
          Or.inr ⟨rfl, by simp⟩⟩ (Function.update_self ..)
        · intro other different
          rw [RepositoryDir.revision_dropRevision, if_neg different]
        · intro left there
          rw [RepositoryDir.revision_dropRevision, if_pos rfl] at there
          cases there
      · refine absurd (fun entry has => ?_) occupied
        cases deleting.left revision found entry has

theorem acts_removeAll
    (deletes : dryRun = false) :
    Acts sha256 repoType calls actor (Scanning actor commit dryRun [] [])
      (removeAll commit) (Finished actor) fun _ => Finished actor := by
  unfold removeAll
  refine acts_bind _ lasting_finished (acts_listRevision removal deletes)
    fun entries => ?_
  refine triple_of_fact fun ordered => ?_
  refine acts_bind _ lasting_finished
    (acts_removeEntries removal deletes ordered) fun _ => ?_
  exact acts_removeRoot removal deletes

/-! ## The whole removal -/

omit removal in
/-- Asking for the directory changes nothing. -/
theorem execRef_isDir
    {before after : Store ι}
    {reply : Bool}
    (issued : execRef calls actor (.isDir commit) before reply after) :
    after = before := by
  obtain ⟨answered, _, same⟩ := issued
  have dir : after.dir = before.dir := by
    rcases answered with ⟨_, dir⟩ | ⟨_, _, dir⟩
    · exact dir
    · exact dir
  rw [same, dir]
  simp only [drawnAfter, temporaryAfter, Function.update_eq_self]

/-- A removal among other calls. -/
theorem acts_removeRevision :
    Acts sha256 repoType calls actor
      (fun store => store.removing actor = none)
      (removeRevision repoId commit dryRun) (Finished actor)
      fun _ => Finished actor := by
  have lasting : Lasting calls actor fun store : Store ι =>
      store.removing actor = none :=
    fun _ _ relied none => relied.removing.trans none
  have finishes : ∀ store, Sound sha256 repoType calls store →
      store.removing actor = none → Finished actor store :=
    fun _ sound => finished_of_removing removal sound
  unfold removeRevision
  refine acts_bind _ lasting_finished (acts_check lasting finishes)
    fun _ => ?_
  refine triple_of_fact fun _ => ?_
  refine acts_bind _ lasting_finished (acts_check lasting finishes)
    fun _ => ?_
  refine triple_of_fact fun _ => ?_
  refine acts_bind (fun _ store => store.removing actor = none)
    lasting_finished ?_ fun isDir => ?_
  · exact acts_always (fun _ => lasting) (triple_still lasting
      (fun _ => lasting) fun _ _ _ issued none => ⟨execRef_isDir issued, none⟩)
  split
  · exact triple_done lasting finishes
  refine acts_bind (fun names => Scanning actor commit dryRun names [])
    lasting_finished ?_ fun names => ?_
  · refine acts_always (fun names => lasting_scanning removal names [])
      (triple_still lasting (fun names => lasting_scanning removal names [])
        ?_)
    rintro before names after ⟨listed, rfl⟩ none
    refine ⟨rfl, none, fun _ _ name named => (listed name).mpr ?_⟩
    obtain ⟨text, ⟨node, _⟩, _⟩ := named
    rw [node]
    rfl
  refine acts_bind _ lasting_finished (acts_referencesTo removal names [])
    fun references => ?_
  split
  · exact triple_done (lasting_scanning removal [] references)
      fun _ sound scanning => scanning.finished removal sound
  next unreferenced =>
  have unread : references = [] := by simpa using unreferenced
  subst unread
  split
  · exact triple_done (lasting_scanning removal [] [])
      fun _ sound scanning => scanning.finished removal sound
  next deletes =>
  refine acts_bind _ lasting_finished
    (acts_removeAll removal (by simpa using deletes)) fun _ => ?_
  exact acts_syncRevisions lasting_finished

theorem safe_remove
    {start : Store ι}
    (sound : Sound sha256 repoType calls start)
    (fresh : start.removing actor = none) :
    ((calls actor).program sha256 repoType).Safe (exec repoType calls actor)
      (Sound sha256 repoType calls) (Rely calls actor)
      (Guarantee calls actor) (fun _ => Finished actor) start := by
  rw [removal]
  refine (acts_removeRevision removal start sound fresh).mono ?_
  intro outcome _ _ finished
  cases outcome <;> exact finished

end removal

end Operations
end ModelKeep
