import ModelKeep.Refs.Update

/-!
# Updates of which some steps are refused

Where it is known which steps may be refused, an update that fails says that
one was, or that it may not be done at all; one that succeeds has put the ref
in place.
-/

namespace ModelKeep
namespace Refs

open Concurrency Program

/-- The steps, of which some may be refused. -/
def Faulty (refusable : Op → Prop) : Semantics interface RepositoryDir :=
  fun op before reply after => Succeeds op before reply after ∨
    refusable op ∧ Refuses op before reply after

/-- What an update needs before it is begun. -/
structure Settable (before : RepositoryDir)
    (repoId reference commit : String) : Prop where
  named : ∃ parts, validateRepoId repoId = .ok parts
  safe : validateComponent reference = .ok ()
  valid : validateRevision commit = .ok ()
  published : (before.revision commit).isSome
  writable : before.refNode reference ≠ some .directory

section faulty

variable {refusable : Op → Prop} {before : RepositoryDir}
  {temporary repoId reference commit : String} {start : Logged}

/-- The update has left its temporary file, nothing, or the new ref. -/
def Clears (before : RepositoryDir) (reference commit : String)
    (state : Logged) : Prop :=
  pending state.2 = true ∨ Untouched before state ∨
    before.refNode reference ≠ some .directory ∧
      Updated before reference commit state

/-- How the steps up to the last one may end. -/
def Replaced (refusable : Op → Prop) (before : RepositoryDir)
    (temporary reference commit : String) :
    Except ArchiveError Unit → Logged → Prop
  | .ok (), state => before.refNode reference ≠ some .directory ∧
      Updated before reference commit state
  | .error _, state =>
      ((∃ op, refusable op) ∨ before.refNode reference = some .directory) ∧
        (Untouched before state ∨
          (∃ text, Written before temporary text state) ∨
          before.refNode reference ≠ some .directory ∧
            Updated before reference commit state)

theorem Written.clears
    {text : String}
    (written : Written before temporary text start) :
    Clears before reference commit start :=
  Or.inl written.2

/-- A refused step that the temporary file outlives. -/
theorem Written.refused
    {text : String}
    {state next : Logged}
    {step : Event interface}
    {error : ArchiveError}
    {op : Op}
    (written : Written before temporary text state)
    (may : refusable op)
    (same : next.1 = state.1)
    (steps : next.2 = state.2 ++ [step])
    (silent : pendingAfter true step = true) :
    Clears before reference commit next ∧
      Replaced refusable before temporary reference commit (.error error)
        next := by
  have still := written.still same steps silent
  exact ⟨still.clears, Or.inl ⟨op, may⟩, Or.inr (Or.inl ⟨text, still⟩)⟩

theorem guards_writeAll_of_faulty
    {text : String}
    {characters : List Char}
    (written : Written before temporary text start) :
    Guards (logged (Faulty refusable)) (Clears before reference commit)
      (writeAll temporary characters).run
      (fun outcome state => ∃ found, Written before temporary found state ∧
        match outcome with
        | .ok () => found.toList = text.toList ++ characters
        | .error _ => ∃ op, refusable op) start := by
  induction characters generalizing text start with
  | nil => exact ⟨written.clears, text, written, by simp⟩
  | cons character rest inductionHypothesis =>
      rw [writeAll]
      apply Guards.exceptBind
      apply guards_perform written.clears
      rintro reply after ⟨succeeds | ⟨may, ⟨error, rfl⟩, same⟩, steps⟩
      · simp only [Succeeds, written.refNode] at succeeds
        obtain ⟨rfl, sets⟩ := succeeds
        have longer : Written before temporary (text.push character)
            after := by
          refine ⟨written.1.again sets, ?_⟩
          rw [steps, pending_append, written.2]
          rfl
        refine ⟨longer.clears, (inductionHypothesis longer).mono ?_⟩
        rintro outcome final _ ⟨found, writtenToo, whole⟩
        refine ⟨found, writtenToo, ?_⟩
        cases outcome with
        | ok _ =>
            have ends : found.toList =
              (text.push character).toList ++ rest := whole
            change found.toList = text.toList ++ character :: rest
            rw [ends]
            simp
        | error error => exact whole
      · have still := written.still same steps rfl
        exact ⟨still.clears, text, still, _, may⟩

theorem guards_rename_of_faulty
    (free : before.refNode temporary = none)
    (different : temporary ≠ reference)
    (written : Written before temporary commit start) :
    Guards (logged (Faulty refusable)) (Clears before reference commit)
      (do
        attempt (perform (.sync temporary))
        attempt (perform (.rename temporary reference))
        attempt (perform .syncDirectory) : Action Unit).run
      (Replaced refusable before temporary reference commit) start := by
  apply Guards.exceptBind
  apply guards_perform written.clears
  rintro reply synced ⟨⟨rfl, same⟩ | ⟨may, ⟨error, rfl⟩, same⟩, steps⟩
  on_goal 2 => exact written.refused may same steps rfl
  replace written := written.still same steps rfl
  refine ⟨written.clears, ?_⟩
  clear same steps
  apply Guards.exceptBind
  apply guards_perform written.clears
  rintro reply renamed ⟨succeeds | ⟨may, ⟨error, rfl⟩, same⟩, steps⟩
  on_goal 2 => exact written.refused may same steps rfl
  have target : synced.1.refNode reference = before.refNode reference := by
    rw [written.1.2, Function.update_of_ne different.symm]
  simp only [Succeeds, written.refNode, target] at succeeds
  split at succeeds
  · next absent => cases absent
  · next directory =>
      obtain ⟨rfl, same⟩ := succeeds
      have still := written.still same steps rfl
      exact ⟨still.clears, Or.inr directory, Or.inr (Or.inl ⟨_, still⟩)⟩
  · next node _ same writable =>
      cases same
      obtain ⟨rfl, revisions, refNode⟩ := succeeds
      have updated : Updated before reference commit renamed := by
        refine ⟨⟨revisions.trans written.1.1, ?_⟩, ?_⟩
        · rw [refNode, written.1.2, Function.update_idem]
          congr 1
          rw [Function.update_eq_self_iff]
          exact free.symm
        · rw [steps, pending_append]
          rfl
      have clear : ∀ {state}, Updated before reference commit state →
          Clears before reference commit state :=
        fun updated => Or.inr (Or.inr ⟨writable, updated⟩)
      refine ⟨clear updated, guards_perform (clear updated) ?_⟩
      rintro reply after ⟨⟨rfl, same⟩ | ⟨may, ⟨error, rfl⟩, same⟩, steps⟩
      · have still := updated.still same steps rfl
        exact ⟨clear still, writable, still⟩
      · have still := updated.still same steps rfl
        exact ⟨clear still, Or.inl ⟨_, may⟩,
          Or.inr (Or.inr ⟨writable, still⟩)⟩

theorem guards_replaceRef_of_faulty
    (free : before.refNode temporary = none)
    (different : temporary ≠ reference)
    (untouched : Untouched before start) :
    Guards (logged (Faulty refusable)) (Clears before reference commit)
      (replaceRef temporary reference commit).run
      (Replaced refusable before temporary reference commit) start := by
  have clear : ∀ {state}, Untouched before state →
      Clears before reference commit state := fun untouched =>
    Or.inr (Or.inl untouched)
  unfold replaceRef
  apply Guards.exceptBind
  apply guards_perform (clear untouched)
  have absent : start.1.refNode temporary = none := by
    rw [untouched.1.refNode, free]
  rintro reply created ⟨succeeds | ⟨may, ⟨error, rfl⟩, same⟩, steps⟩
  on_goal 2 =>
    have still := untouched.still (sameEntries_of_eq same) steps rfl
    exact ⟨clear still, Or.inl ⟨_, may⟩, Or.inl still⟩
  simp only [Succeeds, absent] at succeeds
  obtain ⟨rfl, revisions, refNode⟩ := succeeds
  have written : Written before temporary "" created := by
    refine ⟨⟨revisions.trans untouched.1.revisions, ?_⟩, ?_⟩
    · rw [refNode, untouched.1.refNode]
    · rw [steps, pending_append]
      rfl
  refine ⟨written.clears, ?_⟩
  apply Guards.exceptBind
  apply (guards_writeAll_of_faulty written).mono
  rintro outcome filled _ ⟨found, writtenToo, whole⟩
  cases outcome with
  | error error => exact ⟨Or.inl whole, Or.inr (Or.inl ⟨found, writtenToo⟩)⟩
  | ok _ =>
      have same : found = commit := by
        apply String.toList_injective
        simpa using whole
      subst same
      exact guards_rename_of_faulty free different writtenToo

/-- How an update may end. -/
def Answers (refusable : Op → Prop) (before : RepositoryDir)
    (repoId reference commit : String) :
    Except ArchiveError Unit → Logged → Prop
  | .ok (), state => Settable before repoId reference commit ∧
      Updated before reference commit state
  | .error _, _ => (∃ op, refusable op) ∨
      ¬Settable before repoId reference commit

/-- What an update may leave at any time. -/
def Leaves (before : RepositoryDir) (repoId reference commit : String)
    (state : Logged) : Prop :=
  pending state.2 = true ∨ Untouched before state ∨
    Settable before repoId reference commit ∧
      Updated before reference commit state

theorem Untouched.leaves
    {state : Logged}
    (untouched : Untouched before state) :
    Leaves before repoId reference commit state :=
  Or.inr (Or.inl untouched)

theorem guards_replaceOrCleanUp_of_faulty
    (free : before.refNode temporary = none)
    (different : temporary ≠ reference)
    (untouched : Untouched before start) :
    Guards (logged (Faulty refusable)) (Clears before reference commit)
      (replaceOrCleanUp temporary reference commit).run
      (fun outcome state =>
        match outcome with
        | .ok () => before.refNode reference ≠ some .directory ∧
            Updated before reference commit state
        | .error _ => (∃ op, refusable op) ∨
            before.refNode reference = some .directory) start := by
  unfold replaceOrCleanUp
  apply Guards.exceptBind
  rw [run_always]
  apply Guards.bind
  apply (guards_replaceRef_of_faulty free different untouched).mono
  intro outcome stopped clears replaced
  refine ⟨clears, ?_⟩
  cases outcome with
  | ok _ => exact ⟨clears, replaced⟩
  | error error =>
      obtain ⟨blamed, left⟩ := replaced
      dsimp only
      apply Guards.exceptBind
      rw [run_always]
      apply Guards.bind
      apply guards_perform clears
      rintro reply cleaned ⟨removed, steps⟩
      suffices ends : Clears before reference commit cleaned from
        ⟨ends, ends, ends, blamed⟩
      have refused : stopped.1.refNode temporary = none →
          (∃ error, reply = .error error) ∧ cleaned.1 = stopped.1 := by
        intro absent
        rcases removed with succeeds | ⟨_, refused⟩
        · simp only [Succeeds, absent] at succeeds
          exact ⟨⟨_, succeeds.1⟩, succeeds.2⟩
        · exact refused
      rcases left with untouched | ⟨text, written⟩ | ⟨writable, updated⟩
      · obtain ⟨⟨_, rfl⟩, same⟩ := refused
          (by rw [untouched.1.refNode, free])
        exact Or.inr (Or.inl
          (untouched.still (sameEntries_of_eq same) steps rfl))
      · rcases removed with succeeds | ⟨_, ⟨_, rfl⟩, same⟩
        · simp only [Succeeds, written.refNode] at succeeds
          obtain ⟨rfl, gone⟩ := succeeds
          have whole := written.1.again gone
          refine Or.inr (Or.inl ⟨⟨?_, whole.1⟩, ?_⟩)
          · rw [whole.2, Function.update_eq_self_iff, free]
          · rw [steps, pending_append]
            rfl
        · exact (written.still same steps rfl).clears
      · obtain ⟨⟨_, rfl⟩, same⟩ := refused (by
          rw [updated.1.2, Function.update_of_ne different, free])
        exact Or.inr (Or.inr ⟨writable, updated.still same steps rfl⟩)

/-- What an update leaves and answers. -/
theorem guards_updateRef_of_faulty
    (refusable : Op → Prop)
    (before : RepositoryDir)
    (repoId reference commit : String) :
    Guards (logged (Faulty refusable))
      (Leaves before repoId reference commit)
      (updateRef repoId reference commit).run
      (Answers refusable before repoId reference commit) (before, []) := by
  have start : Untouched before (before, []) := ⟨⟨rfl, rfl⟩, rfl⟩
  unfold updateRef
  apply Guards.exceptBind
  rw [run_check]
  refine ⟨start.leaves, ?_⟩
  cases named : validateRepoId repoId with
  | error error =>
      right
      rintro ⟨⟨parts, settable⟩, _⟩
      rw [named] at settable
      cases settable
  | ok parts =>
  apply Guards.exceptBind
  rw [run_check]
  refine ⟨start.leaves, ?_⟩
  cases safe : validateComponent reference with
  | error error =>
      right
      intro settable
      cases safe.symm.trans settable.safe
  | ok _ =>
  apply Guards.exceptBind
  rw [run_check]
  refine ⟨start.leaves, ?_⟩
  cases valid : validateRevision commit with
  | error error =>
      right
      intro settable
      cases valid.symm.trans settable.valid
  | ok _ =>
  apply Guards.exceptBind
  rw [run_always]
  apply Guards.bind
  apply guards_perform start.leaves
  rintro present looked ⟨looks, steps⟩
  have same : looked.1 = before := by
    rcases looks with ⟨_, same⟩ | ⟨_, _, same⟩ <;> exact same
  have start := start.still (sameEntries_of_eq same) steps rfl
  refine ⟨start.leaves, start.leaves, ?_⟩
  dsimp only
  split
  · next absent =>
      refine ⟨start.leaves, ?_⟩
      rcases looks with ⟨rfl, _⟩ | ⟨may, _⟩
      · right
        intro settable
        rw [settable.published] at absent
        cases absent
      · exact Or.inl ⟨_, may⟩
  next there =>
  have published : (before.revision commit).isSome := by
    rcases looks with ⟨rfl, _⟩ | ⟨_, rfl, _⟩
    · exact Bool.of_not_eq_false there
    · exact absurd rfl there
  clear looks steps same
  apply Guards.exceptBind
  apply guards_perform start.leaves
  rintro reply made ⟨makes, steps⟩
  have same : SameEntries made.1 looked.1 := by
    rcases makes with ⟨_, same⟩ | ⟨_, _, same⟩
    · exact same
    · exact sameEntries_of_eq same
  have start := start.still same steps rfl
  refine ⟨start.leaves, ?_⟩
  cases reply with
  | error error =>
      rcases makes with ⟨⟨⟩, _⟩ | ⟨may, _⟩
      exact Or.inl ⟨_, may⟩
  | ok _ =>
      clear makes steps same
      apply Guards.exceptBind
      rw [run_always]
      apply Guards.bind
      apply guards_perform start.leaves
      rintro operation drawn ⟨⟨fresh, same⟩ | ⟨_, ⟨⟩⟩, steps⟩
      have free : before.refNode (temporaryName reference operation) =
          none := by
        rw [← start.1.refNode]
        exact fresh reference
      have start := start.still (sameEntries_of_eq same) steps rfl
      refine ⟨start.leaves, start.leaves, ?_⟩
      have different := temporaryName_ne reference operation
      have settable := Settable.mk ⟨parts, named⟩ safe valid published
      apply Guards.mono (Guards.widen
        (guards_replaceOrCleanUp_of_faulty free different start) ?_)
      on_goal 2 =>
        rintro state (left | untouched | ⟨writable, updated⟩)
        · exact Or.inl left
        · exact untouched.leaves
        · exact Or.inr (Or.inr ⟨settable writable, updated⟩)
      intro outcome state _ ends
      cases outcome with
      | ok _ => exact ⟨settable ends.1, ends.2⟩
      | error error =>
          rcases ends with may | directory
          · exact Or.inl may
          · exact Or.inr fun settable => settable.writable directory

end faulty

/-! ## Every step can be taken -/

/-- The directory with this under a name, or with nothing there. -/
def putNode (refs : RefsDir) (name : String) (entry : Option RefNode) :
    RefsDir where
  node := Function.update refs.node name entry
  names :=
    if entry.isNone then refs.names.filter (· ≠ name)
    else if name ∈ refs.names then refs.names
    else name :: refs.names
  nodup := by
    split
    · exact refs.nodup.filter _
    · split
      · exact refs.nodup
      · next absent => exact List.nodup_cons.mpr ⟨absent, refs.nodup⟩
  mem_names := by
    intro other
    by_cases same : other = name
    · subst same
      cases entry with
      | none => simp
      | some node => by_cases there : other ∈ refs.names <;> simp [there]
    · rw [Function.update_of_ne same, ← refs.mem_names]
      cases entry with
      | none => simp [same]
      | some node => by_cases there : name ∈ refs.names <;> simp [there, same]

theorem exists_sets
    (before : RepositoryDir)
    (name : String)
    (entry : Option RefNode) :
    ∃ after, Sets before after name entry := by
  refine ⟨{ before with
    refs := some (putNode (before.refs.getD .empty) name entry) }, rfl, ?_⟩
  funext other
  change Function.update (before.refs.getD .empty).node name entry other =
    Function.update before.refNode name entry other
  have same : (before.refs.getD .empty).node = before.refNode := by
    unfold RepositoryDir.refNode
    cases before.refs <;> rfl
  rw [same]

/-- A name that is long enough is not taken. -/
theorem exists_unused (before : RepositoryDir) :
    ∃ operation, ∀ reference,
      before.refNode (temporaryName reference operation) = none := by
  let longest := before.refNames.toFinset.sup fun name => name.toList.length
  refine ⟨String.ofList (List.replicate (longest + 1) 'a'), ?_⟩
  intro reference
  by_contra present
  have member : temporaryName reference
      (String.ofList (List.replicate (longest + 1) 'a')) ∈
        before.refNames := by
    unfold RepositoryDir.refNode at present
    unfold RepositoryDir.refNames
    cases found : before.refs with
    | none => simp [found] at present
    | some refs =>
        rw [found] at present
        exact (refs.mem_names _).mpr (Option.isSome_iff_ne_none.mpr present)
  have bounded := Finset.le_sup (f := fun name : String =>
    name.toList.length) (List.mem_toFinset.mpr member)
  simp only [temporaryName, String.toList_append, List.length_append,
    String.toList_ofList, List.length_replicate] at bounded
  omega

theorem exists_succeeds (op : Op) (before : RepositoryDir) :
    ∃ reply after, Succeeds op before reply after := by
  cases op with
  | isDir commit => exact ⟨_, before, rfl, rfl⟩
  | createDirAll => exact ⟨_, before, rfl, rfl, rfl⟩
  | operationId =>
      obtain ⟨operation, unused⟩ := exists_unused before
      exact ⟨operation, before, unused, rfl⟩
  | createNew name =>
      unfold Succeeds
      dsimp only
      split
      · obtain ⟨after, sets⟩ := exists_sets before name
          (some (.file (some "")))
        exact ⟨_, after, rfl, sets⟩
      · exact ⟨_, before, rfl, rfl⟩
  | write name character =>
      unfold Succeeds
      dsimp only
      split
      · next text _ =>
          obtain ⟨after, sets⟩ := exists_sets before name
            (some (.file (some (text.push character))))
          exact ⟨_, after, rfl, sets⟩
      · exact ⟨_, before, rfl, rfl⟩
  | sync name => exact ⟨_, before, rfl, rfl⟩
  | rename old new =>
      unfold Succeeds
      dsimp only
      split
      · exact ⟨_, before, rfl, rfl⟩
      · exact ⟨_, before, rfl, rfl⟩
      · next node _ _ =>
          obtain ⟨middle, gone⟩ := exists_sets before old none
          obtain ⟨after, sets⟩ := exists_sets middle new (some node)
          refine ⟨_, after, rfl, sets.1.trans gone.1, ?_⟩
          rw [sets.2, gone.2]
  | syncDirectory => exact ⟨_, before, rfl, rfl⟩
  | removeFile name =>
      unfold Succeeds
      dsimp only
      split
      · obtain ⟨after, sets⟩ := exists_sets before name none
        exact ⟨_, after, rfl, sets⟩
      · exact ⟨_, before, rfl, rfl⟩

end Refs
end ModelKeep
