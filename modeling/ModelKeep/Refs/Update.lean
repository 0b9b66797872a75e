import ModelKeep.Concurrency.Crash
import ModelKeep.Refs.Inventory

/-!
# Updating a ref

A ref is written to a temporary file beside it, which is then renamed.  The
temporary file is an entry of the same directory, so what a reader sees of an
update that was cut off depends on whether the file is still there.
-/

namespace ModelKeep
namespace Refs

open Concurrency Program

/-- The steps of an update. -/
inductive Op
  | isDir (commit : String)
  /-- `create_dir_all` of `refs`. -/
  | createDirAll
  | operationId
  | createNew (name : String)
  /-- A file is written one character after the other. -/
  | write (name : String) (character : Char)
  | sync (name : String)
  | rename (old new : String)
  | syncDirectory
  | removeFile (name : String)

abbrev Op.Reply : Op → Type
  | .isDir _ => Bool
  | .operationId => String
  | _ => Except ArchiveError Unit

abbrev interface : Interface := ⟨Op, Op.Reply⟩

abbrev Action (α : Type) : Type := ExceptT ArchiveError (Program interface) α

def perform (op : Op) : Program interface op.Reply := .call op .done

/-- `.{reference}.{operation}.part`. -/
def temporaryName (reference operation : String) : String :=
  "." ++ reference ++ "." ++ operation ++ ".part"

/-- `write_all`. -/
def writeAll (name : String) : List Char → Action Unit
  | [] => check (.ok ())
  | character :: rest => do
      attempt (perform (.write name character))
      writeAll name rest

/-- The steps that an error cleans up after. -/
def replaceRef (temporary reference commit : String) : Action Unit := do
  attempt (perform (.createNew temporary))
  writeAll temporary commit.toList
  attempt (perform (.sync temporary))
  attempt (perform (.rename temporary reference))
  attempt (perform .syncDirectory)

/-- What the update does under its operation id. -/
def replaceOrCleanUp (temporary reference commit : String) : Action Unit := do
  match ← always (replaceRef temporary reference commit).run with
  | .ok () => check (.ok ())
  | .error error => do
      let _ ← always (perform (.removeFile temporary))
      check (.error error)

/-- `update_ref_for_type`. -/
def updateRef (repoId reference commit : String) : Action Unit := do
  let _ ← check (validateRepoId repoId)
  check (validateComponent reference)
  check (validateRevision commit)
  if (← always (perform (.isDir commit))) = false then
    check (.error (.io .notFound))
  else do
    attempt (perform .createDirAll)
    let operation ← always (perform .operationId)
    replaceOrCleanUp (temporaryName reference operation) reference commit

/-! ## What the steps do -/

/-- Nothing is changed but the entry under one name, and where the listing
has it. -/
def Sets (before after : RepositoryDir) (name : String)
    (node : Option RefNode) : Prop :=
  after.revisions = before.revisions ∧
    after.refNode = Function.update before.refNode name node

/-- A step that is not refused. -/
def Succeeds : (op : Op) → RepositoryDir → op.Reply → RepositoryDir → Prop
  | .isDir commit, before, reply, after =>
      reply = (before.revision commit).isSome ∧ after = before
  | .createDirAll, before, reply, after =>
      reply = .ok () ∧ SameEntries after before
  | .operationId, before, id, after =>
      (∀ reference, before.refNode (temporaryName reference id) = none) ∧
        after = before
  | .createNew name, before, reply, after =>
      match before.refNode name with
      | none => reply = .ok () ∧ Sets before after name (some (.file (some "")))
      | some _ => reply = .error (.io .alreadyExists) ∧ after = before
  | .write name character, before, reply, after =>
      match before.refNode name with
      | some (.file (some text)) => reply = .ok () ∧
          Sets before after name (some (.file (some (text.push character))))
      | _ => reply = .error (.io .other) ∧ after = before
  | .sync _, before, reply, after => reply = .ok () ∧ after = before
  | .rename old new, before, reply, after =>
      match before.refNode old, before.refNode new with
      | none, _ => reply = .error (.io .notFound) ∧ after = before
      | some _, some .directory =>
          reply = .error (.io .isADirectory) ∧ after = before
      | some node, _ => reply = .ok () ∧
          after.revisions = before.revisions ∧
          after.refNode = Function.update
            (Function.update before.refNode old none) new (some node)
  | .syncDirectory, before, reply, after => reply = .ok () ∧ after = before
  | .removeFile name, before, reply, after =>
      match before.refNode name with
      | some (.file _) => reply = .ok () ∧ Sets before after name none
      | _ => reply = .error (.io .notFound) ∧ after = before

/-- A step that is refused. -/
def Refuses : (op : Op) → RepositoryDir → op.Reply → RepositoryDir → Prop
  | .isDir _, before, reply, after => reply = false ∧ after = before
  | .operationId, _, _, _ => False
  | .createDirAll, before, reply, after =>
      (∃ error, reply = .error error) ∧ after = before
  | .createNew _, before, reply, after =>
      (∃ error, reply = .error error) ∧ after = before
  | .write _ _, before, reply, after =>
      (∃ error, reply = .error error) ∧ after = before
  | .sync _, before, reply, after =>
      (∃ error, reply = .error error) ∧ after = before
  | .rename _ _, before, reply, after =>
      (∃ error, reply = .error error) ∧ after = before
  | .syncDirectory, before, reply, after =>
      (∃ error, reply = .error error) ∧ after = before
  | .removeFile _, before, reply, after =>
      (∃ error, reply = .error error) ∧ after = before

/-- The steps; any of them may be refused. -/
def Effect : Semantics interface RepositoryDir :=
  fun op before reply after =>
    Succeeds op before reply after ∨ Refuses op before reply after

/-! ## What is left of the temporary file -/

/-- Whether the temporary file is there after one more step. -/
def pendingAfter (pending : Bool) : Event interface → Bool
  | ⟨.createNew _, .ok ()⟩ => true
  | ⟨.rename _ _, .ok ()⟩ => false
  | ⟨.removeFile _, .ok ()⟩ => false
  | _ => pending

/-- The temporary file was created, and not yet renamed or removed. -/
def pending (steps : List (Event interface)) : Bool :=
  steps.foldl pendingAfter false

@[simp] theorem pending_nil : pending [] = false := rfl

@[simp] theorem pending_append
    (steps : List (Event interface))
    (step : Event interface) :
    pending (steps ++ [step]) = pendingAfter (pending steps) step := by
  simp [pending]

/-- How far an update has come, with this temporary file. -/
inductive Stage (before : RepositoryDir) (temporary reference commit : String)
    (after : RepositoryDir) : Bool → Prop
  | unchanged
      (same : SameEntries after before) :
      Stage before temporary reference commit after false
  | written
      {text : String}
      (sets : Sets before after temporary (some (.file (some text)))) :
      Stage before temporary reference commit after true
  | updated
      (sets : Sets before after reference (some (.file (some commit)))) :
      Stage before temporary reference commit after false

section update

variable {before : RepositoryDir} {temporary reference commit : String}

/-- A directory and the steps that were taken. -/
abbrev Logged : Type := RepositoryDir × List (Event interface)

/-- The update has come to some stage. -/
def Staged (before : RepositoryDir) (temporary reference commit : String)
    (state : Logged) : Prop :=
  Stage before temporary reference commit state.1 (pending state.2)

/-- The temporary file holds this. -/
def Written (before : RepositoryDir) (temporary text : String)
    (state : Logged) : Prop :=
  Sets before state.1 temporary (some (.file (some text))) ∧
    pending state.2 = true

theorem Written.staged
    {text : String}
    {state : Logged}
    (written : Written before temporary text state) :
    Staged before temporary reference commit state := by
  rw [Staged, written.2]
  exact .written written.1

theorem Written.refNode
    {text : String}
    {state : Logged}
    (written : Written before temporary text state) :
    state.1.refNode temporary = some (.file (some text)) := by
  rw [written.1.2, Function.update_self]

theorem Sets.again
    {middle after : RepositoryDir}
    {name : String}
    {first second : Option RefNode}
    (earlier : Sets before middle name first)
    (later : Sets middle after name second) :
    Sets before after name second := by
  refine ⟨later.1.trans earlier.1, ?_⟩
  rw [later.2, earlier.2, Function.update_idem]

/-- A step that the file outlives. -/
theorem Written.still
    {text : String}
    {state next : Logged}
    {step : Event interface}
    (written : Written before temporary text state)
    (same : next.1 = state.1)
    (steps : next.2 = state.2 ++ [step])
    (silent : pendingAfter true step = true) :
    Written before temporary text next := by
  refine ⟨by rw [same]; exact written.1, ?_⟩
  rw [steps, pending_append, written.2, silent]

theorem guards_writeAll
    {text : String}
    {characters : List Char}
    {start : Logged}
    (written : Written before temporary text start) :
    Guards (logged Effect) (Staged before temporary reference commit)
      (writeAll temporary characters).run
      (fun outcome state => ∃ found,
        Written before temporary found state ∧
          (outcome = .ok () → found.toList = text.toList ++ characters))
      start := by
  induction characters generalizing text start with
  | nil => exact ⟨written.staged, text, written, by simp⟩
  | cons character rest inductionHypothesis =>
      rw [writeAll]
      apply Guards.exceptBind
      apply guards_perform written.staged
      rintro reply after ⟨succeeds | ⟨⟨error, rfl⟩, same⟩, steps⟩
      · simp only [Succeeds, written.refNode] at succeeds
        obtain ⟨rfl, sets⟩ := succeeds
        have longer : Written before temporary (text.push character)
            after := by
          refine ⟨written.1.again sets, ?_⟩
          rw [steps, pending_append, written.2]
          rfl
        refine ⟨longer.staged, (inductionHypothesis longer).mono ?_⟩
        rintro outcome final _ ⟨found, writtenToo, whole⟩
        refine ⟨found, writtenToo, fun done => ?_⟩
        rw [whole done]
        simp
      · have still := written.still same steps rfl
        exact ⟨still.staged, text, still, by simp⟩

/-- A directory on which the update has left nothing yet. -/
def Untouched (before : RepositoryDir) (state : Logged) : Prop :=
  SameEntries state.1 before ∧ pending state.2 = false

theorem Untouched.staged
    {state : Logged}
    (untouched : Untouched before state) :
    Staged before temporary reference commit state := by
  rw [Staged, untouched.2]
  exact .unchanged untouched.1

/-- The update has put the new ref in place. -/
def Updated (before : RepositoryDir) (reference commit : String)
    (state : Logged) : Prop :=
  Sets before state.1 reference (some (.file (some commit))) ∧
    pending state.2 = false

theorem Updated.staged
    {state : Logged}
    (updated : Updated before reference commit state) :
    Staged before temporary reference commit state := by
  rw [Staged, updated.2]
  exact .updated updated.1

theorem Updated.still
    {state next : Logged}
    {step : Event interface}
    (updated : Updated before reference commit state)
    (same : next.1 = state.1)
    (steps : next.2 = state.2 ++ [step])
    (silent : pendingAfter false step = false) :
    Updated before reference commit next := by
  refine ⟨by rw [same]; exact updated.1, ?_⟩
  rw [steps, pending_append, updated.2, silent]

theorem Untouched.still
    {state next : Logged}
    {step : Event interface}
    (untouched : Untouched before state)
    (same : SameEntries next.1 state.1)
    (steps : next.2 = state.2 ++ [step])
    (silent : pendingAfter false step = false) :
    Untouched before next := by
  refine ⟨⟨same.refNode.trans untouched.1.refNode,
    same.revisions.trans untouched.1.revisions⟩, ?_⟩
  rw [steps, pending_append, untouched.2, silent]

theorem sameEntries_of_eq
    {one other : RepositoryDir}
    (same : one = other) :
    SameEntries one other := by
  subst same
  exact ⟨rfl, rfl⟩

/-- Once the file is whole it is renamed, and the update is done. -/
theorem guards_rename
    {start : Logged}
    (free : before.refNode temporary = none)
    (written : Written before temporary commit start) :
    Guards (logged Effect) (Staged before temporary reference commit)
      (do
        attempt (perform (.sync temporary))
        attempt (perform (.rename temporary reference))
        attempt (perform .syncDirectory) : Action Unit).run
      (fun _ state => Staged before temporary reference commit state)
      start := by
  apply Guards.exceptBind
  apply guards_perform written.staged
  rintro reply synced ⟨⟨rfl, same⟩ | ⟨⟨error, rfl⟩, same⟩, steps⟩
  on_goal 2 =>
    have still := written.still same steps rfl
    exact ⟨still.staged, still.staged⟩
  replace written := written.still same steps rfl
  refine ⟨written.staged, ?_⟩
  clear same steps
  apply Guards.exceptBind
  apply guards_perform written.staged
  rintro reply renamed ⟨succeeds | ⟨⟨error, rfl⟩, same⟩, steps⟩
  on_goal 2 =>
    have still := written.still same steps rfl
    exact ⟨still.staged, still.staged⟩
  simp only [Succeeds, written.refNode] at succeeds
  have refused : ∀ error, reply = .error error ∧ renamed.1 = synced.1 →
      Staged before temporary reference commit renamed := by
    rintro error ⟨rfl, same⟩
    exact (written.still same steps rfl).staged
  split at succeeds
  · next absent => cases absent
  · have staged := refused _ succeeds
    rw [succeeds.1]
    exact ⟨staged, staged⟩
  · next node _ same _ =>
      cases same
      obtain ⟨rfl, revisions, refNode⟩ := succeeds
      have updated : Updated before reference commit renamed := by
        refine ⟨⟨revisions.trans written.1.1, ?_⟩, ?_⟩
        · rw [refNode, written.1.2, Function.update_idem]
          congr 1
          rw [Function.update_eq_self_iff]
          exact free.symm
        · rw [steps, pending_append]
          rfl
      refine ⟨updated.staged, guards_perform updated.staged ?_⟩
      rintro reply after ⟨⟨rfl, same⟩ | ⟨⟨error, rfl⟩, same⟩, steps⟩
      · have still := updated.still same steps rfl
        exact ⟨still.staged, still.staged⟩
      · have still := updated.still same steps rfl
        exact ⟨still.staged, still.staged⟩

theorem guards_replaceRef
    {start : Logged}
    (free : before.refNode temporary = none)
    (untouched : Untouched before start) :
    Guards (logged Effect) (Staged before temporary reference commit)
      (replaceRef temporary reference commit).run
      (fun _ state => Staged before temporary reference commit state)
      start := by
  unfold replaceRef
  apply Guards.exceptBind
  apply guards_perform untouched.staged
  have absent : start.1.refNode temporary = none := by
    rw [untouched.1.refNode, free]
  rintro reply created ⟨succeeds | ⟨⟨error, rfl⟩, same⟩, steps⟩
  on_goal 2 =>
    have still := untouched.still (sameEntries_of_eq same) steps rfl
    exact ⟨still.staged, still.staged⟩
  simp only [Succeeds, absent] at succeeds
  obtain ⟨rfl, revisions, refNode⟩ := succeeds
  have written : Written before temporary "" created := by
    refine ⟨⟨revisions.trans untouched.1.revisions, ?_⟩, ?_⟩
    · rw [refNode, untouched.1.refNode]
    · rw [steps, pending_append]
      rfl
  refine ⟨written.staged, ?_⟩
  apply Guards.exceptBind
  apply (guards_writeAll written).mono
  rintro outcome filled _ ⟨found, writtenToo, whole⟩
  cases outcome with
  | error error => exact writtenToo.staged
  | ok _ =>
      have same : found = commit := by
        apply String.toList_injective
        simpa using whole rfl
      subst same
      exact guards_rename free writtenToo

theorem guards_replaceOrCleanUp
    {start : Logged}
    (free : before.refNode temporary = none)
    (different : temporary ≠ reference)
    (untouched : Untouched before start) :
    Guards (logged Effect) (Staged before temporary reference commit)
      (replaceOrCleanUp temporary reference commit).run
      (fun _ _ => True) start := by
  unfold replaceOrCleanUp
  apply Guards.exceptBind
  rw [run_always]
  apply Guards.bind
  apply (guards_replaceRef free untouched).mono
  intro outcome stopped _ staged
  refine ⟨staged, ?_⟩
  cases outcome with
  | ok _ => exact ⟨staged, trivial⟩
  | error error =>
      dsimp only
      apply Guards.exceptBind
      rw [run_always]
      apply Guards.bind
      apply guards_perform staged
      rintro reply cleaned removes
      suffices ends : Staged before temporary reference commit cleaned from
        ⟨ends, ends, ends, trivial⟩
      obtain ⟨removed, steps⟩ := removes
      obtain ⟨now, log⟩ := stopped
      unfold Staged at staged
      dsimp only at staged removed steps
      cases stopped : pending log with
      | true =>
          rw [stopped] at staged
          cases staged with
          | written sets =>
              have written : Written before temporary _ (now, log) :=
                ⟨sets, stopped⟩
              rcases removed with succeeds | ⟨⟨error, rfl⟩, same⟩
              · simp only [Succeeds, written.refNode] at succeeds
                obtain ⟨rfl, gone⟩ := succeeds
                have whole := sets.again gone
                unfold Staged
                rw [steps, pending_append]
                refine .unchanged ⟨?_, whole.1⟩
                rw [whole.2, Function.update_eq_self_iff, free]
              · exact (written.still same steps rfl).staged
      | false =>
          have absent : now.refNode temporary = none := by
            rw [stopped] at staged
            cases staged with
            | unchanged same => rw [same.refNode, free]
            | updated sets =>
                rw [sets.2, Function.update_of_ne different, free]
          have same : (∃ error, reply = .error error) ∧ cleaned.1 = now := by
            rcases removed with succeeds | refused
            · simp only [Succeeds, absent] at succeeds
              exact ⟨⟨_, succeeds.1⟩, succeeds.2⟩
            · exact refused
          obtain ⟨⟨error, rfl⟩, same⟩ := same
          unfold Staged
          rw [steps, pending_append, same, stopped]
          rwa [stopped] at staged

/-- What an update may leave, with whichever temporary file. -/
def MayLeave (before : RepositoryDir) (reference commit : String)
    (state : Logged) : Prop :=
  Untouched before state ∨
    validateComponent reference = .ok () ∧ validateRevision commit = .ok () ∧
      ∃ temporary, before.refNode temporary = none ∧ temporary ≠ reference ∧
        Staged before temporary reference commit state

/-- A temporary file is not the ref. -/
theorem temporaryName_ne (reference operation : String) :
    temporaryName reference operation ≠ reference := by
  intro same
  have lengths := congrArg (fun name => name.toList.length) same
  simp [temporaryName] at lengths
  omega

theorem guards_updateRef
    (repoId : String)
    (before : RepositoryDir)
    (reference commit : String) :
    Guards (logged Effect) (MayLeave before reference commit)
      (updateRef repoId reference commit).run (fun _ _ => True)
      (before, []) := by
  have checks : ∀ {α : Type} (outcome : Except ArchiveError α)
      (rest : α → Action Unit) (state : Logged),
      Untouched before state →
      (∀ value, outcome = .ok value →
        Guards (logged Effect) (MayLeave before reference commit)
          (rest value).run (fun _ _ => True) state) →
      Guards (logged Effect) (MayLeave before reference commit)
        (check outcome >>= rest).run (fun _ _ => True) state := by
    intro α outcome rest state untouched passes
    apply Guards.exceptBind
    rw [run_check]
    refine ⟨Or.inl untouched, ?_⟩
    cases outcome with
    | error error => trivial
    | ok value => exact passes value rfl
  have start : Untouched before (before, []) := ⟨⟨rfl, rfl⟩, rfl⟩
  have may : ∀ {state : Logged}, Untouched before state →
      MayLeave before reference commit state := Or.inl
  unfold updateRef
  refine checks _ _ _ start fun _ _ => checks _ _ _ start fun _ safe =>
    checks _ _ _ start fun _ valid => ?_
  apply Guards.exceptBind
  rw [run_always]
  apply Guards.bind
  apply guards_perform (may start)
  rintro present looked ⟨looks, steps⟩
  have same : looked.1 = before := by
    rcases looks with ⟨_, same⟩ | ⟨_, same⟩ <;> exact same
  have start := start.still (sameEntries_of_eq same) steps rfl
  refine ⟨may start, may start, ?_⟩
  dsimp only
  split
  · exact ⟨may start, trivial⟩
  clear looks steps same
  apply Guards.exceptBind
  apply guards_perform (may start)
  rintro reply made ⟨makes, steps⟩
  have same : SameEntries made.1 looked.1 := by
    rcases makes with ⟨_, same⟩ | ⟨_, same⟩
    · exact same
    · exact sameEntries_of_eq same
  have start := start.still same steps rfl
  refine ⟨may start, ?_⟩
  cases reply with
  | error error => trivial
  | ok _ =>
      clear makes steps same
      apply Guards.exceptBind
      rw [run_always]
      apply Guards.bind
      apply guards_perform (may start)
      rintro operation drawn ⟨⟨fresh, same⟩ | ⟨⟨⟩⟩, steps⟩
      have free : before.refNode (temporaryName reference operation) =
          none := by
        rw [← start.1.refNode]
        exact fresh reference
      have start := start.still (sameEntries_of_eq same) steps rfl
      refine ⟨may start, may start, ?_⟩
      have different := temporaryName_ne reference operation
      exact (guards_replaceOrCleanUp free different start).widen
        fun state staged =>
          Or.inr ⟨safe, valid, _, free, different, staged⟩

end update

/-! ## What the readers see -/

/-- The archive root with one repository changed. -/
def inRoot (root : ArchiveRoot) (repoType : RepositoryType) (repoId : String)
    (repository : RepositoryDir) : ArchiveRoot :=
  { root with dir := fun otherType other =>
      if otherType = repoType ∧ other = repoId then repository
      else root.dir otherType other }

section readers

variable {root : ArchiveRoot} {repoType : RepositoryType}
  {repoId reference commit : String} {before after : RepositoryDir}
  {old : RepositoryInventory}

/-- An update that was cut off is invisible: every reader sees the old state
or the new one. -/
structure Invisible
    (root : ArchiveRoot)
    (repoType : RepositoryType)
    (repoId reference commit : String)
    (old : RepositoryInventory)
    (after : RepositoryDir) : Prop where
  resolves :
    resolveRef repoId after reference =
        resolveRef repoId (root.dir repoType repoId) reference ∨
      resolveRef repoId after reference = .ok commit
  inventory : ∃ seen,
    repositoryInventory repoType repoId (some after) = .ok seen ∧
      (seen.refs = old.refs ∨
        seen.refs = old.refs.insert reference commit) ∧
      ∀ other dryRun references,
        removeRevision repoId after other dryRun =
            .error (.referencedRevision references) →
          ∃ name, seen.refs.lookup name = some other
  lists : ∀ summaries, listRepositories root = .ok summaries →
    ∃ seen, listRepositories (inRoot root repoType repoId after) = .ok seen ∧
      (seen = summaries ∨
        listRepositories (inRoot root repoType repoId
          ((root.dir repoType repoId).setRef reference commit)) = .ok seen)

/-- A removal is refused only for a ref of the inventory. -/
theorem named_of_refused
    {seen : RepositoryInventory}
    (found : repositoryInventory repoType repoId (some after) = .ok seen)
    {other : String}
    {dryRun : Bool}
    {references : List String}
    (refused : removeRevision repoId after other dryRun =
      .error (.referencedRevision references)) :
    ∃ name, seen.refs.lookup name = some other := by
  obtain ⟨nonempty, files⟩ := removeRevision_refused refused
  obtain ⟨name, member⟩ := List.exists_mem_of_ne_nil references nonempty
  obtain ⟨text, stands, named⟩ := files name member
  obtain ⟨_, refs, listed, summed⟩ := repositoryInventory_eq_ok.mp found
  refine ⟨name, ?_⟩
  rw [refs_summarizeRevisions summed, listed.lookup, stands]
  simp [RefNode.commit, named]

/-- Where the inventories agree, the lists agree. -/
theorem listRepositories_inRoot
    {summaries : List RepositorySummary}
    {one other : RepositoryDir}
    (inventories : ∀ inventory,
      repositoryInventory repoType repoId (some one) = .ok inventory →
        repositoryInventory repoType repoId (some other) = .ok inventory)
    (listed : listRepositories (inRoot root repoType repoId one) =
      .ok summaries) :
    listRepositories (inRoot root repoType repoId other) = .ok summaries := by
  refine listRepositories_eq_ok (inRoot root repoType repoId one) _ rfl ?_
    listed
  intro otherType otherId inventory found
  by_cases same : otherType = repoType ∧ otherId = repoId
  · simp only [inRoot, same, and_self, if_true] at found ⊢
    exact inventories inventory found
  · simp only [inRoot, same, if_false] at found ⊢
    exact found

theorem inRoot_self
    (root : ArchiveRoot)
    (repoType : RepositoryType)
    (repoId : String) :
    inRoot root repoType repoId (root.dir repoType repoId) = root := by
  unfold inRoot
  congr 1
  funext otherType otherId
  split
  · next same => rw [same.1, same.2]
  · rfl

theorem invisible_of_unchanged
    (healthy : repositoryInventory repoType repoId
      (some (root.dir repoType repoId)) = .ok old)
    (same : SameEntries after (root.dir repoType repoId)) :
    Invisible root repoType repoId reference commit old after where
  resolves := Or.inl (same.resolveRef_eq reference)
  inventory := by
    have found := same.symm.inventory healthy
    exact ⟨old, found, Or.inl rfl,
      fun other dryRun references => named_of_refused found⟩
  lists := by
    intro summaries listed
    refine ⟨summaries, ?_, Or.inl rfl⟩
    rw [← inRoot_self root repoType repoId] at listed
    exact listRepositories_inRoot (fun _ => same.symm.inventory) listed

theorem invisible_of_updated
    (healthy : repositoryInventory repoType repoId
      (some (root.dir repoType repoId)) = .ok old)
    (safe : validateComponent reference = .ok ())
    (valid : validateRevision commit = .ok ())
    (same : SameEntries after
      ((root.dir repoType repoId).setRef reference commit)) :
    Invisible root repoType repoId reference commit old after := by
  obtain ⟨renewed, found, refs⟩ := inventory_setRef healthy safe valid
  have foundAfter := same.symm.inventory found
  constructor
  · right
    obtain ⟨⟨parts, named⟩, _⟩ := repositoryInventory_eq_ok.mp healthy
    rw [same.resolveRef_eq, resolveRef, refNode_setRef, Function.update_self]
    refine bind_eq_ok.mpr ⟨parts, named, bind_eq_ok.mpr ⟨(), safe,
      bind_eq_ok.mpr ⟨commit, rfl, ?_⟩⟩⟩
    rw [Archive.trim_revision valid]
    exact bind_eq_ok.mpr ⟨(), valid, rfl⟩
  · exact ⟨renewed, foundAfter, Or.inr refs,
      fun other dryRun references => named_of_refused foundAfter⟩
  · intro summaries listed
    obtain ⟨seen, listedNew⟩ := listRepositories_isOk root
      (inRoot root repoType repoId
        ((root.dir repoType repoId).setRef reference commit)) rfl
      (by
        rintro otherType otherId ⟨inventory, foundHere⟩
        by_cases here : otherType = repoType ∧ otherId = repoId
        · obtain ⟨rfl, rfl⟩ := here
          simp only [inRoot, and_self, if_true]
          exact ⟨renewed, found⟩
        · simp only [inRoot, here, if_false]
          exact ⟨inventory, foundHere⟩) ⟨summaries, listed⟩
    exact ⟨seen, listRepositories_inRoot (fun _ => same.symm.inventory)
      listedNew, Or.inr listedNew⟩

/-- A temporary file that was left is taken for a ref. -/
theorem not_invisible_of_written
    {temporary text : String}
    (healthy : repositoryInventory repoType repoId
      (some (root.dir repoType repoId)) = .ok old)
    (free : (root.dir repoType repoId).refNode temporary = none)
    (different : temporary ≠ reference)
    (sets : Sets (root.dir repoType repoId) after temporary
      (some (.file (some text)))) :
    ¬Invisible root repoType repoId reference commit old after := by
  intro invisible
  obtain ⟨seen, found, refs, _⟩ := invisible.inventory
  have oldRefs : old.refs.lookup temporary = none := by
    obtain ⟨_, listed, namesOld, summed⟩ :=
      repositoryInventory_eq_ok.mp healthy
    rw [refs_summarizeRevisions summed, namesOld.lookup, free]
    rfl
  have seenRefs : seen.refs.lookup temporary = some (Archive.trim text) := by
    obtain ⟨_, listed, namesNow, summed⟩ := repositoryInventory_eq_ok.mp found
    rw [refs_summarizeRevisions summed, namesNow.lookup, sets.2,
      Function.update_self]
    rfl
  rcases refs with same | same
  · rw [same, oldRefs] at seenRefs
    cases seenRefs
  · rw [same, Finmap.lookup_insert_of_ne _ different, oldRefs] at seenRefs
    cases seenRefs

theorem sameEntries_setRef
    (sets : Sets before after reference (some (.file (some commit)))) :
    SameEntries after (before.setRef reference commit) :=
  ⟨by rw [sets.2, refNode_setRef], sets.1⟩

end readers

/-! ## An update that was cut off early -/

/-- One published revision, and no refs. -/
def sample : RepositoryDir where
  refs := none
  revisions := [("a", ⟨.decoded ⟨true, .model, "org/model", "main", []⟩,
    .missing, .empty⟩)]

def sampleRoot : ArchiveRoot where
  namespaces
    | .model => [("org", ["model"])]
    | .dataset => []
  dir := fun _ _ => sample

def sampleInventory : RepositoryInventory :=
  ⟨.model, "org/model", ∅, [⟨"a", ∅, 0, 0⟩]⟩

/-- The temporary file was created, and nothing was written to it. -/
def sampleLeft : RepositoryDir :=
  { sample with
    refs := some (RefsDir.empty.set (temporaryName "main" "0") "") }

/-- The steps that were taken. -/
def sampleSteps : List (Event interface) :=
  [⟨.isDir "a", true⟩, ⟨.createDirAll, .ok ()⟩, ⟨.operationId, "0"⟩,
    ⟨.createNew (temporaryName "main" "0"), .ok ()⟩]

theorem sample_healthy :
    repositoryInventory .model "org/model" (some (sampleRoot.dir .model
      "org/model")) = .ok sampleInventory := by
  decide +kernel

theorem sample_sets :
    Sets sample sampleLeft (temporaryName "main" "0")
      (some (.file (some ""))) := by
  refine ⟨rfl, ?_⟩
  funext name
  by_cases same : name = temporaryName "main" "0" <;>
    simp [sampleLeft, sample, RefsDir.set, RefsDir.empty,
      RepositoryDir.refNode, same]

theorem sample_cut :
    Cut (logged Effect) (updateRef "org/model" "main" "a").run
      (sampleRoot.dir .model "org/model", []) (sampleLeft, sampleSteps) := by
  have named : validateRepoId "org/model" = .ok ("org", "model") := by
    decide +kernel
  have safe : validateComponent "main" = .ok () := by decide +kernel
  have valid : validateRevision "a" = .ok () := by decide +kernel
  unfold updateRef
  rw [named, safe, valid]
  refine Or.inr ⟨true, (sample, sampleSteps.take 1), ⟨Or.inl ⟨rfl, rfl⟩, rfl⟩,
    Or.inr ⟨.ok (), (sample, sampleSteps.take 2),
      ⟨Or.inl ⟨rfl, rfl, rfl⟩, rfl⟩,
      Or.inr ⟨"0", (sample, sampleSteps.take 3),
        ⟨Or.inl ⟨fun _ => rfl, rfl⟩, rfl⟩,
        Or.inr ⟨.ok (), (sampleLeft, sampleSteps),
          ⟨Or.inl ⟨rfl, sample_sets⟩, rfl⟩, cut_refl _ _⟩⟩⟩⟩

/-- An update that was cut off is invisible unless its temporary file was
left. -/
theorem invisible_iff_not_pending
    (root : ArchiveRoot)
    (repoType : RepositoryType)
    (repoId reference commit : String)
    (old : RepositoryInventory)
    (after : RepositoryDir)
    (steps : List (Event interface))
    (healthy : repositoryInventory repoType repoId
      (some (root.dir repoType repoId)) = .ok old)
    (cut : Cut (logged Effect) (updateRef repoId reference commit).run
      (root.dir repoType repoId, []) (after, steps)) :
    Invisible root repoType repoId reference commit old after ↔
      pending steps = false := by
  have left := (guards_updateRef repoId (root.dir repoType repoId) reference
    commit).of_cut cut
  rcases left with ⟨same, settled⟩ |
    ⟨safe, valid, temporary, free, different, staged⟩
  · exact iff_of_true (invisible_of_unchanged healthy same) settled
  unfold Staged at staged
  dsimp only at staged
  cases stopped : pending steps with
  | true =>
      rw [stopped] at staged
      cases staged with
      | written sets =>
          exact iff_of_false
            (not_invisible_of_written healthy free different sets) (by simp)
  | false =>
      rw [stopped] at staged
      cases staged with
      | unchanged same =>
          exact iff_of_true (invisible_of_unchanged healthy same) rfl
      | updated sets =>
          exact iff_of_true (invisible_of_updated healthy safe valid
            (sameEntries_setRef sets)) rfl

theorem invisible_iff_not_pending_sample :
    Invisible sampleRoot .model "org/model" "main" "a" sampleInventory
      sampleLeft ↔ pending sampleSteps = false :=
  invisible_iff_not_pending sampleRoot .model "org/model" "main" "a"
    sampleInventory sampleLeft sampleSteps sample_healthy sample_cut

/-- An update that was cut off is not always invisible. -/
theorem visible_temporary :
    ¬∀ (root : ArchiveRoot) (repoType : RepositoryType)
      (repoId reference commit : String) (old : RepositoryInventory)
      (after : RepositoryDir),
      repositoryInventory repoType repoId
        (some (root.dir repoType repoId)) = .ok old →
      Cut Effect (updateRef repoId reference commit).run
        (root.dir repoType repoId) after →
      Invisible root repoType repoId reference commit old after := by
  intro invisible
  have seen := invisible sampleRoot .model "org/model" "main" "a"
    sampleInventory sampleLeft sample_healthy sample_cut.of_logged
  exact not_invisible_of_written sample_healthy rfl
    (temporaryName_ne "main" "0") sample_sets seen

end Refs
end ModelKeep
