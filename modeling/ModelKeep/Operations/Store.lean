import ModelKeep.Concurrency.Calls
import ModelKeep.ExtensionSafety
import ModelKeep.Publishing.Reuse
import ModelKeep.Refs.Update

/-!
# Operations on one repository

Publications, extensions, updates of refs and removals of revisions, step by
step, on one repository.  Nothing but the lock of an extension keeps two calls
apart.  What a publication stages is its own until it is renamed into place.
-/

namespace ModelKeep

namespace RepositoryDir

/-- A revision is put in place, or replaces the one there. -/
def putRevision (repository : RepositoryDir) (commit : String)
    (revision : RevisionDir) : RepositoryDir :=
  { repository with
    revisions := (commit, revision) ::
      repository.revisions.filter fun entry => entry.1 ≠ commit }

def dropRevision (repository : RepositoryDir) (commit : String) :
    RepositoryDir :=
  { repository with
    revisions := repository.revisions.filter fun entry => entry.1 ≠ commit }

theorem lookup_filter_of_ne
    {revisions : List (String × RevisionDir)}
    {commit other : String}
    (different : other ≠ commit) :
    (revisions.filter fun entry => entry.1 ≠ commit).lookup other =
      revisions.lookup other := by
  induction revisions with
  | nil => rfl
  | cons entry rest inductionHypothesis =>
      obtain ⟨name, revision⟩ := entry
      by_cases same : name = commit
      · subst same
        rw [List.filter_cons_of_neg (by simp), inductionHypothesis,
          List.lookup_cons]
        simp [beq_false_of_ne different]
      · rw [List.filter_cons_of_pos (by simpa using same),
          List.lookup_cons, List.lookup_cons, inductionHypothesis]

theorem lookup_filter_self
    (revisions : List (String × RevisionDir))
    (commit : String) :
    (revisions.filter fun entry => entry.1 ≠ commit).lookup commit =
      none := by
  induction revisions with
  | nil => rfl
  | cons entry rest inductionHypothesis =>
      obtain ⟨name, revision⟩ := entry
      by_cases same : name = commit
      · subst same
        rw [List.filter_cons_of_neg (by simp), inductionHypothesis]
      · rw [List.filter_cons_of_pos (by simpa using same),
          List.lookup_cons, inductionHypothesis]
        simp [beq_false_of_ne (Ne.symm same)]

@[simp] theorem revision_putRevision
    (repository : RepositoryDir)
    (commit other : String)
    (revision : RevisionDir) :
    (repository.putRevision commit revision).revision other =
      if other = commit then some revision
      else repository.revision other := by
  unfold putRevision RepositoryDir.revision
  rw [List.lookup_cons]
  by_cases same : other = commit
  · simp [same]
  · simp only [beq_false_of_ne same, if_neg same]
    exact lookup_filter_of_ne same

@[simp] theorem revision_dropRevision
    (repository : RepositoryDir)
    (commit other : String) :
    (repository.dropRevision commit).revision other =
      if other = commit then none else repository.revision other := by
  unfold dropRevision RepositoryDir.revision
  by_cases same : other = commit
  · rw [if_pos same, same]
    exact lookup_filter_self ..
  · rw [if_neg same]
    exact lookup_filter_of_ne same

@[simp] theorem refNode_putRevision
    (repository : RepositoryDir)
    (commit : String)
    (revision : RevisionDir) :
    (repository.putRevision commit revision).refNode =
      repository.refNode := rfl

@[simp] theorem refNode_dropRevision
    (repository : RepositoryDir)
    (commit : String) :
    (repository.dropRevision commit).refNode = repository.refNode := rfl

end RepositoryDir

/-! ## Taking a revision apart -/

/-- What lies in a revision directory. -/
inductive Entry
  | manifest
  | upstreamFiles
  | node (path : List String)

namespace RevisionDir

/-- A directory with nothing in it. -/
def blank : RevisionDir := ⟨.missing, .missing, .empty⟩

def Has (revision : RevisionDir) : Entry → Prop
  | .manifest => revision.manifest ≠ .missing
  | .upstreamFiles => revision.upstreamFiles ≠ .missing
  | .node path => path ∈ revision.tree.paths

/-- The entries of a revision, each before the directory it is in. -/
structure ListedBy (revision : RevisionDir) (entries : List Entry) :
    Prop where
  nodup : entries.Nodup
  mem : ∀ entry, entry ∈ entries ↔ revision.Has entry
  order : entries.Pairwise fun earlier later =>
    ∀ above below, earlier = .node above → later = .node below →
      ¬above <+: below

/-- One entry is removed. -/
def RemovedEntry (revision : RevisionDir) :
    Entry → RevisionDir → Prop
  | .manifest, after => revision.manifest ≠ .missing ∧
      after = { revision with manifest := .missing }
  | .upstreamFiles, after => revision.upstreamFiles ≠ .missing ∧
      after = { revision with upstreamFiles := .missing }
  | .node path, after => ∃ tree, revision.tree.remove path = some tree ∧
      after = { revision with tree := tree }

/-- Nothing is left in the directory. -/
def Vacant (revision : RevisionDir) : Prop :=
  ∀ entry, ¬revision.Has entry

end RevisionDir

namespace Operations

open Concurrency Program

/-! ## The steps -/

inductive Op
  | ref (op : Refs.Op)
  | extend (commit : String) (op : Extension.Op)
  /-- `create_dir_all` of `revisions`. -/
  | createRevisions
  | isPublished (commit : String)
  /-- Rename a staging directory into place. -/
  | renameStaging (commit : String) (revision : RevisionDir)
  | syncRevisions
  | listRefs
  /-- The text of an entry of `refs`, if it is a regular file. -/
  | readRef (name : String)
  | listRevision (commit : String)
  | removeEntry (commit : String) (entry : Entry)
  | removeRoot (commit : String)

abbrev Op.Reply : Op → Type
  | .ref op => op.Reply
  | .extend _ op => op.Reply
  | .isPublished _ => Bool
  | .listRefs => List String
  | .readRef _ => Except ArchiveError (Option String)
  | .listRevision _ => Except ArchiveError (List Entry)
  | _ => Except ArchiveError Unit

abbrev interface : Interface := ⟨Op, Op.Reply⟩

abbrev Action (α : Type) : Type := ExceptT ArchiveError (Program interface) α

def perform (op : Op) : Program interface op.Reply := .call op .done

/-- The steps of an update, as steps on the repository. -/
def refSteps : Embedding Refs.interface interface := ⟨.ref, fun _ => id⟩

/-- The steps of an extension of a commit, as steps on the repository. -/
def extensionSteps (commit : String) :
    Embedding Extension.interface interface :=
  ⟨.extend commit, fun _ => id⟩

/-! ## The calls -/

/-- The rename of a publication, and what its failure is called. -/
def renameStaging (commit : String) (revision : RevisionDir) :
    Action Unit := do
  match ← always (perform (.renameStaging commit revision)) with
  | .ok () => attempt (perform .syncRevisions)
  | .error error =>
      if ← always (perform (.isPublished commit)) then
        check (.error (.alreadyPublished commit))
      else
        check (.error error)

/-- What is checked of a publication before anything is done. -/
def checkSource (source : Publishing.Source) : Except ArchiveError Unit := do
  let _ ← validateRepoId source.repoId
  validateComponent source.requestedRevision
  validateRevision source.commit
  if source.paths = [] then
    .error (.invalidPath "revision has no files")
  else
    .ok ()

/-- `publish_revision_for_type`, and its variant for a directory. -/
def publish (sha256 : Bytes → String) (repoType : RepositoryType)
    (source : Publishing.Source) : Action Unit := do
  check (checkSource source)
  attempt (perform .createRevisions)
  if ← always (perform (.isPublished source.commit)) then
    check (.error (.alreadyPublished source.commit))
  else do
    let revision ← check (source.revision sha256 repoType)
    renameStaging source.commit revision

/-- The loop of a removal over the entries of `refs`. -/
def referencesTo (commit : String) :
    List String → List String → Action (List String)
  | [], references => check (.ok references)
  | name :: rest, references => do
      match ← attempt (perform (.readRef name)) with
      | some text =>
          if Archive.trim text = commit then
            referencesTo commit rest (references ++ [name])
          else
            referencesTo commit rest references
      | none => referencesTo commit rest references

/-- `remove_dir_all` below the directory itself. -/
def removeEntries (commit : String) : List Entry → Action Unit
  | [] => check (.ok ())
  | entry :: rest => do
      attempt (perform (.removeEntry commit entry))
      removeEntries commit rest

/-- `remove_dir_all` of a revision. -/
def removeAll (commit : String) : Action Unit := do
  let entries ← attempt (perform (.listRevision commit))
  removeEntries commit entries
  attempt (perform (.removeRoot commit))

/-- `remove_revision_for_type`. -/
def removeRevision (repoId commit : String) (dryRun : Bool) :
    Action Unit := do
  let _ ← check (validateRepoId repoId)
  check (validateRevision commit)
  if (← always (perform (.ref (.isDir commit)))) = false then
    check (.error (.io .notFound))
  else do
    let names ← always (perform .listRefs)
    let references ← referencesTo commit names []
    if references ≠ [] then
      check (.error (.referencedRevision (references.insertionSort (· ≤ ·))))
    else if dryRun then
      check (.ok ())
    else do
      removeAll commit
      attempt (perform .syncRevisions)

/-- A call on the repository. -/
inductive Call
  | updateRef (repoId reference commit : String)
  | extend (request : RevisionExtensionRequest)
  | publish (source : Publishing.Source)
  | remove (repoId commit : String) (dryRun : Bool)

namespace Call

/-- The commit a call is about. -/
def commit : Call → String
  | .updateRef _ _ commit => commit
  | .extend request => request.commit
  | .publish source => source.commit
  | .remove _ commit _ => commit

/-- The ref that a call writes. -/
def reference : Call → Option String
  | .updateRef _ reference _ => some reference
  | _ => none

/-- Whether the call is a removal, if only a dry run. -/
def isRemoval : Call → Bool
  | .remove _ _ _ => true
  | _ => false

/-- Whether the call deletes a revision. -/
def removes : Call → Bool
  | .remove _ _ dryRun => !dryRun
  | _ => false

/-- What an extension was asked for. -/
def request : Call → RevisionExtensionRequest
  | .extend request => request
  | _ => ⟨"", "", []⟩

/-- What the call does.  Only whether it succeeds is kept. -/
def program (sha256 : Bytes → String) (repoType : RepositoryType) :
    Call → Program interface (Except ArchiveError Unit)
  | .updateRef repoId reference commit =>
      (Refs.updateRef repoId reference commit).run.embed refSteps
  | .extend request => do
      let outcome ← (Extension.extendRevision sha256 repoType request).run.embed
        (extensionSteps request.commit)
      return outcome.map fun _ => ()
  | .publish source => (Operations.publish sha256 repoType source).run
  | .remove repoId commit dryRun =>
      (removeRevision repoId commit dryRun).run

end Call

/-! ## What the steps do -/

variable {ι : Type}

/-- What the calls share.  Which files an extension has moved, which operation
id an update has drawn, which temporary file it has and which revision a
removal is taking apart are recorded for the statements only. -/
structure Store (ι : Type) where
  dir : RepositoryDir
  lock : String → Option ι
  part : ι → Extension.PartFile
  placed : ι → List String
  drawn : ι → Option String
  temporary : ι → Option String
  removing : ι → Option String

namespace Store

/-- A revision and what the extensions of it hold. -/
def shared (store : Store ι) (commit : String) (revision : RevisionDir) :
    Extension.Shared ι :=
  ⟨revision, store.lock commit, store.part, store.placed⟩

/-- The same for whatever stands at the commit. -/
def view (store : Store ι) (commit : String) : Extension.Shared ι :=
  store.shared commit ((store.dir.revision commit).getD .blank)

/-- What the extensions of a commit hold, beside its directory. -/
def setHeld (store : Store ι) (commit : String)
    (shared : Extension.Shared ι) : Store ι :=
  { store with
    lock := Function.update store.lock commit shared.lock
    part := shared.part
    placed := shared.placed }

def setShared (store : Store ι) (commit : String)
    (shared : Extension.Shared ι) : Store ι :=
  { store.setHeld commit shared with
    dir := store.dir.putRevision commit shared.revision }

end Store

/-- An operation id is random: no name that is made with it exists, belongs to
another call, or is asked for as a ref. -/
def Unused (calls : ι → Call) (store : Store ι) (actor : ι) (id : String) :
    Prop :=
  ∀ reference,
    store.dir.refNode (Refs.temporaryName reference id) = none ∧
    (∀ other drawn, other ≠ actor → store.drawn other = some drawn →
      ∀ name, Refs.temporaryName reference id ≠
        Refs.temporaryName name drawn) ∧
    ∀ other, (calls other).reference ≠
      some (Refs.temporaryName reference id)

section exec

variable [DecidableEq ι]

/-- The operation id a call has drawn. -/
def drawnAfter (before : Option String) :
    (op : Refs.Op) → op.Reply → Option String
  | .operationId, id => some id
  | _, _ => before

/-- The temporary file a call has. -/
def temporaryAfter (before : Option String) :
    (op : Refs.Op) → op.Reply → Option String
  | .createNew name, .ok () => some name
  | .rename _ _, .ok () => none
  | .removeFile _, .ok () => none
  | _, _ => before

/-- The steps of an update.  Any may be refused but the removal of the
temporary file. -/
def execRef (calls : ι → Call) (actor : ι) (op : Refs.Op)
    (before : Store ι) (reply : op.Reply) (after : Store ι) : Prop :=
  (Refs.Succeeds op before.dir reply after.dir ∨
      (∀ name, op ≠ .removeFile name) ∧
        Refs.Refuses op before.dir reply after.dir) ∧
    (∀ id, drawnAfter none op reply = some id →
      Unused calls before actor id) ∧
    after = { before with
      dir := after.dir
      drawn := Function.update before.drawn actor
        (drawnAfter (before.drawn actor) op reply)
      temporary := Function.update before.temporary actor
        (temporaryAfter (before.temporary actor) op reply) }

/-- The steps of an extension when there is no directory at the commit: what
needs one fails, and what makes directories makes it. -/
def execMissing (repoType : RepositoryType) (actor : ι) (commit : String) :
    (op : Extension.Op) → Store ι → op.Reply → Store ι → Prop
  | .revisionIsDir, before, reply, after => reply = false ∧ after = before
  | .readManifest, before, reply, after =>
      reply = .error (.io .notFound) ∧ after = before
  | .renamePart, before, reply, after =>
      reply = .error (.io .notFound) ∧ after = before
  | .createDirectory path, before, reply, after => ∃ shared,
      Extension.exec repoType actor (.createDirectory path)
          (before.view commit) reply shared ∧
        after = before.setShared commit shared
  | .moveFile path content, before, reply, after => ∃ shared,
      Extension.exec repoType actor (.moveFile path content)
          (before.view commit) reply shared ∧
        after = before.setShared commit shared
  | op, before, reply, after => ∃ shared,
      Extension.exec repoType actor op (before.view commit) reply shared ∧
        after = before.setHeld commit shared

/-- `remove_dir_all` passes over an entry that is gone. -/
def execRemove (commit : String) (entry : Entry) (before : Store ι)
    (reply : Except ArchiveError Unit) (after : Store ι) : Prop :=
  (∃ revision left, before.dir.revision commit = some revision ∧
      revision.RemovedEntry entry left ∧ reply = .ok () ∧
      after = { before with dir := before.dir.putRevision commit left }) ∨
    ((∀ revision, before.dir.revision commit = some revision →
        ¬revision.Has entry) ∧
      reply = .ok () ∧ after = before) ∨
    ((∃ revision, before.dir.revision commit = some revision ∧
        revision.Has entry ∧ ∀ left, ¬revision.RemovedEntry entry left) ∧
      reply = .error (.io .other) ∧ after = before)

/-- `rmdir` of the revision itself. -/
def execRemoveRoot (actor : ι) (commit : String) (before : Store ι)
    (reply : Except ArchiveError Unit) (after : Store ι) : Prop :=
  match before.dir.revision commit with
  | none => reply = .error (.io .notFound) ∧
      after = { before with
        removing := Function.update before.removing actor none }
  | some revision =>
      (revision.Vacant ∧ reply = .ok () ∧
        after = { before with
          dir := before.dir.dropRevision commit
          removing := Function.update before.removing actor none }) ∨
      (¬revision.Vacant ∧ reply = .error (.io .other) ∧ after = before)

/-- The steps of one call.  What a removal deletes it is allowed to delete;
anything else may fail. -/
def exec (repoType : RepositoryType) (calls : ι → Call) (actor : ι) :
    Semantics interface (Store ι)
  | .ref op, before, reply, after => execRef calls actor op before reply after
  | .extend commit op, before, reply, after =>
      match before.dir.revision commit with
      | some revision => ∃ shared,
          Extension.exec repoType actor op (before.shared commit revision)
              reply shared ∧
            after = before.setShared commit shared
      | none => execMissing repoType actor commit op before reply after
  | .createRevisions, before, _, after => after = before
  | .isPublished commit, before, reply, after =>
      reply = (before.dir.revision commit).isSome ∧ after = before
  | .renameStaging commit revision, before, reply, after =>
      (reply = .ok () ∧
        (∀ found, before.dir.revision commit = some found → found.Vacant) ∧
        after = { before with dir := before.dir.putRevision commit revision }) ∨
      ((∃ kind, reply = .error (.io kind)) ∧ after = before)
  | .syncRevisions, before, _, after => after = before
  | .listRefs, before, names, after =>
      (∀ name, name ∈ names ↔ (before.dir.refNode name).isSome) ∧
        after = before
  | .readRef name, before, reply, after =>
      after = before ∧
        ((∃ kind, reply = .error (.io kind)) ∨
          match before.dir.refNode name with
          | some (.file (some text)) => reply = .ok (some text)
          | some .directory => reply = .ok none
          | some (.link _) => reply = .ok none
          | _ => False)
  | .listRevision commit, before, reply, after =>
      ((∃ kind, reply = .error (.io kind)) ∧ after = before) ∨
        ∃ revision entries, before.dir.revision commit = some revision ∧
          reply = .ok entries ∧ revision.ListedBy entries ∧
          after = { before with
            removing := Function.update before.removing actor (some commit) }
  | .removeEntry commit entry, before, reply, after =>
      execRemove commit entry before reply after
  | .removeRoot commit, before, reply, after =>
      execRemoveRoot actor commit before reply after

end exec

/-- One call deletes the revision that another, which is not a removal, is
about. -/
def Deletes (calls : ι → Call) (actor other : ι) : Prop :=
  (calls actor).commit = (calls other).commit ∧
    (calls actor).removes = true ∧ (calls other).isRemoval = false

/-- The two calls must not overlap. -/
def Conflict (calls : ι → Call) (actor other : ι) : Prop :=
  Deletes calls actor other ∨ Deletes calls other actor

end Operations
end ModelKeep
