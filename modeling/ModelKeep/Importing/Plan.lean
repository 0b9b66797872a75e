import ModelKeep.Importing.Effects
import ModelKeep.Replay

/-!
# What an import is for

A cache asks for a list of acts: a revision for every snapshot, unless there is
one, and a ref for every ref.  What a pass over them leaves does not depend on
how many passes were cut off before it.
-/

namespace ModelKeep
namespace Importing

open Concurrency Program Replay

/-! ## Acts -/

/-- What the readers go by. -/
structure Shown where
  revisions : Repository → List (String × RevisionDir)
  refNode : Repository × String → Option RefNode
  occupied : Repository → String → Bool

/-- What the cache asks for. -/
inductive Item
  | publish (repoType : RepositoryType)
      (request : Publishing.PublishRequest)
  | setRef (repository : Repository) (reference commit : String)
  /-- Something that cannot be read. -/
  | unreadable

namespace Shown

variable (shown : Shown)

def revision (repository : Repository) (commit : String) :
    Option RevisionDir :=
  (shown.revisions repository).lookup commit

def isPublished (repository : Repository) (commit : String) : Bool :=
  (shown.revision repository commit).isSome ||
    shown.occupied repository commit

def putRevision (repository : Repository) (commit : String)
    (revision : RevisionDir) : Shown :=
  { shown with
    revisions := Function.update shown.revisions repository
      ((commit, revision) :: (shown.revisions repository).filter
        fun entry => entry.1 ≠ commit) }

end Shown

/-- What the readers go by in an archive. -/
def World.shown (world : World) : Shown where
  revisions := fun repository => (world.dir repository).revisions
  refNode := fun key => (world.dir key.1).refNode key.2
  occupied := world.occupied

/-- What is checked of a ref before anything is done. -/
def checkRef (repository : Repository) (reference commit : String) :
    Except ArchiveError Unit := do
  let _ ← validateRepoId repository.repoId
  validateComponent reference
  validateRevision commit

namespace Item

/-- The assignments to refs. -/
def writes : Item → List ((Repository × String) × Option RefNode)
  | .setRef repository reference commit =>
      [((repository, reference), some (.file (some commit)))]
  | _ => []

variable (sha256 : Bytes → String)

/-- A revision is put in place unless there is one; a ref is set if there is
its revision. -/
def apply : Item → Shown → Option Shown
  | .publish repoType request, shown =>
      match Operations.checkSource (.files request) with
      | .error _ => none
      | .ok () =>
          if shown.isPublished ⟨repoType, request.repoId⟩ request.commit then
            some shown
          else
            match Publishing.writeRevision sha256 repoType request with
            | .error _ => none
            | .ok revision => some (shown.putRevision
                ⟨repoType, request.repoId⟩ request.commit revision)
  | .setRef repository reference commit, shown =>
      match checkRef repository reference commit with
      | .error _ => none
      | .ok () =>
          if (shown.revision repository commit).isNone ∨
              shown.refNode (repository, reference) = some .directory then
            none
          else
            some { shown with
              refNode := Function.update shown.refNode
                (repository, reference) (some (.file (some commit))) }
  | .unreadable, _ => none

/-- What the report says after the act. -/
def count (shown : Shown) (report : ImportReport) : Item → ImportReport
  | .publish repoType request =>
      if shown.isPublished ⟨repoType, request.repoId⟩ request.commit then
        report
      else
        { report with revisions := report.revisions + 1 }
  | .setRef _ _ _ => { report with refs := report.refs + 1 }
  | .unreadable => report

/-- An act, with the report. -/
def step (item : Item) (state : Shown × ImportReport) :
    Option (Shown × ImportReport) :=
  (item.apply sha256 state.1).map fun shown =>
    (shown, item.count state.1 state.2)

/-- The act would only write the ref once more. -/
structure Settled (item : Item) (shown : Shown) : Prop where
  done : match item with
    | .publish repoType request =>
        Operations.checkSource (.files request) = .ok () ∧
          shown.isPublished ⟨repoType, request.repoId⟩ request.commit = true
    | .setRef repository reference commit =>
        checkRef repository reference commit = .ok () ∧
          (shown.revision repository commit).isSome
    | .unreadable => False
  writable : ∀ write ∈ item.writes,
    shown.refNode write.1 ≠ some .directory

/-- The refs are written. -/
def write (shown : Shown) (item : Item) : Shown :=
  { shown with refNode := assign item.writes shown.refNode }

end Item

/-! ## Acts can be repeated -/

section acts

variable {sha256 : Bytes → String} {item : Item} {before after : Shown}

/-- What was there stays, and the refs are as they were assigned. -/
structure Grown (before after : Shown) (item : Item) : Prop where
  revision : ∀ repository commit,
    (before.revision repository commit).isSome →
      (after.revision repository commit).isSome
  occupied : after.occupied = before.occupied
  refNode : after.refNode = assign item.writes before.refNode

theorem Grown.isPublished
    (grown : Grown before after item)
    {repository : Repository}
    {commit : String}
    (published : before.isPublished repository commit = true) :
    after.isPublished repository commit = true := by
  unfold Shown.isPublished at published ⊢
  rw [Bool.or_eq_true] at published ⊢
  rw [grown.occupied]
  exact published.imp_left (grown.revision repository commit)

theorem revision_putRevision
    (shown : Shown)
    (repository other : Repository)
    (commit name : String)
    (revision : RevisionDir) :
    (shown.putRevision repository commit revision).revision other name =
      if other = repository ∧ name = commit then some revision
      else shown.revision other name := by
  unfold Shown.putRevision Shown.revision
  by_cases here : other = repository
  · subst here
    simp only [Function.update_self, true_and]
    exact RepositoryDir.revision_putRevision ⟨none, shown.revisions other⟩
      commit name revision
  · simp only [Function.update_of_ne here, here, false_and, if_false]

theorem grown_of_apply (applied : item.apply sha256 before = some after) :
    Grown before after item := by
  cases item with
  | publish repoType request =>
      simp only [Item.apply] at applied
      split at applied
      · cases applied
      · split at applied
        · cases applied
          exact ⟨fun _ _ => id, rfl, rfl⟩
        · split at applied
          · cases applied
          · cases applied
            refine ⟨fun repository commit present => ?_, rfl, rfl⟩
            rw [revision_putRevision]
            split
            · rfl
            · exact present
  | setRef repository reference commit =>
      simp only [Item.apply] at applied
      split at applied
      · cases applied
      · split at applied
        · cases applied
        · cases applied
          exact ⟨fun _ _ => id, rfl, rfl⟩
  | unreadable => cases applied

theorem not_directory_of_mem_writes
    {write : (Repository × String) × Option RefNode}
    (member : write ∈ item.writes) :
    write.2 ≠ some .directory := by
  cases item with
  | setRef repository reference commit =>
      rw [Item.writes, List.mem_singleton] at member
      subst member
      simp
  | publish repoType request => cases member
  | unreadable => cases member

theorem settled_of_apply (applied : item.apply sha256 before = some after) :
    item.Settled after := by
  cases item with
  | publish repoType request =>
      refine ⟨?_, fun _ member => nomatch member⟩
      simp only [Item.apply] at applied
      split at applied
      · cases applied
      · next checked =>
          refine ⟨checked, ?_⟩
          split at applied
          · next published =>
              cases applied
              exact published
          · split at applied
            · cases applied
            · cases applied
              unfold Shown.isPublished
              rw [revision_putRevision]
              simp
  | setRef repository reference commit =>
      simp only [Item.apply] at applied
      split at applied
      · cases applied
      · next checked =>
          split at applied
          · cases applied
          · next fits =>
              rw [not_or, Option.isNone_iff_eq_none, ← ne_eq,
                ← Option.isSome_iff_ne_none] at fits
              cases applied
              refine ⟨⟨checked, fits.1⟩, ?_⟩
              intro write member
              rw [Item.writes, List.mem_singleton] at member
              subst member
              simp
  | unreadable => cases applied

theorem Item.Settled.after_apply
    {other : Item}
    (settled : item.Settled before)
    (applied : other.apply sha256 before = some after) :
    item.Settled after := by
  have grown := grown_of_apply applied
  refine ⟨?_, ?_⟩
  · cases item with
    | publish repoType request =>
        exact ⟨settled.done.1, grown.isPublished settled.done.2⟩
    | setRef repository reference commit =>
        exact ⟨settled.done.1, grown.revision _ _ settled.done.2⟩
    | unreadable => exact settled.done.elim
  · intro write member
    rw [grown.refNode]
    have keeps := @assign_keeps _ _ _ (· ≠ some RefNode.directory)
      other.writes before.refNode write.1
    exact keeps (settled.writable write member)
      fun _ later => not_directory_of_mem_writes later

theorem apply_of_settled (settled : item.Settled before) :
    item.apply sha256 before = some (item.write before) := by
  obtain ⟨done, writable⟩ := settled
  cases item with
  | publish repoType request =>
      simp only [Item.apply, done.1, done.2, if_true]
      rfl
  | setRef repository reference commit =>
      have fits : ¬((before.revision repository commit).isNone = true ∨
          before.refNode (repository, reference) = some .directory) := by
        rw [not_or]
        refine ⟨?_, writable _ (List.mem_singleton_self _)⟩
        rw [Option.isNone_iff_eq_none, ← ne_eq, ← Option.isSome_iff_ne_none]
        exact done.2
      simp only [Item.apply, done.1, if_neg fits]
      rfl
  | unreadable => exact done.elim

/-- The assignments of all acts. -/
def writesOf (items : List Item) :
    List ((Repository × String) × Option RefNode) :=
  items.flatMap Item.writes

theorem refNode_of_replay
    {items : List Item}
    (pass : replay (Item.apply sha256) items before = some after) :
    after.refNode = assign (writesOf items) before.refNode := by
  induction items generalizing before with
  | nil =>
      cases pass
      rfl
  | cons first rest inductionHypothesis =>
      obtain ⟨middle, applied, remaining⟩ := Option.bind_eq_some_iff.mp pass
      rw [inductionHypothesis remaining, (grown_of_apply applied).refNode]
      exact (assign_append ..).symm

theorem foldl_write (items : List Item) (shown : Shown) :
    items.foldl Item.write shown =
      { shown with refNode := assign (writesOf items) shown.refNode } := by
  induction items generalizing shown with
  | nil => rfl
  | cons first rest inductionHypothesis =>
      rw [List.foldl_cons, inductionHypothesis]
      simp only [Item.write, writesOf, List.flatMap_cons, assign_append]

/-- No pass changes anything when it is done once more. -/
theorem repeats_apply (sha256 : Bytes → String) :
    Repeats (Item.apply sha256) := by
  refine @repeats_of_settled Item Shown _ Item.Settled Item.write
    ?_ ?_ ?_ ?_
  · exact fun _ _ _ => settled_of_apply
  · exact fun _ _ _ _ => Item.Settled.after_apply
  · exact fun _ _ => apply_of_settled
  · intro items before after pass
    rw [foldl_write, refNode_of_replay pass, assign_assign,
      ← refNode_of_replay pass]

end acts


/-! ## What a cache asks for -/

/-- What the copy of a file finds, of a source below the root. -/
def Cache.content (cache : Cache) (sourceRoot : List String)
    (file : FileSystem.SourceFile) : Except ArchiveError Bytes := do
  let source ← cache.disk.canonicalize file.source
  if ¬sourceRoot <+: source then
    .error (.invalidPath file.path)
  else
    match cache.disk.metadata source with
    | .ok (.file content) => .ok content
    | _ => .error (.invalidPath file.path)

namespace Cache

variable (cache : Cache)

def archiveFile (sourceRoot : List String) (file : FileSystem.SourceFile) :
    Publishing.ArchiveFile :=
  ⟨file.path, cache.content sourceRoot file⟩

/-- What one entry adds to the files of a snapshot. -/
def collectEntry (snapshot : List String)
    (descend : List String → List FileSystem.SourceFile →
      Option (List FileSystem.SourceFile))
    (path : List String) (files : List FileSystem.SourceFile) :
    Option (List FileSystem.SourceFile) :=
  match cache.disk.symlinkMetadata path with
  | .error _ => none
  | .ok .directory => descend path files
  | .ok _ =>
      some (files ++
        [⟨joinPath ((path.drop snapshot.length).map cache.text), path⟩])

/-- The files of a snapshot, if all of it can be read. -/
def collectFiles (snapshot : List String) :
    Nat → List String → List FileSystem.SourceFile →
      Option (List FileSystem.SourceFile)
  | 0, _, _ => none
  | levels + 1, current, files =>
      match cache.readDir current with
      | .error _ => none
      | .ok names => names.foldlM (fun files name =>
          cache.collectEntry snapshot (collectFiles snapshot levels)
            (current ++ [name]) files) files

/-- The publication of a snapshot with these files. -/
def publishItem (repoType : RepositoryType)
    (request : FileSystem.SourcePublishRequest) : Item :=
  match cache.disk.canonicalize request.sourceRoot with
  | .error _ => .unreadable
  | .ok sourceRoot =>
      match cache.disk.metadata sourceRoot with
      | .ok .directory => .publish repoType ⟨request.repoId,
          request.requestedRevision, request.commit,
          request.files.map (cache.archiveFile sourceRoot)⟩
      | _ => .unreadable

/-- What one entry of `snapshots` asks for. -/
def snapshotItems (repository : Repository) (directory path : List String)
    (name : String) : List Item :=
  match cache.disk.symlinkMetadata path with
  | .error _ => [.unreadable]
  | .ok .directory =>
      match cache.collectFiles path FileSystem.Setting.pathMax path [] with
      | none => [.unreadable]
      | some files =>
          if files = [] then []
          else [cache.publishItem repository.repoType ⟨repository.repoId,
            cache.text name, cache.text name, directory, files⟩]
  | .ok _ => []

/-- What one entry of `refs` asks for. -/
def refItems (repository : Repository) (path : List String)
    (name : String) : List Item :=
  match cache.disk.symlinkMetadata path with
  | .error _ => [.unreadable]
  | .ok (.file _) =>
      match cache.disk.readToString path with
      | .error _ => [.unreadable]
      | .ok text =>
          if Archive.trim text = "" then []
          else [.setRef repository (cache.text name) (Archive.trim text)]
  | .ok _ => []

/-- What the entries of a directory ask for. -/
def entriesItems (directory : List String) (items : String → List Item) :
    List Item :=
  match cache.readDir directory with
  | .error _ => [.unreadable]
  | .ok names => names.flatMap items

/-- What one entry of the cache asks for. -/
def repositoryItems (path : List String) (name : String) : List Item :=
  match cache.disk.symlinkMetadata path with
  | .error _ => [.unreadable]
  | .ok .directory =>
      match decodeRepositoryName (cache.text name) with
      | none => []
      | some repository =>
          let snapshots := path ++ ["snapshots"]
          let refs := path ++ ["refs"]
          if cache.disk.isDir snapshots = false then []
          else
            cache.entriesItems snapshots (fun name =>
                cache.snapshotItems repository path (snapshots ++ [name])
                  name) ++
              if cache.disk.isDir refs = false then []
              else cache.entriesItems refs fun name =>
                cache.refItems repository (refs ++ [name]) name
  | .ok _ => []

/-- What a cache asks for. -/
def plan (cacheRoot : List String) : List Item :=
  match cache.disk.canonicalize cacheRoot with
  | .error _ => [.unreadable]
  | .ok root => cache.entriesItems root fun name =>
      cache.repositoryItems (root ++ [name]) name

end Cache

end Importing
end ModelKeep
