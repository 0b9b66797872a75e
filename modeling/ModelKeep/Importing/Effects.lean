import ModelKeep.Importing.Import

/-!
# What the steps of an import do

An import changes three things: its staging directory, the list of revisions
when that is renamed into place, and the refs.  Any step may be refused; one
that was at work in a staging directory may have left anything there.
-/

namespace ModelKeep
namespace Importing

open Concurrency Program

/-! ## Answers of the cache -/

namespace Cache

variable (cache : Cache)

def disk : Disk := ⟨cache.tree, [], cache.refusal⟩

/-- `fs::read_dir`. -/
def readDir (path : List String) : Except ArchiveError (List String) := do
  let place ← cache.disk.canonicalize path
  if cache.tree.isDirectory place then
    .ok (cache.listing place)
  else
    .error (.io .notADirectory)

def answer : (op : Look) → Except ArchiveError op.Answer
  | .canonicalize path => cache.disk.canonicalize path
  | .readDir path => cache.readDir path
  | .nextEntry _ => .ok ()
  | .fileType path => cache.disk.symlinkMetadata path
  | .metadata path => cache.disk.metadata path
  | .openFile path => (cache.disk.metadata path).map fun _ => ()
  | .readToString path => cache.disk.readToString path

end Cache

/-! ## The archive -/

/-- The archive.  A repository has its refs and the directories below
`revisions`; what else stands there only takes up a name. -/
structure World where
  dir : Repository → RepositoryDir
  occupied : Repository → String → Bool
  /-- The staging directories. -/
  staging : String → Option RevisionDir
  names : Finset String
  mem_names : ∀ name, (staging name).isSome → name ∈ names

namespace World

def setDir (world : World) (repository : Repository) (dir : RepositoryDir) :
    World :=
  { world with dir := Function.update world.dir repository dir }

def setStaging (world : World) (staging : String)
    (revision : Option RevisionDir) : World :=
  { world with
    staging := Function.update world.staging staging revision
    names := Insert.insert staging world.names
    mem_names := by
      intro name present
      by_cases same : name = staging
      · rw [same]
        exact Finset.mem_insert_self ..
      · rw [Function.update_of_ne same] at present
        exact Finset.mem_insert_of_mem (world.mem_names name present) }

/-- `Path::exists` of a revision. -/
def isPublished (world : World) (repository : Repository)
    (commit : String) : Bool :=
  ((world.dir repository).revision commit).isSome ||
    world.occupied repository commit

/-- A directory can be renamed to where nothing is but an empty
directory. -/
def Free (world : World) (repository : Repository) (commit : String) :
    Prop :=
  world.occupied repository commit = false ∧
    ∀ revision, (world.dir repository).revision commit = some revision →
      revision.Vacant

end World

/-- What a step makes of a staging directory when it succeeds. -/
def StageOp.apply (revision : RevisionDir) : StageOp → Option RevisionDir
  | .createDirAll place => do
      let tree ← revision.tree.makeDirectories place
      return { revision with tree := tree }
  | .createNew place => do
      let tree ← revision.tree.createFile place []
      return { revision with tree := tree }
  | .append place content =>
      match revision.tree.lookup place with
      | some (.file written) => do
          let tree ← revision.tree.placeFile place (written ++ content)
          return { revision with tree := tree }
      | _ => none
  | .syncAll _ => some revision
  | .createManifest =>
      match Publishing.createManifest revision.tree with
      | .ok tree => some { revision with
          manifest := .unreadable "EOF while parsing a value"
          tree := tree }
      | .error _ => none
  | .writeManifest manifest =>
      some { revision with manifest := .decoded manifest }
  | .syncManifest => some revision
  | .syncDirectory => some revision
  | .removeLease => some { revision with
      tree := Publishing.removeStagingLease revision.tree }

/-- A directory that `create_staging` has made. -/
def freshStaging : RevisionDir :=
  ⟨.missing, .missing, Publishing.freshStaging⟩

/-! ## The steps -/

/-- A step that is not refused. -/
def Succeeds (cache : Cache) : (op : Op) → World → op.Reply → World → Prop
  | .look op, before, reply, after =>
      reply = cache.answer op ∧ after = before
  | .isDir path, before, reply, after =>
      reply = cache.disk.isDir path ∧ after = before
  | .readChunks path, before, reply, after =>
      (∀ content, cache.disk.metadata path = .ok (.file content) →
        reply.1.flatten = content ∧ reply.2 = none) ∧ after = before
  | .createRevisions _, before, reply, after => reply = .ok () ∧ after = before
  | .isPublished repository commit, before, reply, after =>
      reply = before.isPublished repository commit ∧ after = before
  | .archiveTmp, before, reply, after => reply = .ok () ∧ after = before
  | .createStaging, before, reply, after =>
      ∃ staging, before.staging staging = none ∧ reply = .ok staging ∧
        after = before.setStaging staging (some freshStaging)
  | .stage staging op, before, reply, after =>
      match (before.staging staging).bind op.apply with
      | some revision =>
          reply = .ok () ∧ after = before.setStaging staging (some revision)
      | none => (∃ kind, reply = .error (.io kind)) ∧
          ∃ left, after = before.setStaging staging left
  | .renameStaging staging repository commit, before, reply, after =>
      match before.staging staging with
      | none => reply = .error (.io .notFound) ∧ after = before
      | some revision =>
          before.Free repository commit ∧ reply = .ok () ∧
              after = (before.setStaging staging none).setDir repository
                ((before.dir repository).putRevision commit revision) ∨
            ¬before.Free repository commit ∧
              reply = .error (.io .alreadyExists) ∧ after = before
  | .removeStaging staging, before, reply, after =>
      reply = .ok () ∧ after = before.setStaging staging none
  | .syncRevisions _, before, reply, after => reply = .ok () ∧ after = before
  | .ref repository op, before, reply, after =>
      ∃ dir, Refs.Succeeds op (before.dir repository) reply dir ∧
        after = before.setDir repository dir

/-- A step that is refused. -/
def Refuses (cache : Cache) : (op : Op) → World → op.Reply → World → Prop
  | .look _, before, reply, after =>
      (∃ kind, reply = .error (.io kind)) ∧ after = before
  | .isDir _, before, reply, after => reply = false ∧ after = before
  | .readChunks path, before, reply, after =>
      (∀ content, cache.disk.metadata path = .ok (.file content) →
        reply.1.flatten <+: content) ∧ reply.2.isSome ∧ after = before
  | .createRevisions _, before, reply, after =>
      (∃ kind, reply = .error (.io kind)) ∧ after = before
  | .isPublished _ _, before, reply, after => reply = false ∧ after = before
  | .archiveTmp, before, reply, after =>
      (∃ kind, reply = .error (.io kind)) ∧ after = before
  | .createStaging, before, reply, after =>
      (∃ kind, reply = .error (.io kind)) ∧
        (after = before ∨ ∃ staging left, before.staging staging = none ∧
          after = before.setStaging staging left)
  | .stage staging _, before, reply, after =>
      (∃ kind, reply = .error (.io kind)) ∧
        ∃ left, after = before.setStaging staging left
  | .renameStaging _ _ _, before, reply, after =>
      (∃ kind, reply = .error (.io kind)) ∧ after = before
  | .removeStaging staging, before, reply, after =>
      (∃ kind, reply = .error (.io kind)) ∧
        ∃ left, after = before.setStaging staging left
  | .syncRevisions _, before, reply, after =>
      (∃ kind, reply = .error (.io kind)) ∧ after = before
  | .ref repository op, before, reply, after =>
      ∃ dir, Refs.Refuses op (before.dir repository) reply dir ∧
        after = before.setDir repository dir

/-- The steps, of which some may be refused. -/
def Effect (cache : Cache) (refusable : Op → Prop) :
    Semantics interface World :=
  fun op before reply after =>
    Succeeds cache op before reply after ∨
      refusable op ∧ Refuses cache op before reply after

/-- A question to which a refusal is taken for an answer. -/
def Op.Probes : Op → Prop
  | .isDir _ => True
  | .isPublished _ _ => True
  | _ => False

/-- Whether a temporary file of a ref is there after one more step. -/
def pendingAfter (pending : Bool) : Event interface → Bool
  | ⟨.ref _ op, reply⟩ => Refs.pendingAfter pending ⟨op, reply⟩
  | _ => pending

/-- The temporary file of a ref was created, and not yet renamed or
removed. -/
def pending (steps : List (Event interface)) : Bool :=
  steps.foldl pendingAfter false

@[simp] theorem pending_nil : pending [] = false := rfl

@[simp] theorem pending_append
    (steps : List (Event interface))
    (step : Event interface) :
    pending (steps ++ [step]) = pendingAfter (pending steps) step := by
  simp [pending]

/-! ## The readers -/

namespace World

variable (world : World) (repository : Repository)

/-- `list_revisions_for_type`. -/
def listRevisions : Except ArchiveError (List String) :=
  ModelKeep.listRevisions repository.repoId (world.dir repository)

/-- `read_manifest_for`. -/
def readManifest (commit : String) : Except ArchiveError Manifest := do
  let _ ← validateRepoId repository.repoId
  validateRevision commit
  ModelKeep.readManifestOf repository.repoType (world.dir repository) commit

/-- `resolve_file_for_type`. -/
def resolveFile (commit relativePath : String) :
    Except ArchiveError ResolvedFile := do
  validateRelativeFilePath relativePath
  let _ ← validateRepoId repository.repoId
  validateRevision commit
  match (world.dir repository).revision commit with
  | none => .error (.io .notFound)
  | some revision => revision.resolveFile repository.repoType relativePath

/-- `resolve_ref_for_type`. -/
def resolveRef (reference : String) : Except ArchiveError String :=
  ModelKeep.resolveRef repository.repoId (world.dir repository) reference

end World

/-- Two archives give the same answers. -/
structure SameAnswers (one other : World) : Prop where
  listRevisions : ∀ repository,
    one.listRevisions repository = other.listRevisions repository
  readManifest : ∀ repository commit,
    one.readManifest repository commit = other.readManifest repository commit
  resolveFile : ∀ repository commit path,
    one.resolveFile repository commit path =
      other.resolveFile repository commit path
  resolveRef : ∀ repository reference,
    one.resolveRef repository reference = other.resolveRef repository reference

end Importing
end ModelKeep
