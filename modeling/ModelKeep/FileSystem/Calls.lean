import ModelKeep.Concurrency.Crash
import ModelKeep.Disk.Moves
import ModelKeep.Disk.Places
import ModelKeep.Names

/-!
# The file system, call by call

What a process asks of the file system, and what each call may do.  Any call
may fail; one that writes or removes several things may have done a part of
them by then.  Beside the tree as it is seen, a volume records how much of it
has been flushed.
-/

namespace ModelKeep
namespace FileSystem

open Concurrency Program

/-! ## Calls -/

/-- A call that looks at the tree. -/
inductive Look
  /-- `fs::metadata`, with the content. -/
  | metadata (path : List String)
  | symlinkMetadata (path : List String)
  | canonicalize (path : List String)
  | readDir (path : List String)
  | read (path : List String)
  /-- `File::open`. -/
  | openFile (path : List String)
  /-- The reads of a loop until the end of the file or an error. -/
  | readChunks (path : List String)
  /-- `flock`, which waits. -/
  | lock (path : List String)

abbrev Look.Answer : Look → Type
  | .metadata _ => FileNode Bytes
  | .symlinkMetadata _ => FileNode Bytes
  | .canonicalize _ => List String
  | .readDir _ => List String
  | .read _ => Bytes
  | .openFile _ => Unit
  | .readChunks _ => List Bytes × Option IoErrorKind
  | .lock _ => Unit

/-- A call that changes the tree, or what is flushed of it. -/
inductive Change
  | createDir (path : List String)
  /-- `OpenOptions::create_new`. -/
  | createNew (path : List String)
  /-- `File::create`. -/
  | create (path : List String)
  /-- `OpenOptions::create` without truncation. -/
  | openOrCreate (path : List String)
  /-- `write_all`, at the end of a file that is open. -/
  | append (path : List String) (content : Bytes)
  | syncAll (path : List String)
  | syncDirectory (path : List String)
  | rename (old new : List String)
  | removeFile (path : List String)
  | removeDir (path : List String)
  | removeDirAll (path : List String)

/-- What `operation_id` draws: hexadecimal digits, or numbers and dashes. -/
structure OperationId where
  text : String
  plain : ∀ character ∈ text.toList,
    isAsciiHexdigit character = true ∨ character = '-'

inductive Call
  | look (op : Look)
  | change (op : Change)
  | operationId
  | unixTimestamp

abbrev Call.Reply : Call → Type
  | .look op => Except IoErrorKind op.Answer
  | .change _ => Except IoErrorKind Unit
  | .operationId => OperationId
  | .unixTimestamp => Nat

abbrev interface : Interface := ⟨Call, Call.Reply⟩

abbrev Action (α : Type) : Type := ExceptT ArchiveError (Program interface) α

/-! ## Volumes -/

/-- The tree as it is seen, and what of it is on disk: the entries of which
the directory above was synced, and the files of which the content was. -/
structure Volume where
  tree : FileTree Bytes
  entry : List String → Bool
  data : List String → Bool

namespace Volume

/-- A new entry, of which nothing is on disk. -/
def withEntry (volume : Volume) (place : List String)
    (tree : FileTree Bytes) : Volume where
  tree := tree
  entry := Function.update volume.entry place false
  data := Function.update volume.data place false

/-- New content, of which nothing is on disk. -/
def withContent (volume : Volume) (place : List String)
    (tree : FileTree Bytes) : Volume where
  tree := tree
  entry := volume.entry
  data := Function.update volume.data place false

/-- A subtree is moved; what is on disk of it stays so, but for its own
entry. -/
def withMove (volume : Volume) (old new : List String)
    (tree : FileTree Bytes) : Volume where
  tree := tree
  entry := fun path =>
    if path = new then false
    else if new <+: path then volume.entry (old ++ path.drop new.length)
    else volume.entry path
  data := fun path =>
    if new <+: path then volume.data (old ++ path.drop new.length)
    else volume.data path

/-- What a change makes of a volume when it succeeds. -/
def apply (volume : Volume) : Change → Option Volume
  | .createDir path => do
      let place ← volume.tree.place path
      let tree ← volume.tree.createDirectory place
      return volume.withEntry place tree
  | .createNew path => do
      let place ← volume.tree.place path
      let tree ← volume.tree.createFile place []
      return volume.withEntry place tree
  | .create path => do
      let place ← volume.tree.target 40 path
      let tree ← volume.tree.placeFile place []
      if volume.tree.isFile place then
        return volume.withContent place tree
      else
        return volume.withEntry place tree
  | .openOrCreate path => do
      let place ← volume.tree.target 40 path
      if volume.tree.isFile place then
        return volume
      else do
        let tree ← volume.tree.createFile place []
        return volume.withEntry place tree
  | .append path content => do
      let place ← volume.tree.target 40 path
      match volume.tree.lookup place with
      | some (.file written) => do
          let tree ← volume.tree.placeFile place (written ++ content)
          return volume.withContent place tree
      | _ => none
  | .syncAll path => do
      let place ← volume.tree.target 40 path
      if volume.tree.isFile place then
        return { volume with data := Function.update volume.data place true }
      else
        none
  | .syncDirectory path => do
      let place ← volume.tree.canonicalize path
      if volume.tree.isDirectory place then
        return { volume with
          entry := fun path =>
            volume.entry path || (path.dropLast == place && path != []) }
      else
        none
  | .rename old new => do
      let old ← volume.tree.place old
      let new ← volume.tree.place new
      if old = new then
        return volume
      else do
        let tree ← volume.tree.move old new
        return volume.withMove old new tree
  | .removeFile path => do
      let place ← volume.tree.place path
      if volume.tree.isDirectory place then
        none
      else do
        let tree ← volume.tree.remove place
        return { volume with tree := tree }
  | .removeDir path => do
      let place ← volume.tree.place path
      if volume.tree.isDirectory place then do
        let tree ← volume.tree.remove place
        return { volume with tree := tree }
      else
        none
  | .removeDirAll path => do
      let place ← volume.tree.place path
      if (volume.tree.lookup place).isSome ∧
          volume.tree.isFile place = false then
        return { volume with tree := volume.tree.clear place }
      else
        none

/-- What a change may leave when it fails. -/
def Spoiled (before : Volume) : Change → Volume → Prop
  | .append path content, after =>
      after = before ∨ ∃ part, part <+: content ∧
        before.apply (.append path part) = some after
  | .removeDirAll path, after =>
      after = before ∨ ∃ place, before.tree.place path = some place ∧
        (∀ other, after.tree.lookup other = before.tree.lookup other ∨
          place <+: other ∧ after.tree.lookup other = none) ∧
        after.entry = before.entry ∧ after.data = before.data
  | _, after => after = before

end Volume

/-- What a call may answer about a tree. -/
def Look.Right (tree : FileTree Bytes) : (op : Look) → op.Answer → Prop
  | .metadata path, node =>
      (tree.canonicalize path).bind tree.lookup = some node
  | .symlinkMetadata path, node => tree.lstat path = some node
  | .canonicalize path, place => tree.canonicalize path = some place
  | .readDir path, names => ∃ place, tree.canonicalize path = some place ∧
      tree.isDirectory place = true ∧
      names.Nodup ∧ ∀ name, name ∈ names ↔ name ∈ tree.entries place
  | .read path, content =>
      (tree.canonicalize path).bind tree.lookup = some (.file content)
  | .openFile path, _ => (tree.canonicalize path).isSome
  | .readChunks path, (chunks, failure) => ∃ content,
      (tree.canonicalize path).bind tree.lookup = some (.file content) ∧
        chunks.flatten <+: content ∧
        (failure = none → chunks.flatten = content)
  | .lock _, _ => True

/-- What a call may do. -/
def exec : Semantics interface Volume
  | .look op, before, reply, after => after = before ∧
      ∀ answer, reply = .ok answer → op.Right before.tree answer
  | .change op, before, reply, after =>
      match reply with
      | .ok () => before.apply op = some after
      | .error _ => before.Spoiled op after
  | .operationId, before, _, after => after = before
  | .unixTimestamp, before, _, after => after = before

/-! ## What a change does to the tree -/

/-- The entries that a change may touch. -/
def Change.Reaches (tree : FileTree Bytes) :
    Change → List String → Prop
  | .createDir path, place => tree.place path = some place
  | .createNew path, place => tree.place path = some place
  | .create path, place => tree.target 40 path = some place
  | .openOrCreate path, place => tree.target 40 path = some place
  | .append path _, place => tree.target 40 path = some place
  | .syncAll _, _ => False
  | .syncDirectory _, _ => False
  | .rename old new, place =>
      tree.place old = some place ∨ tree.place new = some place
  | .removeFile path, place => tree.place path = some place
  | .removeDir path, place => tree.place path = some place
  | .removeDirAll path, place => tree.place path = some place

/-- Everything a change may have done, whether it succeeds or fails. -/
inductive Turned (before after : FileTree Bytes) : Change → Prop
  | same {op : Change} (same : after = before) : Turned before after op
  | directory {path place : List String}
      (names : before.place path = some place)
      (absent : before.lookup place = none)
      (looked : ∀ other, after.lookup other =
        if other = place then some .directory else before.lookup other) :
      Turned before after (.createDir path)
  | file {op : Change} {place : List String} {content : Bytes}
      (unlike : ∀ path, op ≠ .createDir path)
      (reaches : op.Reaches before place)
      (placed : before.placeFile place content = some after) :
      Turned before after op
  | removed {op : Change} {place : List String}
      (unlike : ∀ path, op ≠ .createDir path)
      (reaches : op.Reaches before place)
      (looked : ∀ other, after.lookup other = before.lookup other ∨
        place <+: other ∧ after.lookup other = none) :
      Turned before after op
  | moved {old new oldPlace newPlace : List String}
      (namesOld : before.place old = some oldPlace)
      (namesNew : before.place new = some newPlace)
      (moved : before.move oldPlace newPlace = some after) :
      Turned before after (.rename old new)

theorem placed_of_createFile
    {tree after : FileTree Bytes}
    {place : List String}
    {content : Bytes}
    (created : tree.createFile place content = some after) :
    tree.lookup place = none ∧
      tree.placeFile place content = some after := by
  unfold FileTree.createFile at created
  split at created
  · next absent => exact ⟨Option.isNone_iff_eq_none.mp absent, created⟩
  · cases created

theorem turned_of_apply
    {before after : Volume}
    {op : Change}
    (applied : before.apply op = some after) :
    Turned before.tree after.tree op := by
  cases op with
  | createDir path =>
      obtain ⟨place, names, applied⟩ := Option.bind_eq_some_iff.mp applied
      obtain ⟨tree, made, applied⟩ := Option.bind_eq_some_iff.mp applied
      cases applied
      obtain ⟨absent, looked⟩ := FileTree.lookup_createDirectory made
      exact .directory names absent looked
  | createNew path =>
      obtain ⟨place, names, applied⟩ := Option.bind_eq_some_iff.mp applied
      obtain ⟨tree, made, applied⟩ := Option.bind_eq_some_iff.mp applied
      cases applied
      exact .file nofun names (placed_of_createFile made).2
  | create path =>
      obtain ⟨place, leads, applied⟩ := Option.bind_eq_some_iff.mp applied
      obtain ⟨tree, placed, applied⟩ := Option.bind_eq_some_iff.mp applied
      split at applied
      · cases applied
        exact .file nofun leads placed
      · cases applied
        exact .file nofun leads placed
  | openOrCreate path =>
      obtain ⟨place, leads, applied⟩ := Option.bind_eq_some_iff.mp applied
      split at applied
      · cases applied
        exact .same rfl
      · obtain ⟨tree, made, applied⟩ := Option.bind_eq_some_iff.mp applied
        cases applied
        exact .file nofun leads (placed_of_createFile made).2
  | append path content =>
      obtain ⟨place, leads, applied⟩ := Option.bind_eq_some_iff.mp applied
      split at applied
      · obtain ⟨tree, placed, applied⟩ := Option.bind_eq_some_iff.mp applied
        cases applied
        exact .file nofun leads placed
      · cases applied
  | syncAll path =>
      obtain ⟨place, leads, applied⟩ := Option.bind_eq_some_iff.mp applied
      split at applied
      · cases applied
        exact .same rfl
      · cases applied
  | syncDirectory path =>
      obtain ⟨place, leads, applied⟩ := Option.bind_eq_some_iff.mp applied
      split at applied
      · cases applied
        exact .same rfl
      · cases applied
  | rename old new =>
      obtain ⟨oldPlace, namesOld, applied⟩ :=
        Option.bind_eq_some_iff.mp applied
      obtain ⟨newPlace, namesNew, applied⟩ :=
        Option.bind_eq_some_iff.mp applied
      split at applied
      · cases applied
        exact .same rfl
      · obtain ⟨tree, moved, applied⟩ := Option.bind_eq_some_iff.mp applied
        cases applied
        exact .moved namesOld namesNew moved
  | removeFile path =>
      obtain ⟨place, names, applied⟩ := Option.bind_eq_some_iff.mp applied
      split at applied
      · cases applied
      · obtain ⟨tree, removed, applied⟩ := Option.bind_eq_some_iff.mp applied
        cases applied
        refine .removed nofun names fun other => ?_
        rw [FileTree.lookup_remove removed]
        split
        · next same =>
            subst same
            exact Or.inr ⟨List.prefix_rfl, rfl⟩
        · exact Or.inl rfl
  | removeDir path =>
      obtain ⟨place, names, applied⟩ := Option.bind_eq_some_iff.mp applied
      split at applied
      · obtain ⟨tree, removed, applied⟩ := Option.bind_eq_some_iff.mp applied
        cases applied
        refine .removed nofun names fun other => ?_
        rw [FileTree.lookup_remove removed]
        split
        · next same =>
            subst same
            exact Or.inr ⟨List.prefix_rfl, rfl⟩
        · exact Or.inl rfl
      · cases applied
  | removeDirAll path =>
      obtain ⟨place, names, applied⟩ := Option.bind_eq_some_iff.mp applied
      split at applied
      · cases applied
        have nonempty := FileTree.place_ne_nil names
        refine .removed nofun names fun other => ?_
        rw [FileTree.lookup_clear _ nonempty]
        split
        · next below => exact Or.inr ⟨below, rfl⟩
        · exact Or.inl rfl
      · cases applied

theorem Turned.of_append
    {before after : FileTree Bytes}
    {path : List String}
    {content part : Bytes}
    (turned : Turned before after (.append path part)) :
    Turned before after (.append path content) := by
  cases turned with
  | same same => exact .same same
  | file _ reaches placed => exact .file nofun reaches placed
  | removed _ reaches looked => exact .removed nofun reaches looked

/-- What a change does to the tree, however it ends. -/
theorem turned_of_exec
    {before after : Volume}
    {op : Change}
    {reply : Except IoErrorKind Unit}
    (executed : exec (.change op) before reply after) :
    Turned before.tree after.tree op := by
  cases reply with
  | ok done => exact turned_of_apply executed
  | error kind =>
      change before.Spoiled op after at executed
      cases op with
      | append path content =>
          rcases executed with rfl | ⟨part, _, applied⟩
          · exact .same rfl
          · exact (turned_of_apply applied).of_append
      | removeDirAll path =>
          rcases executed with rfl | ⟨place, names, looked, _⟩
          · exact .same rfl
          · exact .removed nofun names looked
      | createDir path => exact .same (congrArg Volume.tree executed)
      | createNew path => exact .same (congrArg Volume.tree executed)
      | create path => exact .same (congrArg Volume.tree executed)
      | openOrCreate path => exact .same (congrArg Volume.tree executed)
      | syncAll path => exact .same (congrArg Volume.tree executed)
      | syncDirectory path => exact .same (congrArg Volume.tree executed)
      | rename old new => exact .same (congrArg Volume.tree executed)
      | removeFile path => exact .same (congrArg Volume.tree executed)
      | removeDir path => exact .same (congrArg Volume.tree executed)

/-- No change makes a link, but a rename may take one along. -/
theorem Turned.link
    {before after : FileTree Bytes}
    {op : Change}
    {other : List String}
    {target : Option (List String)}
    (turned : Turned before after op)
    (stands : after.lookup other = some (.link target)) :
    before.lookup other = some (.link target) ∨
      ∃ old new oldPlace newPlace rest, op = .rename old new ∧
        before.place old = some oldPlace ∧
        before.place new = some newPlace ∧
        other = newPlace ++ rest ∧
        before.lookup (oldPlace ++ rest) = some (.link target) := by
  cases turned with
  | same same =>
      left
      rwa [same] at stands
  | directory names absent looked =>
      left
      rw [looked] at stands
      split at stands
      · cases stands
      · exact stands
  | file _ reaches placed =>
      left
      rw [FileTree.lookup_placeFile placed] at stands
      split at stands
      · cases stands
      · exact stands
  | removed _ reaches looked =>
      left
      rcases looked other with same | ⟨_, gone⟩
      · rwa [same] at stands
      · rw [gone] at stands
        cases stands
  | moved namesOld namesNew moved =>
      rw [FileTree.lookup_move moved] at stands
      split at stands
      · next below =>
          obtain ⟨rest, rfl⟩ := below
          rw [List.drop_left] at stands
          exact Or.inr ⟨_, _, _, _, rest, rfl, namesOld, namesNew, rfl, stands⟩
      · split at stands
        · cases stands
        · exact Or.inl stands

/-! ## When nothing goes wrong -/

/-- A look that comes to nothing fails. -/
def found {α : Type} : Option α → Except IoErrorKind α
  | some answer => .ok answer
  | none => .error .notFound

theorem found_eq_ok
    {α : Type}
    {outcome : Option α}
    {answer : α} :
    found outcome = .ok answer ↔ outcome = some answer := by
  cases outcome with
  | none => exact ⟨nofun, nofun⟩
  | some value =>
      exact ⟨fun same => congrArg some (Except.ok.inj same),
        fun same => congrArg Except.ok (Option.some.inj same)⟩

/-- The content of the file that a path leads to. -/
def contentAt (tree : FileTree Bytes) (path : List String) :
    Option Bytes :=
  match (tree.canonicalize path).bind tree.lookup with
  | some (.file content) => some content
  | _ => none

theorem contentAt_eq_some
    {tree : FileTree Bytes}
    {path : List String}
    {content : Bytes} :
    contentAt tree path = some content ↔
      (tree.canonicalize path).bind tree.lookup = some (.file content) := by
  unfold contentAt
  split
  · next stands => simp [stands]
  · next other =>
      constructor
      · nofun
      · intro stands
        exact absurd stands (other content)

/-- What a look finds. -/
def Look.find (tree : FileTree Bytes) : (op : Look) →
    Except IoErrorKind op.Answer
  | .metadata path => found ((tree.canonicalize path).bind tree.lookup)
  | .symlinkMetadata path => found (tree.lstat path)
  | .canonicalize path => found (tree.canonicalize path)
  | .readDir path => found ((tree.canonicalize path).bind fun place =>
      if tree.isDirectory place then
        some (FileTree.sortNames (tree.entries place)).dedup
      else
        none)
  | .read path => found (contentAt tree path)
  | .openFile path => found ((tree.canonicalize path).map fun _ => ())
  | .readChunks path =>
      found ((contentAt tree path).map fun content => ([content], none))
  | .lock _ => .ok ()

theorem right_of_find
    {tree : FileTree Bytes}
    {op : Look}
    {answer : op.Answer}
    (answers : op.find tree = .ok answer) :
    op.Right tree answer := by
  cases op with
  | metadata path => exact found_eq_ok.mp answers
  | symlinkMetadata path => exact found_eq_ok.mp answers
  | canonicalize path => exact found_eq_ok.mp answers
  | readDir path =>
      obtain ⟨place, leads, listed⟩ :=
        Option.bind_eq_some_iff.mp (found_eq_ok.mp answers)
      split at listed
      · next directory =>
          cases listed
          exact ⟨place, leads, directory, List.nodup_dedup _, by simp⟩
      · cases listed
  | read path => exact contentAt_eq_some.mp (found_eq_ok.mp answers)
  | openFile path =>
      obtain ⟨place, leads, _⟩ :=
        Option.map_eq_some_iff.mp (found_eq_ok.mp answers)
      exact Option.isSome_iff_exists.mpr ⟨place, leads⟩
  | readChunks path =>
      obtain ⟨content, stands, same⟩ :=
        Option.map_eq_some_iff.mp (found_eq_ok.mp answers)
      cases same
      exact ⟨content, contentAt_eq_some.mp stands, by simp, by simp⟩
  | lock path => trivial

/-- The first operation id. -/
def firstId : OperationId := ⟨"0", by simp [isAsciiHexdigit]⟩

/-- Why a change cannot be made, as far as the operations tell apart. -/
def Change.refusal : Change → IoErrorKind
  | .createDir _ => .alreadyExists
  | _ => .notFound

/-- The answer when nothing goes wrong. -/
def respond (op : Call) (volume : Volume) : op.Reply × Volume :=
  match op with
  | .look op => (op.find volume.tree, volume)
  | .change op =>
      match volume.apply op with
      | some later => (.ok (), later)
      | none => (.error op.refusal, volume)
  | .operationId => (firstId, volume)
  | .unixTimestamp => (0, volume)

theorem spoiled_refl (op : Change) (volume : Volume) :
    volume.Spoiled op volume := by
  cases op <;> first | rfl | exact Or.inl rfl

theorem exec_respond (op : Call) (volume : Volume) :
    exec op volume (respond op volume).1 (respond op volume).2 := by
  cases op with
  | look op => exact ⟨rfl, fun answer found => right_of_find found⟩
  | change op =>
      unfold respond
      dsimp only
      split
      · next later applied => exact applied
      · exact spoiled_refl op volume
  | operationId => rfl
  | unixTimestamp => rfl

end FileSystem
end ModelKeep
