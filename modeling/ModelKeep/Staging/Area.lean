import ModelKeep.Revision

/-!
# The temporary area

Fetch staging lives in directories below `tmp`, and what a directory is for is
told by its name alone: a running acquisition keeps its staging under an
active name, interrupted staging waits under an abandoned one.  A directory
keeps its identity when it is renamed, so every directory carries an inode
number, and the area carries the fact that no two names lead to one inode.
-/

namespace ModelKeep

/-- The name of an entry below `tmp`, by the start the code looks for. -/
inductive EntryName
  /-- `fetch-abandoned-{id}` -/
  | abandoned (id : String)
  /-- `.fetch-active-{id}` -/
  | active (id : String)
  | other (name : String)
  deriving DecidableEq

/-- The operation id a staging name was made from. -/
def EntryName.operation : EntryName → Option String
  | .abandoned id => some id
  | .active id => some id
  | .other _ => none

/-- The lease file of a staging directory. -/
inductive Lease
  | absent
  /-- The file cannot be read as text. -/
  | unreadable
  /-- No line of it names an expiry. -/
  | noExpiry
  | expires (expiresAt : Nat)
  deriving DecidableEq

/-- `read_lease_expiry` of a lease file. -/
def Lease.expiry : Lease → Except ArchiveError Nat
  | .absent => .error (.io .notFound)
  | .unreadable => .error (.io .other)
  | .noExpiry => .error (.integrityMismatch "staging lease has no expiry")
  | .expires expiresAt => .ok expiresAt

/-- The identity file of fetch staging. -/
structure FetchStagingMetadata where
  version : Nat
  repoType : RepositoryType
  repoId : String
  requestedRevision : String
  files : List String
  resolvedCommit : Option String
  deriving DecidableEq

/-- What a staging directory holds. -/
structure StagingDir where
  lease : Lease
  identity : Stored FetchStagingMetadata
  upstreamFiles : Stored UpstreamFileList
  payload : FileTree Bytes

/-- A directory that was just made. -/
def StagingDir.bare : StagingDir := ⟨.absent, .missing, .missing, .empty⟩

/-- The identity file as its decoder finds it. -/
def StagingDir.readIdentity (dir : StagingDir) :
    Except ArchiveError FetchStagingMetadata :=
  match dir.identity with
  | .missing => .error (.io .notFound)
  | .unreadable message => .error (.integrityMismatch message)
  | .decoded metadata => .ok metadata

/-- The pieces of a staging directory that are removed one after another. -/
inductive StagingDir.Part
  | lease
  | identity
  | upstreamFiles
  | payload
  deriving DecidableEq

/-- What is left in a directory without one of its pieces. -/
def StagingDir.without (dir : StagingDir) : StagingDir.Part → StagingDir
  | .lease => { dir with lease := .absent }
  | .identity => { dir with identity := .missing }
  | .upstreamFiles => { dir with upstreamFiles := .missing }
  | .payload => { dir with payload := .empty }

/-- A directory is removed only when nothing is in it. -/
def StagingDir.isBare (dir : StagingDir) : Bool :=
  (match dir.lease with | .absent => true | _ => false) &&
    (match dir.identity with | .missing => true | _ => false) &&
    (match dir.upstreamFiles with | .missing => true | _ => false) &&
    dir.payload.paths = ∅

/-- A directory of the area. -/
structure AreaEntry where
  inode : Nat
  dir : StagingDir

/-- The directories below `tmp`, and the operation ids that were drawn so
far.  Entries that are no directories are passed over by everyone. -/
structure TemporaryArea where
  entry : EntryName → Option AreaEntry
  names : List EntryName
  mem_names : ∀ name, name ∈ names ↔ (entry name).isSome
  /-- The inode of the next directory. -/
  nextInode : Nat
  older : ∀ name found, entry name = some found → found.inode < nextInode
  distinct : ∀ first second found foundToo,
    entry first = some found → entry second = some foundToo →
      found.inode = foundToo.inode → first = second
  spent : List String
  issued : ∀ name id, (entry name).isSome → name.operation = some id →
    id ∈ spent

namespace TemporaryArea

/-- Nothing has been staged yet. -/
def empty : TemporaryArea where
  entry := fun _ => none
  names := []
  mem_names := by simp
  nextInode := 0
  older := by simp
  distinct := by simp
  spent := []
  issued := by simp

instance : Inhabited TemporaryArea := ⟨empty⟩

/-- Change what a directory holds. -/
def update
    (area : TemporaryArea)
    (name : EntryName)
    (change : StagingDir → StagingDir) :
    TemporaryArea :=
  { area with
    entry := fun other =>
      (area.entry other).map fun found =>
        if other = name then { found with dir := change found.dir } else found
    mem_names := by
      intro other
      rw [Option.isSome_map, area.mem_names]
    older := by
      intro other found stands
      obtain ⟨before, standsBefore, rfl⟩ := Option.map_eq_some_iff.mp stands
      have old := area.older other before standsBefore
      split <;> exact old
    distinct := by
      intro first second found foundToo stands standsToo same
      obtain ⟨before, standsBefore, rfl⟩ := Option.map_eq_some_iff.mp stands
      obtain ⟨beforeToo, standsBeforeToo, rfl⟩ :=
        Option.map_eq_some_iff.mp standsToo
      apply area.distinct first second before beforeToo standsBefore
        standsBeforeToo
      split at same <;> split at same <;> exact same
    issued := by
      intro other id present
      rw [Option.isSome_map] at present
      exact area.issued other id present }

/-- Take a directory out of the area. -/
def remove (area : TemporaryArea) (name : EntryName) : TemporaryArea :=
  { area with
    entry := fun other => if other = name then none else area.entry other
    names := area.names.filter fun other => other ≠ name
    mem_names := by
      intro other
      rw [List.mem_filter, area.mem_names]
      by_cases same : other = name <;> simp [same]
    older := by
      intro other found stands
      split at stands
      · cases stands
      · exact area.older other found stands
    distinct := by
      intro first second found foundToo stands standsToo
      split at stands
      · cases stands
      · split at standsToo
        · cases standsToo
        · exact area.distinct first second found foundToo stands standsToo
    issued := by
      intro other id present
      split at present
      · cases present
      · exact area.issued other id present }

/-- A name that no directory has and whose operation id was drawn. -/
def Free (area : TemporaryArea) (name : EntryName) : Prop :=
  area.entry name = none ∧
    ∀ id ∈ name.operation, id ∈ area.spent

instance (area : TemporaryArea) (name : EntryName) :
    Decidable (area.Free name) :=
  match stands : area.entry name with
  | some _ => isFalse fun free => by
      rw [free.1] at stands
      cases stands
  | none =>
      match drawn : name.operation with
      | none => isTrue ⟨stands, by simp [drawn]⟩
      | some id =>
          if spent : id ∈ area.spent then
            isTrue ⟨stands, by simpa [drawn] using spent⟩
          else
            isFalse fun free => spent (free.2 id (by simp [drawn]))

/-- Put a directory under a free name. -/
def put
    (area : TemporaryArea)
    (name : EntryName)
    (added : AreaEntry)
    (nextInode : Nat)
    (free : area.Free name)
    (grown : area.nextInode ≤ nextInode)
    (old : added.inode < nextInode)
    (unused : ∀ other found, area.entry other = some found →
      found.inode ≠ added.inode) :
    TemporaryArea where
  entry := Function.update area.entry name (some added)
  names := name :: area.names
  mem_names := by
    intro other
    by_cases same : other = name
    · subst same
      simp
    · simp [same, area.mem_names]
  nextInode := nextInode
  older := by
    intro other found stands
    by_cases same : other = name
    · subst same
      rw [Function.update_self] at stands
      cases stands
      exact old
    · rw [Function.update_of_ne same] at stands
      exact Nat.lt_of_lt_of_le (area.older other found stands) grown
  distinct := by
    intro first second found foundToo stands standsToo same
    by_cases isFirst : first = name
    · subst isFirst
      rw [Function.update_self] at stands
      cases stands
      by_cases isSecond : second = first
      · exact isSecond.symm
      · rw [Function.update_of_ne isSecond] at standsToo
        exact absurd same.symm (unused second foundToo standsToo)
    · rw [Function.update_of_ne isFirst] at stands
      by_cases isSecond : second = name
      · subst isSecond
        rw [Function.update_self] at standsToo
        cases standsToo
        exact absurd same (unused first found stands)
      · rw [Function.update_of_ne isSecond] at standsToo
        exact area.distinct first second found foundToo stands standsToo same
  spent := area.spent
  issued := by
    intro other id present drawn
    by_cases same : other = name
    · subst same
      exact free.2 id drawn
    · rw [Function.update_of_ne same] at present
      exact area.issued other id present drawn

/-- `mkdir` of a staging directory. -/
def create (area : TemporaryArea) (name : EntryName) :
    Option TemporaryArea :=
  if free : area.Free name then
    some (area.put name ⟨area.nextInode, .bare⟩ (area.nextInode + 1) free
      (Nat.le_succ _) (Nat.lt_succ_self _)
      fun other found stands => (area.older other found stands).ne)
  else
    none

theorem free_remove
    {area : TemporaryArea}
    {old new : EntryName}
    (free : area.Free new) :
    (area.remove old).Free new := by
  refine ⟨?_, free.2⟩
  change (if new = old then none else area.entry new) = none
  rw [free.1, ite_self]

/-- `rename` of a directory to a name that is not in use. -/
def move (area : TemporaryArea) (old new : EntryName) :
    Option TemporaryArea :=
  match stands : area.entry old with
  | none => none
  | some found =>
      if free : area.Free new then
        some ((area.remove old).put new found area.nextInode
          (free_remove free) (Nat.le_refl _) (area.older old found stands)
          (by
            intro other foundToo standsToo same
            change (if other = old then none else area.entry other) = _
              at standsToo
            split at standsToo
            · cases standsToo
            · next different =>
                exact different (area.distinct other old foundToo found
                  standsToo stands same)))
      else
        none

/-- An operation id is drawn. -/
def draw (area : TemporaryArea) (id : String) : TemporaryArea :=
  { area with
    spent := id :: area.spent
    issued := fun name drawn present operation =>
      List.mem_cons_of_mem id (area.issued name drawn present operation) }

/-! ## What the operations leave under each name -/

variable (area : TemporaryArea)

theorem entry_update
    (name other : EntryName)
    (change : StagingDir → StagingDir) :
    (area.update name change).entry other =
      (area.entry other).map fun found =>
        if other = name then { found with dir := change found.dir }
        else found := rfl

theorem entry_update_of_ne
    {name other : EntryName}
    (different : other ≠ name)
    (change : StagingDir → StagingDir) :
    (area.update name change).entry other = area.entry other := by
  simp [entry_update, different]

theorem entry_update_self
    {name : EntryName}
    {found : AreaEntry}
    (stands : area.entry name = some found)
    (change : StagingDir → StagingDir) :
    (area.update name change).entry name =
      some { found with dir := change found.dir } := by
  simp [entry_update, stands]

/-- Changing what is in a directory moves no directory. -/
@[simp] theorem inode_update
    (name other : EntryName)
    (change : StagingDir → StagingDir) :
    ((area.update name change).entry other).map AreaEntry.inode =
      (area.entry other).map AreaEntry.inode := by
  rw [entry_update, Option.map_map]
  congr 1
  funext found
  dsimp only [Function.comp]
  split <;> rfl

@[simp] theorem spent_update
    (name : EntryName)
    (change : StagingDir → StagingDir) :
    (area.update name change).spent = area.spent := rfl

@[simp] theorem entry_remove (name other : EntryName) :
    (area.remove name).entry other =
      if other = name then none else area.entry other := rfl

@[simp] theorem spent_remove (name : EntryName) :
    (area.remove name).spent = area.spent := rfl

@[simp] theorem entry_draw (id : String) :
    (area.draw id).entry = area.entry := rfl

@[simp] theorem spent_draw (id : String) :
    (area.draw id).spent = id :: area.spent := rfl

variable {area}

theorem create_eq_some
    {name : EntryName}
    {after : TemporaryArea}
    (created : area.create name = some after) :
    area.Free name ∧ after.spent = area.spent ∧
      ∀ other, after.entry other =
        if other = name then some ⟨area.nextInode, .bare⟩
        else area.entry other := by
  unfold create at created
  split at created
  · next free =>
      cases created
      refine ⟨free, rfl, ?_⟩
      intro other
      exact Function.update_apply ..
  · cases created

theorem move_eq_some
    {old new : EntryName}
    {after : TemporaryArea}
    (moved : area.move old new = some after) :
    ∃ found, area.entry old = some found ∧ area.Free new ∧
      after.spent = area.spent ∧
      ∀ other, after.entry other =
        if other = new then some found
        else if other = old then none
        else area.entry other := by
  unfold move at moved
  split at moved
  · cases moved
  · next found stands =>
      split at moved
      · next free =>
          cases moved
          refine ⟨found, stands, free, rfl, ?_⟩
          intro other
          exact Function.update_apply ..
      · cases moved

theorem create_isSome
    {name : EntryName}
    (free : area.Free name) :
    ∃ after, area.create name = some after := by
  rw [create, dif_pos free]
  exact ⟨_, rfl⟩

theorem move_isSome
    {old new : EntryName}
    {found : AreaEntry}
    (stands : area.entry old = some found)
    (free : area.Free new) :
    ∃ after, area.move old new = some after := by
  unfold move
  split
  · next absent =>
      rw [stands] at absent
      cases absent
  · rw [dif_pos free]
    exact ⟨_, rfl⟩

theorem nextInode_create
    {name : EntryName}
    {after : TemporaryArea}
    (created : area.create name = some after) :
    after.nextInode = area.nextInode + 1 := by
  unfold create at created
  split at created
  · cases created
    rfl
  · cases created

theorem nextInode_move
    {old new : EntryName}
    {after : TemporaryArea}
    (moved : area.move old new = some after) :
    after.nextInode = area.nextInode := by
  unfold move at moved
  split at moved
  · cases moved
  · split at moved
    · cases moved
      rfl
    · cases moved

/-- A drawn id makes fresh names. -/
theorem free_of_drawn
    {id : String}
    (unspent : id ∉ area.spent)
    {name : EntryName}
    (named : name.operation = some id) :
    (area.draw id).Free name := by
  constructor
  · cases stands : area.entry name with
    | none => exact stands
    | some found =>
        have present : (area.entry name).isSome := by rw [stands]; rfl
        exact absurd (area.issued name id present named) unspent
  · intro other same
    rw [named] at same
    cases same
    exact List.mem_cons_self

end TemporaryArea
end ModelKeep
