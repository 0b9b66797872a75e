import Mathlib.Data.List.Basic

/-!
# Names, paths and archive errors

Every identifier that reaches the file system passes one of the validators of
this module first: repository ids, revisions, single path components and
relative file paths.  Strings are inspected character by character, which is
what the byte tests of the source amount to, since an ASCII byte of a UTF-8
string is always a character of its own.
-/

namespace ModelKeep

/-- File contents. -/
abbrev Bytes : Type := List UInt8

/-- The two archive namespaces. -/
inductive RepositoryType
  | model
  | dataset
  deriving DecidableEq

/-- `fmt::Display for RepositoryType`. -/
def RepositoryType.display : RepositoryType → String
  | .model => "model"
  | .dataset => "dataset"

/-- The kinds of I/O failure the archive code tells apart. -/
inductive IoErrorKind
  | notFound
  | alreadyExists
  | isADirectory
  | notADirectory
  | other
  deriving DecidableEq

/-- Why an archive operation failed. -/
inductive ArchiveError
  | io (kind : IoErrorKind)
  | invalidPath (path : String)
  | alreadyPublished (commit : String)
  | integrityMismatch (message : String)
  | referencedRevision (references : List String)
  deriving DecidableEq

/-- The kind of a failure that came from the file system. -/
def ArchiveError.ioKind : ArchiveError → Option IoErrorKind
  | .io kind => some kind
  | _ => none

/-- A computation succeeds exactly when both of its parts do. -/
theorem bind_eq_ok
    {ε α β : Type}
    {first : Except ε α}
    {rest : α → Except ε β}
    {result : β} :
    first >>= rest = .ok result ↔
      ∃ value, first = .ok value ∧ rest value = .ok result := by
  cases first with
  | error error =>
      constructor
      · intro failed
        cases failed
      · rintro ⟨_, failed, _⟩
        cases failed
  | ok value =>
      constructor
      · intro continued
        exact ⟨value, rfl, continued⟩
      · rintro ⟨_, same, continued⟩
        cases same
        exact continued

/-! ## Characters -/

/-- `byte == 0 || byte.is_ascii_control()`. -/
def isControl (character : Char) : Bool :=
  character.toNat < 32 || character.toNat == 127

/-- `byte.is_ascii_hexdigit()`. -/
def isAsciiHexdigit (character : Char) : Bool :=
  character.isDigit ||
    ('a' ≤ character && character ≤ 'f') ||
    ('A' ≤ character && character ≤ 'F')

/-- `value.starts_with(prefix)`. -/
def startsWith (value start : String) : Bool :=
  start.toList.isPrefixOf value.toList

/-! ## Paths as component lists -/

/-- `value.split('/')`. -/
def splitPath (value : String) : List String :=
  (value.toList.splitOn '/').map String.ofList

/-- The components joined by `/`. -/
def joinPath (components : List String) : String :=
  String.ofList (['/'].intercalate (components.map String.toList))

@[simp] theorem joinPath_splitPath (value : String) :
    joinPath (splitPath value) = value := by
  have identity : String.toList ∘ String.ofList = id := by
    funext characters
    simp
  rw [joinPath, splitPath, List.map_map, identity, List.map_id,
    List.intercalate_splitOn, String.ofList_toList]

theorem splitPath_injective : Function.Injective splitPath := by
  intro left right equal
  rw [← joinPath_splitPath left, equal, joinPath_splitPath]

@[simp] theorem splitPath_joinPath
    {components : List String}
    (nonempty : components ≠ [])
    (separate : ∀ component ∈ components, '/' ∉ component.toList) :
    splitPath (joinPath components) = components := by
  have identity : String.ofList ∘ String.toList = id := by
    funext component
    simp
  rw [splitPath, joinPath, String.toList_ofList, List.splitOn_intercalate,
    List.map_map, identity, List.map_id]
  · intro characters member
    obtain ⟨component, present, rfl⟩ := List.mem_map.mp member
    exact separate component present
  · simpa using nonempty

theorem splitPath_ne_nil (value : String) : splitPath value ≠ [] := by
  rw [splitPath, ne_eq, List.map_eq_nil_iff]
  exact List.splitOn_ne_nil '/' value.toList

/-! ## Validators -/

/-- A single name inside a directory. -/
def validateComponent (value : String) : Except ArchiveError Unit :=
  if value = "" ∨ value = "." ∨ value = ".." ∨
      value.toList.contains '/' ∨ value.toList.contains '\\' ∨
      value.toList.any isControl then
    .error (.invalidPath value)
  else
    .ok ()

/-- A repository id is a namespace and a name. -/
def validateRepoId (repoId : String) :
    Except ArchiveError (String × String) :=
  match splitPath repoId with
  | [namespaceName, name] =>
      if namespaceName = "" ∨ name = "" then
        .error (.invalidPath repoId)
      else do
        validateComponent namespaceName
        validateComponent name
        return (namespaceName, name)
  | _ => .error (.invalidPath repoId)

/-- A revision is up to 128 hexadecimal digits. -/
def validateRevision (revision : String) : Except ArchiveError Unit :=
  if revision = "" ∨ 128 < revision.toList.length ∨
      ¬revision.toList.all isAsciiHexdigit then
    .error (.invalidPath revision)
  else
    .ok ()

/-- A full commit id of the hub. -/
def isHfCommit (value : String) : Bool :=
  value.toList.length == 40 && value.toList.all isAsciiHexdigit

/-- Names inside a revision directory that are not archive content. -/
def isInternalArchivePath (value : String) : Bool :=
  match splitPath value with
  | [] => false
  | first :: rest =>
      startsWith first ".modelkeep-" || first == ".cache" ||
        rest.any (· == ".cache")

/-- A path inside a revision directory.  Empty and `.` components pass. -/
def validateRelativeFilePath (value : String) : Except ArchiveError Unit :=
  if value = "" ∨ startsWith value "/" ∨ isInternalArchivePath value ∨
      value.toList.any isControl ∨ (splitPath value).contains ".." then
    .error (.invalidPath value)
  else
    .ok ()

/-- The components that name something: a path without its empty and `.`
components. -/
def plainComponents (value : String) : List String :=
  (splitPath value).filter fun component =>
    component ≠ "" ∧ component ≠ "."

/-- Where a path that is to name a file leads.  A path that ends in an empty
or `.` component can only name a directory. -/
def filePlace (value : String) : Option (List String) :=
  match (splitPath value).getLast? with
  | none => none
  | some last =>
      if last = "" ∨ last = "." then none else some (plainComponents value)

/-- An accepted path in its plain spelling, as the importer and the fetch
helper supply it. -/
structure CanonicalPath (value : String) : Prop where
  valid : validateRelativeFilePath value = .ok ()
  plain : ∀ component ∈ splitPath value, component ≠ "" ∧ component ≠ "."

namespace CanonicalPath

variable {value : String}

theorem plainComponents_eq (canonical : CanonicalPath value) :
    plainComponents value = splitPath value := by
  rw [plainComponents, List.filter_eq_self]
  intro component member
  simpa using canonical.plain component member

theorem filePlace_eq (canonical : CanonicalPath value) :
    filePlace value = some (splitPath value) := by
  unfold filePlace
  cases last : (splitPath value).getLast? with
  | none => exact absurd (List.getLast?_eq_none_iff.mp last) (splitPath_ne_nil value)
  | some component =>
      have plain := canonical.plain component (List.mem_of_getLast? last)
      dsimp only
      rw [if_neg (by simp [plain]), canonical.plainComponents_eq]

theorem not_parent
    (canonical : CanonicalPath value)
    {component : String}
    (member : component ∈ splitPath value) :
    component ≠ ".." := by
  intro equal
  subst equal
  have valid := canonical.valid
  rw [validateRelativeFilePath] at valid
  split at valid
  · cases valid
  · simp_all

theorem not_internal (canonical : CanonicalPath value) :
    isInternalArchivePath value = false := by
  have valid := canonical.valid
  rw [validateRelativeFilePath] at valid
  split at valid
  · cases valid
  · simp_all

end CanonicalPath

end ModelKeep
