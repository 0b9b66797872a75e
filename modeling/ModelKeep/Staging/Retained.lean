import ModelKeep.Staging.Calls
import ModelKeep.Text
import ModelKeep.Utf8

/-!
# Retained staging

The entries of the temporary area are named by whatever made them, so a name
is any bytes.  A listing shows them as text, and a removal is given text: what
one shows and the other acts on are told apart here.
-/

namespace ModelKeep
namespace Staging

open Utf8 (encode fromUtf8Lossy)

/-! ## Names -/

/-- The name of a directory entry. -/
abbrev RawName : Type := List UInt8

/-- `bounded_archive_detail` -/
def boundedArchiveDetail (value : String) : String :=
  let line := singleLine value
  if 200 < line.length then
    String.ofList ((line.take 200).rdropWhile Archive.isWhitespace) ++
      "...[truncated]"
  else
    String.ofList line

/-- A component of a path, as `Path::components` yields it. -/
inductive PathComponent
  | rootDir
  | curDir
  | parentDir
  | normal (name : String)
  deriving DecidableEq

/-- `Path::components` -/
def pathComponents (path : String) : List PathComponent :=
  (if startsWith path "/" then [.rootDir]
    else if (splitPath path).head? = some "." then [.curDir]
    else []) ++
  (splitPath path).filterMap fun part =>
    if part = "" ∨ part = "." then none
    else if part = ".." then some .parentDir
    else some (.normal part)

/-- `validate_staging_name` -/
def validateStagingName (name : String) : Except ArchiveError Unit := do
  validateComponent name
  let singleOrdinary : Bool :=
    match pathComponents name with
    | [.normal _] => true
    | _ => false
  if 255 < name.utf8ByteSize ∨ startsWith name ".." ∨ !singleOrdinary ∨
      boundedArchiveDetail name ≠ name then
    .error (.invalidPath name)
  else
    .ok ()

/-- What a path leads to that was joined to the one of the temporary area. -/
inductive Place
  /-- A direct child. -/
  | child (name : RawName)
  | elsewhere (path : String)
  deriving DecidableEq

/-- `staging_root.join(name)` -/
def joined (name : String) : Place :=
  match pathComponents name with
  | [.normal component] => .child (encode component)
  | _ => .elsewhere name

/-! ## The temporary area -/

structure StagingUsage where
  sizeBytes : Nat
  fileCount : Nat
  complete : Bool

/-- A directory with what there is to tell of it. -/
structure RetainedDir where
  dir : StagingDir
  /-- `measure_staging_usage` -/
  usage : StagingUsage
  /-- `staging_age_seconds` -/
  ageSeconds : Nat

/-- What is found at a place. -/
inductive Child
  | directory (found : RetainedDir)
  /-- A file, or a link to anything at all. -/
  | other

structure SkippedStagingRecord where
  action : String
  ioKind : String

/-- The temporary area, and what startup recovery could not reclaim. -/
structure Retained where
  entry : Place → Option Child
  names : List RawName
  mem_names : ∀ name, name ∈ names ↔ (entry (.child name)).isSome
  distinct : names.Nodup
  skipped : String → Option SkippedStagingRecord

/-- Remove what is at a place, and the record of its name. -/
def Retained.remove (retained : Retained) (place : Place) (name : String) :
    Retained where
  entry := fun other => if other = place then none else retained.entry other
  names := retained.names.filter fun other => Place.child other ≠ place
  mem_names := by
    intro other
    rw [List.mem_filter, retained.mem_names]
    by_cases same : Place.child other = place <;> simp [same]
  distinct := retained.distinct.filter _
  skipped := fun other => if other = name then none else retained.skipped other

/-! ## Listing -/

inductive StagingRetention
  | active
  | resumable
  | unreadableLease
  | notReclaimable
  | stale
  deriving DecidableEq

structure RetainedStaging where
  name : String
  retention : StagingRetention
  removable : Bool
  adoptable : Bool
  repoType : Option RepositoryType
  repoId : Option String
  requestedRevision : Option String
  commit : Option String
  selection : List String
  sizeBytes : Nat
  fileCount : Nat
  sizeComplete : Bool
  ageSeconds : Nat
  leaseExpiresInSeconds : Nat
  recoverySkippedAction : Option String
  recoverySkippedIoKind : Option String

/-- `classify_staging_retention` -/
def classifyStagingRetention
    (active leaseReadable recoverySkipped adoptable : Bool) :
    StagingRetention :=
  if active then .active
  else if recoverySkipped then .notReclaimable
  else if !leaseReadable then .unreadableLease
  else if adoptable then .resumable
  else .stale

/-- `staging_is_adoptable` -/
def stagingIsAdoptable (name : String)
    (identity : Option FetchStagingMetadata) : Bool :=
  (startsWith name "fetch-abandoned-" || startsWith name ".fetch-active-") &&
    identity.any fun identity => identity.resolvedCommit.isSome

/-- `read_lease_expiry`, if it succeeds. -/
def StagingDir.expiresAt (dir : StagingDir) : Option Nat :=
  dir.lease.expiry.toOption

/-- `read_fetch_staging_metadata`, if it succeeds. -/
def StagingDir.metadata (dir : StagingDir) : Option FetchStagingMetadata :=
  (dir.readIdentity >>= checkMetadata).toOption

/-- What is listed of a directory. -/
def describe (now : Nat) (skipped : String → Option SkippedStagingRecord)
    (raw : RawName) (found : RetainedDir) : RetainedStaging :=
  let rawName := fromUtf8Lossy raw
  let expiresAt := StagingDir.expiresAt found.dir
  let identity := StagingDir.metadata found.dir
  let active := expiresAt.any fun expiresAt => now < expiresAt
  let record := skipped rawName
  let adoptable :=
    !active && expiresAt.isSome && stagingIsAdoptable rawName identity
  { name := boundedArchiveDetail rawName
    retention := classifyStagingRetention active expiresAt.isSome
      record.isSome adoptable
    removable := !active && (validateStagingName rawName).isOk
    adoptable := adoptable
    repoType := identity.map FetchStagingMetadata.repoType
    repoId := identity.map FetchStagingMetadata.repoId
    requestedRevision := identity.map FetchStagingMetadata.requestedRevision
    commit := identity.bind FetchStagingMetadata.resolvedCommit
    selection := (identity.map FetchStagingMetadata.files).getD []
    sizeBytes := found.usage.sizeBytes
    fileCount := found.usage.fileCount
    sizeComplete := found.usage.complete
    ageSeconds := found.ageSeconds
    leaseExpiresInSeconds :=
      (expiresAt.map fun expiresAt => expiresAt - now).getD 0
    recoverySkippedAction := record.map SkippedStagingRecord.action
    recoverySkippedIoKind := record.map SkippedStagingRecord.ioKind }

/-- Oldest first, then by name. -/
def listedBefore (left right : RetainedStaging) : Prop :=
  right.ageSeconds < left.ageSeconds ∨
    right.ageSeconds = left.ageSeconds ∧ left.name ≤ right.name

instance : DecidableRel listedBefore := fun _ _ =>
  inferInstanceAs (Decidable (_ ∨ _))

/-- `list_retained_staging` -/
def listRetainedStaging (now : Nat) (retained : Retained) :
    List RetainedStaging :=
  (retained.names.filterMap fun raw =>
    match retained.entry (.child raw) with
    | some (.directory found) =>
        some (describe now retained.skipped raw found)
    | _ => none).insertionSort listedBefore

/-! ## Removing -/

structure RemovedStaging where
  name : String
  retention : StagingRetention
  sizeBytes : Nat
  fileCount : Nat

inductive StagingRemovalError
  | unsafeName
  | notFound
  | notDirectory
  | active (expiresInSeconds : Nat)

/-- `remove_retained_staging`, when no step of it fails. -/
def removeRetainedStaging (now : Nat) (name : String) (before : Retained) :
    Except StagingRemovalError RemovedStaging × Retained :=
  match validateStagingName name with
  | .error _ => (.error .unsafeName, before)
  | .ok () =>
      match before.entry (joined name) with
      | none => (.error .notFound, before)
      | some .other => (.error .notDirectory, before)
      | some (.directory found) =>
          let expiresAt := StagingDir.expiresAt found.dir
          match expiresAt.filter fun expiresAt => now < expiresAt with
          | some expiresAt => (.error (.active (expiresAt - now)), before)
          | none =>
              let identity := StagingDir.metadata found.dir
              let retention := classifyStagingRetention false
                expiresAt.isSome (before.skipped name).isSome
                (expiresAt.isSome && stagingIsAdoptable name identity)
              (.ok ⟨boundedArchiveDetail name, retention,
                found.usage.sizeBytes, found.usage.fileCount⟩,
                before.remove (joined name) name)

end Staging
end ModelKeep
