import ModelKeep.FileSystem.Steps
import ModelKeep.Json.Text

/-!
# The text of a manifest

`write_manifest` spells a manifest out piece by piece, and `serde_json` reads
it.  The pieces are the compact text of a JSON value, because what is written
without escapes is hexadecimal and the validators admit no control characters.
-/

namespace ModelKeep

open FileSystem.Setting (jsonEscape manifestEntryText manifestEntryPieces
  manifestPieces)

/-- `hex_digest`. -/
def hexDigest (digest : Bytes) : String :=
  String.ofList (digest.flatMap fun byte =>
    [Nat.digitChar (byte.toNat / 16), Nat.digitChar (byte.toNat % 16)])

/-- What `write_manifest` writes, as a whole. -/
def manifestText (commit : String) (archivedAt : Nat) (manifest : Manifest) :
    String :=
  String.join (manifestPieces manifest.repoType manifest.repoId
    manifest.requestedRevision commit archivedAt manifest.files)

/-! ## Decoding -/

namespace Manifest

/-- `Deserialize for RepositoryType`. -/
def typeOfJson (value : Json) : Option RepositoryType :=
  match value.asText with
  | some "model" => some .model
  | some "dataset" => some .dataset
  | _ => none

/-- The names of an object's members, when none comes twice. -/
def distinct (value : Json) : Option Json :=
  match value with
  | .object members =>
      if (members.map Prod.fst).Nodup then some value else none
  | _ => none

/-- `Deserialize for ManifestFile`. -/
def fileOfJson (value : Json) : Option ManifestFile := do
  let value ← distinct value
  let path ← Json.required Json.asText (value.get? "path")
  let size ← Json.required (Json.asBounded (2 ^ 64)) (value.get? "size")
  let sha256 ← Json.required Json.asText (value.get? "sha256")
  return ⟨path, size, sha256⟩

/-- `Deserialize for Manifest`, of an object that names no field twice. -/
def ofJson (value : Json) : Option Manifest := do
  let value ← distinct value
  let complete ← Json.orDefault false Json.asBool (value.get? "complete")
  let repoType ← Json.orDefault .model typeOfJson (value.get? "repo_type")
  let repoId ← Json.orDefault "" Json.asText (value.get? "repo_id")
  let requestedRevision ← Json.orDefault "" Json.asText
    (value.get? "requested_revision")
  let files ← Json.required (Json.asList fileOfJson) (value.get? "files")
  return ⟨complete, repoType, repoId, requestedRevision, files⟩

end Manifest

/-- The decoder is a JSON decoder: it finds what the text says, as long as
less than 128 objects and arrays are nested. -/
def ManifestCodec.ReadsJson (codec : ManifestCodec) : Prop :=
  ∀ text value manifest, Json.read text = some value → value.depth < 128 →
    Manifest.ofJson value = some manifest → codec.fromStr text = .ok manifest

/-! ## The value that is spelled out -/

def entryJson (entry : ManifestFile) : Json :=
  .object [("path", .text entry.path), ("size", .natural entry.size),
    ("sha256", .text entry.sha256)]

def manifestJson (commit : String) (archivedAt : Nat) (manifest : Manifest) :
    Json :=
  .object [("version", .natural 1), ("complete", .bool true),
    ("repo_type", .text manifest.repoType.display),
    ("repo_id", .text manifest.repoId),
    ("requested_revision", .text manifest.requestedRevision),
    ("commit", .text commit), ("archived_at", .natural archivedAt),
    ("files", .array (manifest.files.map entryJson))]

/-- Hexadecimal digits only. -/
def IsHex (value : String) : Prop :=
  ∀ character ∈ value.toList, isAsciiHexdigit character = true

/-- An entry that `write_manifest` can spell out. -/
structure ManifestFile.Spellable (entry : ManifestFile) : Prop where
  path : Json.Printable entry.path
  size : entry.size < 2 ^ 64
  sha256 : IsHex entry.sha256

/-- A manifest that `write_manifest` can spell out. -/
structure Manifest.Spellable (manifest : Manifest) : Prop where
  complete : manifest.complete = true
  repoId : Json.Printable manifest.repoId
  requestedRevision : Json.Printable manifest.requestedRevision
  files : ∀ entry ∈ manifest.files, entry.Spellable

variable
  {codec : ManifestCodec}
  {commit : String}
  {archivedAt : Nat}
  {manifest : Manifest}

/-! ## Characters -/

theorem code_of_hex
    {character : Char}
    (hex : isAsciiHexdigit character = true) :
    48 ≤ character.toNat ∧ character.toNat ≤ 102 ∧ character ≠ '"' ∧
      character ≠ '\\' := by
  have bounds : 48 ≤ character.toNat ∧ character.toNat ≤ 102 := by
    simp only [isAsciiHexdigit, Char.isDigit, Bool.or_eq_true,
      Bool.and_eq_true, decide_eq_true_eq, Char.le_def, ge_iff_le] at hex
    have digits : ∀ other : Char, other.val.toNat = other.toNat :=
      fun _ => rfl
    rcases hex with (⟨low, high⟩ | ⟨low, high⟩) | ⟨low, high⟩ <;>
      (rw [UInt32.le_iff_toNat_le] at low high
       simp only [digits] at low high
       constructor
       · exact Nat.le_trans (by decide) low
       · exact Nat.le_trans high (by decide))
  refine ⟨bounds.1, bounds.2, ?_, ?_⟩
  · rintro rfl
    revert hex
    decide
  · rintro rfl
    revert hex
    decide

theorem IsHex.printable
    {value : String}
    (hex : IsHex value) :
    Json.Printable value := by
  intro character member
  have := (code_of_hex (hex character member)).1
  omega

theorem IsHex.escape
    {value : String}
    (hex : IsHex value) :
    Json.escape value.toList = value.toList := by
  apply Json.escape_eq_self
  intro character member
  exact (code_of_hex (hex character member)).2.2

theorem isHex_hexDigest (digest : Bytes) :
    IsHex (hexDigest digest) := by
  have digit : ∀ value, value < 16 →
      isAsciiHexdigit (Nat.digitChar value) = true := by
    decide
  intro character member
  unfold hexDigest at member
  rw [String.toList_ofList, List.mem_flatMap] at member
  obtain ⟨byte, _, member⟩ := member
  have bounded := byte.toNat_lt
  simp only [List.mem_cons, List.not_mem_nil, or_false] at member
  rcases member with rfl | rfl
  · exact digit _ (by omega)
  · exact digit _ (by omega)

/-! ## The text is that of the value -/

theorem toList_jsonEscape (value : String) :
    (jsonEscape value).toList = Json.escape value.toList := by
  unfold jsonEscape Json.escape
  rw [String.toList_ofList]

theorem toList_manifestEntryText
    {entry : ManifestFile}
    (spellable : entry.Spellable) :
    (manifestEntryText entry).toList = (entryJson entry).render := by
  unfold manifestEntryText entryJson
  simp only [String.toList_append, toList_jsonEscape, Json.render,
    Json.renderMembers, Json.quote, spellable.sha256.escape,
    Nat.toString_eq_ofList_toDigits, String.toList_ofList]
  generalize Json.escape entry.path.toList = path
  simp [Json.escape]

theorem toList_manifestEntryPieces
    {entries : List ManifestFile}
    (spellable : ∀ entry ∈ entries, entry.Spellable) :
    '[' :: (String.join (manifestEntryPieces entries)).toList ++ [']'] =
      (Json.array (entries.map entryJson)).render := by
  -- What follows the first entry has a comma in front of each entry.
  have further : ∀ (first : ManifestFile) (rest : List ManifestFile),
      (∀ entry ∈ first :: rest, entry.Spellable) →
      (String.join (manifestEntryPieces (first :: rest))).toList ++ [']'] =
        (entryJson first).render ++
          Json.renderElements (rest.map entryJson) := by
    intro first rest
    induction rest generalizing first with
    | nil =>
        intro spellable
        simp [manifestEntryPieces, Json.renderElements,
          toList_manifestEntryText (spellable first (by simp))]
    | cons second rest inductionHypothesis =>
        intro spellable
        obtain ⟨here, later⟩ := List.forall_mem_cons.mp spellable
        have others := inductionHypothesis second later
        simp only [manifestEntryPieces, String.join_cons,
          String.toList_append, List.append_assoc, others, List.map_cons,
          Json.renderElements, toList_manifestEntryText here]
        simp
  cases entries with
  | nil => rfl
  | cons first rest =>
      rw [List.cons_append, further first rest spellable, List.map_cons,
        Json.render]
      rfl

/-- The text of a manifest is the compact text of its value. -/
theorem manifestText_eq
    (hex : IsHex commit)
    (spellable : manifest.Spellable) :
    manifestText commit archivedAt manifest = String.ofList
      ((manifestJson commit archivedAt manifest).render ++ ['\n']) := by
  have files := toList_manifestEntryPieces spellable.files
  have kind : Json.escape manifest.repoType.display.toList =
      manifest.repoType.display.toList := by
    cases manifest.repoType <;> decide
  have header : (manifestText commit archivedAt manifest).toList =
      (manifestJson commit archivedAt manifest).render ++ ['\n'] := by
    unfold manifestText manifestPieces manifestJson
    simp only [String.toList_append, String.join_cons, String.join_append,
      List.cons_append, String.join_nil, String.toList_empty,
      toList_jsonEscape, Json.render,
      Json.renderMembers, Json.quote, ← files, hex.escape, kind,
      Nat.toString_eq_ofList_toDigits, String.toList_ofList]
    generalize Json.escape manifest.repoId.toList = repoId
    generalize Json.escape manifest.requestedRevision.toList = revision
    have version : Nat.toDigits 10 1 = ['1'] := rfl
    simp [Json.escape, version]
  rw [← header, String.ofList_toList]

/-! ## What the decoder finds -/

theorem plain_manifestJson
    (hex : IsHex commit)
    (bounded : archivedAt < 2 ^ 64)
    (spellable : manifest.Spellable) :
    (manifestJson commit archivedAt manifest).Plain := by
  have word : ∀ value : String, IsHex value ∨ value ∈ ["version", "complete",
      "repo_type", "repo_id", "requested_revision", "commit", "archived_at",
      "files", "path", "size", "sha256", "model", "dataset"] →
      Json.Printable value := by
    rintro value (hex | member)
    · exact hex.printable
    · have each : value.toList.all
          (fun character => ¬character.toNat < 0x20) = true := by
        revert value
        decide
      intro character inside
      exact of_decide_eq_true (List.all_eq_true.mp each character inside)
  have files : Json.PlainElements (manifest.files.map entryJson) := by
    have each := spellable.files
    generalize manifest.files = entries at each ⊢
    induction entries with
    | nil => trivial
    | cons entry rest inductionHypothesis =>
        obtain ⟨here, later⟩ := List.forall_mem_cons.mp each
        exact ⟨⟨word _ (by simp), here.path, word _ (by simp), here.size,
          word _ (by simp), here.sha256.printable, trivial⟩,
          inductionHypothesis later⟩
  have kind : Json.Printable manifest.repoType.display := by
    cases manifest.repoType <;> exact word _ (by simp [RepositoryType.display])
  have version : 1 < 2 ^ 64 := by decide
  exact ⟨word _ (by simp), version, word _ (by simp), trivial,
    word _ (by simp), kind, word _ (by simp), spellable.repoId,
    word _ (by simp), spellable.requestedRevision, word _ (by simp),
    hex.printable, word _ (by simp), bounded, word _ (by simp), files,
    trivial⟩

theorem depth_manifestJson :
    (manifestJson commit archivedAt manifest).depth ≤ 3 := by
  have files : Json.depthElements (manifest.files.map entryJson) ≤ 1 := by
    induction manifest.files with
    | nil => exact Nat.zero_le _
    | cons entry rest inductionHypothesis =>
        simp only [List.map_cons, Json.depthElements, entryJson, Json.depth,
          Json.depthMembers]
        omega
  simp only [manifestJson, Json.depth, Json.depthMembers]
  omega

theorem fileOfJson_entryJson
    {entry : ManifestFile}
    (spellable : entry.Spellable) :
    Manifest.fileOfJson (entryJson entry) = some entry := by
  unfold Manifest.fileOfJson Manifest.distinct entryJson
  have size : Json.asBounded (2 ^ 64) (.natural entry.size) =
      some entry.size := by
    unfold Json.asBounded Json.asNatural
    rw [Option.filter_some, if_pos (decide_eq_true spellable.size)]
  simp [Json.get?, Json.required, Json.asText, size, -Nat.reducePow]

theorem ofJson_manifestJson
    (spellable : manifest.Spellable) :
    Manifest.ofJson (manifestJson commit archivedAt manifest) =
      some manifest := by
  have files : Json.asList Manifest.fileOfJson
      (.array (manifest.files.map entryJson)) = some manifest.files := by
    unfold Json.asList Json.asArray
    have each := spellable.files
    rw [Option.bind_some]
    generalize manifest.files = entries at each ⊢
    induction entries with
    | nil => rfl
    | cons entry rest inductionHypothesis =>
        obtain ⟨here, later⟩ := List.forall_mem_cons.mp each
        rw [List.map_cons, List.mapM_cons, fileOfJson_entryJson here,
          inductionHypothesis later]
        rfl
  have kind : Manifest.typeOfJson (.text manifest.repoType.display) =
      some manifest.repoType := by
    cases manifest.repoType <;> rfl
  obtain ⟨complete, repoType, repoId, requestedRevision, entries⟩ := manifest
  have whole : complete = true := spellable.complete
  subst whole
  unfold Manifest.ofJson Manifest.distinct manifestJson
  simp only at kind files
  simp [Json.get?, Json.required, Json.orDefault, Json.asText, Json.asBool,
    kind, files]

theorem read_manifestText
    (hex : IsHex commit)
    (bounded : archivedAt < 2 ^ 64)
    (spellable : manifest.Spellable) :
    Json.read (manifestText commit archivedAt manifest) =
      some (manifestJson commit archivedAt manifest) := by
  rw [manifestText_eq hex spellable]
  exact Json.read_render (plain_manifestJson hex bounded spellable)
    (by simp [Json.isSpace])

/-- The decoder finds what was written. -/
theorem fromStr_manifestText
    (reads : codec.ReadsJson)
    (hex : IsHex commit)
    (bounded : archivedAt < 2 ^ 64)
    (spellable : manifest.Spellable) :
    codec.fromStr (manifestText commit archivedAt manifest) = .ok manifest :=
  reads _ _ _ (read_manifestText hex bounded spellable)
    (Nat.lt_of_le_of_lt depth_manifestJson (by decide))
    (ofJson_manifestJson spellable)

end ModelKeep
