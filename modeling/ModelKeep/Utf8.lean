import Mathlib.Data.List.Basic
import Mathlib.Data.Nat.Notation

/-!
# UTF-8

The bytes of a text, and a reading of any bytes at all in which every part that
is not well formed, as long as it can be the start of a character, becomes one
replacement character.
-/

namespace Utf8

/-- The bytes of a character, by its code point. -/
def units (code : Nat) : List Nat :=
  if code < 0x80 then
    [code]
  else if code < 0x800 then
    [0xC0 + code / 64, 0x80 + code % 64]
  else if code < 0x10000 then
    [0xE0 + code / 4096, 0x80 + code / 64 % 64, 0x80 + code % 64]
  else
    [0xF0 + code / 262144, 0x80 + code / 4096 % 64, 0x80 + code / 64 % 64,
      0x80 + code % 64]

/-- The bytes of a text. -/
def encode (text : String) : List UInt8 :=
  (text.toList.flatMap fun character => units character.toNat).map UInt8.ofNat

/-- `char::REPLACEMENT_CHARACTER` -/
def replacement : Char := Char.ofNat 0xFFFD

def isContinuation (byte : Nat) : Bool :=
  0x80 ≤ byte && byte < 0xC0

/-- Whether a byte may follow the first one of a character of three or four
bytes.  Some first bytes leave less room. -/
def isSecond (lead byte : Nat) : Bool :=
  isContinuation byte &&
    (lead ≠ 0xE0 || 0xA0 ≤ byte) && (lead ≠ 0xED || byte < 0xA0) &&
    (lead ≠ 0xF0 || 0x90 ≤ byte) && (lead ≠ 0xF4 || byte < 0x90)

/-- The first character of some bytes, and the bytes that follow it. -/
def chunk (lead : Nat) (rest : List Nat) : Char × List Nat :=
  if lead < 0x80 then
    (Char.ofNat lead, rest)
  else if lead < 0xC2 then
    (replacement, rest)
  else if lead < 0xE0 then
    match rest with
    | [] => (replacement, [])
    | second :: afterSecond =>
        if isContinuation second then
          (Char.ofNat ((lead - 0xC0) * 64 + (second - 0x80)), afterSecond)
        else
          (replacement, rest)
  else if lead < 0xF0 then
    match rest with
    | [] => (replacement, [])
    | second :: afterSecond =>
        if isSecond lead second then
          match afterSecond with
          | [] => (replacement, [])
          | third :: afterThird =>
              if isContinuation third then
                (Char.ofNat ((lead - 0xE0) * 4096 + (second - 0x80) * 64 +
                  (third - 0x80)), afterThird)
              else
                (replacement, afterSecond)
        else
          (replacement, rest)
  else if lead < 0xF5 then
    match rest with
    | [] => (replacement, [])
    | second :: afterSecond =>
        if isSecond lead second then
          match afterSecond with
          | [] => (replacement, [])
          | third :: afterThird =>
              if isContinuation third then
                match afterThird with
                | [] => (replacement, [])
                | fourth :: afterFourth =>
                    if isContinuation fourth then
                      (Char.ofNat ((lead - 0xF0) * 262144 +
                        (second - 0x80) * 4096 + (third - 0x80) * 64 +
                        (fourth - 0x80)), afterFourth)
                    else
                      (replacement, afterThird)
              else
                (replacement, afterSecond)
        else
          (replacement, rest)
  else
    (replacement, rest)

/-- The characters of some bytes; every one takes at least a byte. -/
def decodeFrom : Nat → List Nat → List Char
  | 0, _ => []
  | _ + 1, [] => []
  | fuel + 1, lead :: rest =>
      (chunk lead rest).1 :: decodeFrom fuel (chunk lead rest).2

/-- `String::from_utf8_lossy` -/
def fromUtf8Lossy (bytes : List UInt8) : String :=
  String.ofList (decodeFrom bytes.length (bytes.map UInt8.toNat))

/-! ## What was encoded is read back -/

theorem chunk_units
    (character : Char)
    (rest : List Nat) :
    ∃ lead others, units character.toNat = lead :: others ∧
      chunk lead (others ++ rest) = (character, rest) := by
  have valid : character.toNat < 0xD800 ∨
      0xDFFF < character.toNat ∧ character.toNat < 0x110000 :=
    character.valid
  have back : Char.ofNat character.toNat = character :=
    Char.ofNat_toNat character
  generalize character.toNat = code at valid back
  unfold units
  split
  · exact ⟨_, _, rfl, by
      unfold chunk
      rw [if_pos (by assumption), back]
      rfl⟩
  split
  · refine ⟨_, _, rfl, ?_⟩
    have continues : isContinuation (0x80 + code % 64) = true := by
      simp only [isContinuation, Bool.and_eq_true, decide_eq_true_eq]
      omega
    have whole : (0xC0 + code / 64 - 0xC0) * 64 + (0x80 + code % 64 - 0x80) =
        code := by omega
    unfold chunk
    rw [if_neg (by omega), if_neg (by omega), if_pos (by omega)]
    simp only [List.cons_append, List.nil_append, continues, if_true, whole,
      back]
  split
  · refine ⟨_, _, rfl, ?_⟩
    have follows : isSecond (0xE0 + code / 4096) (0x80 + code / 64 % 64) =
        true := by
      simp only [isSecond, isContinuation, Bool.and_eq_true, Bool.or_eq_true,
        decide_eq_true_eq]
      omega
    have continues : isContinuation (0x80 + code % 64) = true := by
      simp only [isContinuation, Bool.and_eq_true, decide_eq_true_eq]
      omega
    have whole : (0xE0 + code / 4096 - 0xE0) * 4096 +
        (0x80 + code / 64 % 64 - 0x80) * 64 + (0x80 + code % 64 - 0x80) =
        code := by omega
    unfold chunk
    rw [if_neg (by omega), if_neg (by omega), if_neg (by omega),
      if_pos (by omega)]
    simp only [List.cons_append, List.nil_append, follows, continues, if_true,
      whole, back]
  · refine ⟨_, _, rfl, ?_⟩
    have follows : isSecond (0xF0 + code / 262144)
        (0x80 + code / 4096 % 64) = true := by
      simp only [isSecond, isContinuation, Bool.and_eq_true, Bool.or_eq_true,
        decide_eq_true_eq]
      omega
    have continues : ∀ digits, isContinuation (0x80 + digits % 64) = true := by
      intro digits
      simp only [isContinuation, Bool.and_eq_true, decide_eq_true_eq]
      omega
    have whole : (0xF0 + code / 262144 - 0xF0) * 262144 +
        (0x80 + code / 4096 % 64 - 0x80) * 4096 +
        (0x80 + code / 64 % 64 - 0x80) * 64 + (0x80 + code % 64 - 0x80) =
        code := by omega
    unfold chunk
    rw [if_neg (by omega), if_neg (by omega), if_neg (by omega),
      if_neg (by omega), if_pos (by omega)]
    simp only [List.cons_append, List.nil_append, follows, continues, if_true,
      whole, back]

theorem decodeFrom_units
    (text : List Char)
    {fuel : Nat}
    (enough :
      (text.flatMap fun character => units character.toNat).length ≤ fuel) :
    decodeFrom fuel (text.flatMap fun character => units character.toNat) =
      text := by
  induction text generalizing fuel with
  | nil => cases fuel <;> rfl
  | cons character text inductionHypothesis =>
      obtain ⟨lead, others, starts, reads⟩ := chunk_units character
        (text.flatMap fun character => units character.toNat)
      rw [List.flatMap_cons, starts, List.cons_append] at enough ⊢
      cases fuel with
      | zero => cases enough
      | succ fuel =>
          rw [decodeFrom, reads]
          rw [List.length_cons, List.length_append] at enough
          rw [inductionHypothesis (by omega)]

theorem unit_lt
    (character : Char) :
    ∀ unit ∈ units character.toNat, unit < 256 := by
  have small : character.toNat < 0x110000 := by
    have valid : character.toNat < 0xD800 ∨
        0xDFFF < character.toNat ∧ character.toNat < 0x110000 :=
      character.valid
    omega
  intro unit member
  unfold units at member
  split at member
  · simp only [List.mem_singleton] at member
    omega
  split at member
  · simp only [List.mem_cons, List.not_mem_nil, or_false] at member
    omega
  split at member
  · simp only [List.mem_cons, List.not_mem_nil, or_false] at member
    omega
  · simp only [List.mem_cons, List.not_mem_nil, or_false] at member
    omega

@[simp] theorem fromUtf8Lossy_encode (text : String) :
    fromUtf8Lossy (encode text) = text := by
  have numbers : (encode text).map UInt8.toNat =
      text.toList.flatMap fun character => units character.toNat := by
    unfold encode
    rw [List.map_map]
    conv_rhs => rw [← List.map_id (text.toList.flatMap _)]
    apply List.map_congr_left
    intro unit member
    obtain ⟨character, _, within⟩ := List.mem_flatMap.mp member
    exact Nat.mod_eq_of_lt (unit_lt character unit within)
  unfold fromUtf8Lossy
  rw [numbers, decodeFrom_units]
  · exact String.ofList_toList
  · exact Nat.le_of_eq (List.length_map ..).symm

theorem encode_injective : Function.Injective encode := by
  intro left right same
  rw [← fromUtf8Lossy_encode left, same, fromUtf8Lossy_encode]

end Utf8
