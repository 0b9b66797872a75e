import ModelKeep.Jobs.Record

/-!
# Keys of the history

The key of a job ends with its id, and only that id can be read from it.
-/

namespace ModelKeep
namespace Jobs

theorem toNat_lt_of_jobId
    {id : String}
    (valid : isJobId id = true)
    {character : Char}
    (member : character ∈ id.toList) :
    character.toNat < 128 := by
  have allowed : ∀ other ∈ id.toList,
      (isAsciiAlphanumeric other || other = '-' || other = '_') = true := by
    unfold isJobId at valid
    rw [Bool.and_eq_true, List.all_eq_true] at valid
    exact valid.2
  have here := allowed character member
  have bounded : ∀ last : Char, last.val.toNat < 128 →
      character ≤ last → character.toNat < 128 :=
    fun last small below => lt_of_le_of_lt below small
  unfold isAsciiAlphanumeric Char.isDigit at here
  simp only [Bool.or_eq_true, Bool.and_eq_true, decide_eq_true_eq] at here
  rcases here with
    (((⟨_, digit⟩ | ⟨_, lower⟩) | ⟨_, upper⟩) | rfl) | rfl
  · exact bounded '9' (by decide) digit
  · exact bounded 'z' (by decide) lower
  · exact bounded 'Z' (by decide) upper
  · decide
  · decide

theorem hexValue_digitChar :
    ∀ value < 16, isAsciiHexdigit (Nat.digitChar value) = true ∧
      hexValue (Nat.digitChar value) = value := by
  decide

theorem hexBytes_encode
    (characters : List Char)
    (small : ∀ character ∈ characters, character.toNat < 256) :
    hexBytes (characters.flatMap fun character => hexByte character.toNat) =
      some (characters.map Char.toNat) := by
  induction characters with
  | nil => rfl
  | cons character characters inductionHypothesis =>
      have here := small character (List.mem_cons_self ..)
      obtain ⟨high, highValue⟩ :=
        hexValue_digitChar (character.toNat / 16) (by omega)
      obtain ⟨low, lowValue⟩ :=
        hexValue_digitChar (character.toNat % 16) (by omega)
      rw [List.flatMap_cons, hexByte, List.cons_append, List.cons_append,
        List.nil_append, hexBytes, high, low, highValue, lowValue,
        inductionHypothesis fun other member =>
          small other (List.mem_cons_of_mem _ member)]
      simp only [Bool.and_self, if_true, Option.map_some, List.map_cons,
        Option.some.injEq, List.cons.injEq, and_true]
      omega

theorem hexDecode_encode
    {id : String}
    (valid : isJobId id = true) :
    hexDecode (hexEncode id) = some id := by
  have small : ∀ character ∈ id.toList, character.toNat < 128 :=
    fun _ => toNat_lt_of_jobId valid
  rw [hexDecode, hexEncode, hexBytes_encode _ fun character member =>
    (small character member).trans (by omega)]
  have ascii : (id.toList.map Char.toNat).all (· < 128) = true := by
    rw [List.all_eq_true]
    intro value member
    obtain ⟨character, inside, rfl⟩ := List.mem_map.mp member
    exact decide_eq_true (small character inside)
  have back : (id.toList.map Char.toNat).map Char.ofNat = id.toList := by
    rw [List.map_map]
    exact (List.map_congr_left fun character _ => Char.ofNat_toNat _).trans
      (List.map_id _)
  simp only [ascii, back, if_true, String.ofList_toList]

theorem padded_length
    {value : Nat}
    (small : value < 2 ^ 64) :
    (padded value).length = 20 := by
  have fits : (Nat.toDigits 10 value).length ≤ 20 :=
    (Nat.length_toDigits_le_iff (by omega) (by omega)).mpr
      (small.trans (by decide))
  rw [padded, List.leftpad, List.length_append, List.length_replicate]
  omega

theorem padded_digits
    {value : Nat}
    {character : Char}
    (member : character ∈ padded value) :
    character.isDigit = true := by
  rw [padded, List.leftpad, List.mem_append] at member
  rcases member with pad | digit
  · rw [List.eq_of_mem_replicate pad]
    rfl
  · exact Nat.isDigit_of_mem_toDigits (by omega) (by omega) digit

/-- The id is what is read from a key. -/
theorem jobId_of_historyKey
    {createdAt : Nat}
    {id : String}
    (small : createdAt < 2 ^ 64)
    (valid : isJobId id = true) :
    jobIdFromHistoryKey (historyKey createdAt id) = some id := by
  have digits : ∀ character ∈ padded createdAt,
      decide (character ≠ '-') = true := by
    intro character member
    have digit := padded_digits member
    rw [decide_eq_true_eq]
    rintro rfl
    cases digit
  have timestamp : (historyKey createdAt id).toList.takeWhile (· ≠ '-') =
      padded createdAt := by
    rw [historyKey, String.toList_ofList,
      List.takeWhile_append_of_pos digits]
    simp
  have encoded : (historyKey createdAt id).toList.dropWhile (· ≠ '-') =
      '-' :: hexEncode id := by
    rw [historyKey, String.toList_ofList,
      List.dropWhile_append_of_pos digits]
    simp
  have allDigits : (padded createdAt).all Char.isDigit = true :=
    List.all_eq_true.mpr fun _ => padded_digits
  unfold jobIdFromHistoryKey
  simp only [timestamp, encoded, padded_length small, allDigits,
    hexDecode_encode valid]
  simp [valid]

/-! ## The order of the keys -/

/-- Texts that start with as many characters compare by these first. -/
theorem append_lt_append_iff
    {left right : List Char}
    (same : left.length = right.length)
    (rest other : List Char) :
    left ++ rest < right ++ other ↔
      left < right ∨ left = right ∧ rest < other := by
  induction left generalizing right with
  | nil =>
      obtain rfl : right = [] := List.length_eq_zero_iff.mp same.symm
      simp
  | cons first left inductionHypothesis =>
      cases right with
      | nil => simp at same
      | cons second right =>
          have shorter : left.length = right.length := by simpa using same
          rw [List.cons_append, List.cons_append, List.cons_lt_cons_iff,
            inductionHypothesis shorter, List.cons_lt_cons_iff,
            List.cons.injEq]
          tauto

theorem digit_lt
    {character : Char}
    (digit : character.isDigit = true) :
    character.toNat - '0'.toNat < 10 ∧ '0'.toNat ≤ character.toNat := by
  rw [Char.isDigit, Bool.and_eq_true, decide_eq_true_eq, decide_eq_true_eq]
    at digit
  have lower : '0'.toNat ≤ character.toNat := digit.1
  have upper : character.toNat ≤ '9'.toNat := digit.2
  refine ⟨?_, lower⟩
  have last : '9'.toNat = '0'.toNat + 9 := rfl
  omega

theorem ofDigitChars_lt_pow
    {digits : List Char}
    (all : ∀ character ∈ digits, character.isDigit = true) :
    Nat.ofDigitChars 10 digits 0 < 10 ^ digits.length := by
  induction digits with
  | nil => simp
  | cons first digits inductionHypothesis =>
      have rest := inductionHypothesis fun character member =>
        all character (List.mem_cons_of_mem _ member)
      have here := (digit_lt (all first (List.mem_cons_self ..))).1
      rw [Nat.ofDigitChars_cons, Nat.mul_zero, Nat.zero_add,
        Nat.ofDigitChars_eq_ofDigitChars_zero, List.length_cons, Nat.pow_succ]
      have scaled : 10 ^ digits.length * (first.toNat - '0'.toNat) ≤
          10 ^ digits.length * 9 := Nat.mul_le_mul_left _ (by omega)
      omega

/-- Among as many digits, what is less in the dictionary is a smaller
number. -/
theorem ofDigitChars_lt
    {left right : List Char}
    (same : left.length = right.length)
    (digits : ∀ character ∈ left ++ right, character.isDigit = true)
    (less : left < right) :
    Nat.ofDigitChars 10 left 0 < Nat.ofDigitChars 10 right 0 := by
  induction left generalizing right with
  | nil =>
      obtain rfl : right = [] := List.length_eq_zero_iff.mp same.symm
      exact absurd less (List.lt_irrefl _)
  | cons first left inductionHypothesis =>
      cases right with
      | nil => simp at same
      | cons second right =>
          have shorter : left.length = right.length := by simpa using same
          have one := digit_lt (digits first (by simp))
          have two := digit_lt (digits second (by simp))
          have bounded : Nat.ofDigitChars 10 left 0 < 10 ^ left.length :=
            ofDigitChars_lt_pow fun character member =>
              digits character (by simp [member])
          rw [Nat.ofDigitChars_cons, Nat.ofDigitChars_cons,
            Nat.ofDigitChars_eq_ofDigitChars_zero,
            @Nat.ofDigitChars_eq_ofDigitChars_zero right, ← shorter,
            Nat.mul_zero, Nat.zero_add, Nat.zero_add]
          rcases List.cons_lt_cons_iff.mp less with lower | ⟨rfl, later⟩
          · have lower : first.toNat < second.toNat := lower
            have scaled : 10 ^ left.length * (first.toNat - '0'.toNat + 1) ≤
                10 ^ left.length * (second.toNat - '0'.toNat) :=
              Nat.mul_le_mul_left _ (by omega)
            rw [Nat.mul_add] at scaled
            omega
          · have rest := inductionHypothesis shorter (fun character member =>
              digits character (by
                simp only [List.mem_append, List.mem_cons] at member ⊢
                tauto)) later
            omega

theorem padded_value (value : Nat) :
    Nat.ofDigitChars 10 (padded value) 0 = value := by
  rw [padded, List.leftpad, Nat.ofDigitChars_append,
    Nat.ofDigitChars_replicate_zero, Nat.mul_zero,
    Nat.ofDigitChars_ten_toDigits]

theorem padded_lt_iff
    {value other : Nat}
    (small : value < 2 ^ 64)
    (smallOther : other < 2 ^ 64) :
    padded value < padded other ↔ value < other := by
  have lower : ∀ {one two : Nat}, one < 2 ^ 64 → two < 2 ^ 64 →
      padded one < padded two → one < two := by
    intro one two bound boundTwo less
    rw [← padded_value one, ← padded_value two]
    refine ofDigitChars_lt ?_ ?_ less
    · rw [padded_length bound, padded_length boundTwo]
    · intro character member
      rcases List.mem_append.mp member with inside | inside
      · exact padded_digits inside
      · exact padded_digits inside
  refine ⟨lower small smallOther, fun less => ?_⟩
  rcases lt_trichotomy (padded value) (padded other) with first | same | last
  · exact first
  · have equal := congrArg (fun text => Nat.ofDigitChars 10 text 0) same
    simp only [padded_value] at equal
    exact absurd equal less.ne
  · exact absurd (lower smallOther small last) (by omega)

theorem digitChar_lt_iff :
    ∀ value < 16, ∀ other < 16,
      (Nat.digitChar value < Nat.digitChar other ↔ value < other) ∧
        (Nat.digitChar value = Nat.digitChar other ↔ value = other) := by
  decide

theorem hexByte_lt_iff
    {value other : Nat}
    (small : value < 256)
    (smallOther : other < 256) :
    (hexByte value < hexByte other ↔ value < other) ∧
      (hexByte value = hexByte other ↔ value = other) := by
  have high := digitChar_lt_iff (value / 16) (by omega) (other / 16)
    (by omega)
  have low := digitChar_lt_iff (value % 16) (by omega) (other % 16)
    (by omega)
  constructor
  · simp only [hexByte, List.cons_lt_cons_iff, List.not_lt_nil, and_false,
      or_false, high.1, high.2, low.1]
    omega
  · simp only [hexByte, List.cons.injEq, and_true, high.2, low.2]
    omega

/-- Hexadecimal text keeps the order of the characters. -/
theorem hexEncode_lt_iff
    {left right : List Char}
    (small : ∀ character ∈ left ++ right, character.toNat < 256) :
    (left.flatMap fun character => hexByte character.toNat) <
        (right.flatMap fun character => hexByte character.toNat) ↔
      left < right := by
  induction left generalizing right with
  | nil =>
      cases right with
      | nil => simp
      | cons second right => simp [hexByte]
  | cons first left inductionHypothesis =>
      cases right with
      | nil => simp
      | cons second right =>
          have bytes := @hexByte_lt_iff first.toNat second.toNat
            (small first (by simp)) (small second (by simp))
          have length : (hexByte first.toNat).length =
              (hexByte second.toNat).length := rfl
          rw [List.flatMap_cons, List.flatMap_cons,
            append_lt_append_iff length, bytes.1, bytes.2,
            inductionHypothesis fun character member => small character (by
              simp only [List.mem_append, List.mem_cons] at member ⊢
              tauto),
            List.cons_lt_cons_iff, Char.toNat_inj]
          rfl

/-- The keys are in the order of the time of creation and then of the id. -/
theorem historyKey_lt_iff
    {createdAt createdOther : Nat}
    {id other : String}
    (small : createdAt < 2 ^ 64)
    (smallOther : createdOther < 2 ^ 64)
    (valid : isJobId id = true)
    (validOther : isJobId other = true) :
    historyKey createdAt id < historyKey createdOther other ↔
      createdAt < createdOther ∨ createdAt = createdOther ∧ id < other := by
  have same : padded createdAt = padded createdOther ↔
      createdAt = createdOther := by
    refine ⟨fun equal => ?_, fun equal => equal ▸ rfl⟩
    rw [← padded_value createdAt, equal, padded_value]
  rw [String.lt_iff_toList_lt, historyKey, historyKey, String.toList_ofList,
    String.toList_ofList, append_lt_append_iff (by
      rw [padded_length small, padded_length smallOther]),
    padded_lt_iff small smallOther, same, List.cons_lt_cons_iff, hexEncode,
    hexEncode, hexEncode_lt_iff, String.lt_iff_toList_lt]
  · simp
  · intro character member
    rcases List.mem_append.mp member with inside | inside
    · exact (toNat_lt_of_jobId valid inside).trans (by omega)
    · exact (toNat_lt_of_jobId validOther inside).trans (by omega)

end Jobs
end ModelKeep
