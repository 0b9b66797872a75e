import Mathlib.Algebra.Group.Nat.Defs
import Mathlib.Order.Interval.Set.Basic

/-!
# Byte ranges

A `Range` header is read by splitting it at the first dash and handing both
halves to the number parser of the standard library.  The ranges a header can
mean are told apart from that, by a grammar and the bytes each form selects.
-/

namespace ModelKeep
namespace Http

/-! ## Reading the header -/

/-- The bytes from `start` to `stop`, both included. -/
@[ext]
structure ByteRange where
  start : UInt64
  /-- `end` -/
  stop : UInt64
  deriving DecidableEq

inductive RangeError
  | invalid
  | unsatisfiable
  deriving DecidableEq

/-- A subtraction that panics when it overflows. -/
def checkedSub (left right : UInt64) : Option UInt64 :=
  if right ≤ left then some (left - right) else none

/-- An addition that panics when it overflows. -/
def checkedAdd (left right : UInt64) : Option UInt64 :=
  if left.toNat + right.toNat < 2 ^ 64 then some (left + right) else none

def saturatingSub (left right : UInt64) : UInt64 :=
  if right ≤ left then left - right else 0

/-- The digit value of a character. -/
def digitValue (character : Char) : Nat := character.toNat - '0'.toNat

/-- One more digit of a number that has to fit in 64 bits. -/
def pushDigit (value : Nat) (character : Char) : Option Nat :=
  if character.isDigit ∧ 10 * value + digitValue character < 2 ^ 64 then
    some (10 * value + digitValue character)
  else
    none

/-- The text without the sign that an unsigned number may carry. -/
def unsigned : List Char → List Char
  | '+' :: digits => digits
  | text => text

/-- `str::parse::<u64>` -/
def parseU64 (text : List Char) : Option UInt64 :=
  if unsigned text = [] then
    none
  else
    ((unsigned text).foldlM pushDigit 0).map UInt64.ofNat

/-- `str::split_once` -/
def splitOnce (separator : Char) : List Char → Option (List Char × List Char)
  | [] => none
  | character :: rest =>
      if character = separator then
        some ([], rest)
      else
        (splitOnce separator rest).map fun halves =>
          (character :: halves.1, halves.2)

/-- The start of every header that is understood. -/
def unit : List Char := "bytes=".toList

/-- The texts before and after the dash. -/
def halves (value : String) : Option (List Char × List Char) :=
  if unit <+: value.toList ∧ ',' ∉ value.toList.drop unit.length then
    splitOnce '-' (value.toList.drop unit.length)
  else
    none

/-- The last check of `parse_range`. -/
def ordered (start stop : UInt64) : Except RangeError (Option ByteRange) :=
  if stop < start then .error .unsatisfiable else .ok (some ⟨start, stop⟩)

/-- `parse_range`.  There is no result when an operation overflows. -/
def parseRange (value : String) (size : UInt64) :
    Option (Except RangeError (Option ByteRange)) :=
  match halves value with
  | none => some (.error .invalid)
  | some (start, stop) =>
      if size = 0 then
        some (.error .unsatisfiable)
      else if start = [] then
        match parseU64 stop with
        | none => some (.error .invalid)
        | some suffix =>
            if suffix = 0 then
              some (.error .unsatisfiable)
            else
              (checkedSub size 1).map fun last =>
                .ok (some ⟨saturatingSub size suffix, last⟩)
      else
        match parseU64 start with
        | none => some (.error .invalid)
        | some start =>
            if size ≤ start then
              some (.error .unsatisfiable)
            else if stop = [] then
              (checkedSub size 1).map (ordered start)
            else
              match parseU64 stop with
              | none => some (.error .invalid)
              | some stop =>
                  (checkedSub size 1).map fun last =>
                    ordered start (min stop last)

/-- The `content-length` of `file_response`. -/
def contentLength (size : UInt64) (range : Option ByteRange) :
    Option UInt64 :=
  let (start, stop) := match range with
    | some range => (range.start, range.stop)
    | none => (0, saturatingSub size 1)
  if size = 0 then
    some 0
  else do
    let length ← checkedSub stop start
    checkedAdd length 1

/-! ## What a header means -/

/-- A number as the header may spell it. -/
def Digits (text : List Char) : Prop :=
  text ≠ [] ∧ ∀ character ∈ text, character.isDigit

instance (text : List Char) : Decidable (Digits text) :=
  decidable_of_iff (text ≠ [] ∧ text.all Char.isDigit) (by simp [Digits])

/-- The number that is spelled. -/
def decimal (text : List Char) : Nat :=
  text.foldl (fun value character => 10 * value + digitValue character) 0

inductive RangeSpec
  /-- `first-` and `first-last` -/
  | span (first : Nat) (last : Option Nat)
  /-- `-suffix` -/
  | suffix (length : Nat)

/-- The bytes of a file that are asked for. -/
def RangeSpec.selected (spec : RangeSpec) (size : Nat) : Set Nat :=
  match spec with
  | .span first last =>
      {byte | byte < size ∧ first ≤ byte ∧ ∀ bound ∈ last, byte ≤ bound}
  | .suffix length => {byte | byte < size ∧ size ≤ byte + length}

/-- The texts around the dash of a well-formed header. -/
inductive Spells : List Char → List Char → RangeSpec → Prop
  | onward
      {first : List Char}
      (digits : Digits first) :
      Spells first [] (.span (decimal first) none)
  | span
      {first last : List Char}
      (digits : Digits first)
      (digitsToo : Digits last) :
      Spells first last (.span (decimal first) (some (decimal last)))
  | suffix
      {length : List Char}
      (digits : Digits length) :
      Spells [] length (.suffix (decimal length))

/-- `bytes=` and a single range. -/
def WellFormed (value : String) (spec : RangeSpec) : Prop :=
  ∃ first last, value.toList = unit ++ first ++ '-' :: last ∧
    Spells first last spec

/-- A range is read as it is meant, and its length can be told. -/
structure ReadExactly (value : String) (size : UInt64)
    (answer : Except RangeError (Option ByteRange)) : Prop where
  range : ∀ range, answer = .ok (some range) ↔
    ∃ spec, WellFormed value spec ∧
      (spec.selected size.toNat).Nonempty ∧
      range.start ≤ range.stop ∧ range.stop < size ∧
      spec.selected size.toNat =
        Set.Icc range.start.toNat range.stop.toNat
  unsatisfiable : answer = .error .unsatisfiable ↔
    ∃ spec, WellFormed value spec ∧ spec.selected size.toNat = ∅
  invalid : answer = .error .invalid ↔ ¬∃ spec, WellFormed value spec
  length : ∀ range, answer = .ok (some range) →
    ∃ length, contentLength size (some range) = some length ∧
      length.toNat = range.stop.toNat - range.start.toNat + 1

/-- The range and its length are computed without overflow and are the ones
that the header means. -/
def Exact (value : String) (size : UInt64) : Prop :=
  ∃ answer, parseRange value size = some answer ∧
    ReadExactly value size answer


/-! ## Numbers -/

theorem le_decimal (text : List Char) (value : Nat) :
    value ≤ text.foldl
      (fun value character => 10 * value + digitValue character) value := by
  induction text generalizing value with
  | nil => exact Nat.le_refl _
  | cons character rest inductionHypothesis =>
      have grown := inductionHypothesis (10 * value + digitValue character)
      rw [List.foldl_cons]
      omega

theorem foldlM_pushDigit
    {text : List Char}
    {value number : Nat} :
    text.foldlM pushDigit value = some number ↔
      (∀ character ∈ text, character.isDigit) ∧
        text.foldl
          (fun value character => 10 * value + digitValue character) value =
            number ∧
        (text ≠ [] → number < 2 ^ 64) := by
  induction text generalizing value with
  | nil => simp [pure]
  | cons character rest inductionHypothesis =>
      rw [List.foldlM_cons, List.foldl_cons, List.forall_mem_cons]
      have grown := le_decimal rest (10 * value + digitValue character)
      unfold pushDigit
      split
      · next fits =>
          change rest.foldlM pushDigit _ = some number ↔ _
          rw [inductionHypothesis]
          constructor
          · rintro ⟨digits, rfl, bounded⟩
            refine ⟨⟨fits.1, digits⟩, rfl, fun _ => ?_⟩
            cases rest with
            | nil => exact fits.2
            | cons next rest => exact bounded (by simp)
          · rintro ⟨⟨_, digits⟩, rfl, bounded⟩
            exact ⟨digits, rfl, fun _ => bounded (by simp)⟩
      · next exceeds =>
          refine iff_of_false (by simp) ?_
          rintro ⟨⟨digit, _⟩, rfl, bounded⟩
          exact exceeds ⟨digit, lt_of_le_of_lt grown (bounded (by simp))⟩

theorem parseU64_eq_some
    {text : List Char}
    {number : UInt64} :
    parseU64 text = some number ↔
      Digits (unsigned text) ∧ decimal (unsigned text) = number.toNat := by
  unfold parseU64
  split
  · next empty =>
      refine iff_of_false (by simp) ?_
      rintro ⟨⟨nonempty, _⟩, _⟩
      exact nonempty empty
  · next nonempty =>
      rw [Option.map_eq_some_iff]
      constructor
      · rintro ⟨value, read, rfl⟩
        obtain ⟨digits, rfl, bounded⟩ := foldlM_pushDigit.mp read
        refine ⟨⟨nonempty, digits⟩, ?_⟩
        exact (UInt64.toNat_ofNat_of_lt' (bounded nonempty)).symm
      · rintro ⟨⟨_, digits⟩, same⟩
        refine ⟨number.toNat, foldlM_pushDigit.mpr ⟨digits, same, ?_⟩, ?_⟩
        · intro _
          exact number.toNat_lt
        · exact UInt64.ofNat_toNat

/-- A sign is no digit. -/
theorem unsigned_of_digits
    {text : List Char}
    (digits : Digits text) :
    unsigned text = text := by
  unfold unsigned
  split
  · next rest =>
      have isDigit := digits.2 '+' List.mem_cons_self
      cases isDigit
  · rfl

theorem parseU64_of_digits
    {text : List Char}
    (digits : Digits text)
    (fits : decimal text < 2 ^ 64) :
    parseU64 text = some (UInt64.ofNat (decimal text)) := by
  rw [parseU64_eq_some, unsigned_of_digits digits]
  exact ⟨digits, (UInt64.toNat_ofNat_of_lt' fits).symm⟩

/-- A number of more than 64 bits is refused. -/
theorem parseU64_of_exceeds
    {text : List Char}
    (digits : Digits text)
    (exceeds : ¬decimal text < 2 ^ 64) :
    parseU64 text = none := by
  rw [Option.eq_none_iff_forall_ne_some]
  intro number read
  obtain ⟨_, same⟩ := parseU64_eq_some.mp read
  rw [unsigned_of_digits digits] at same
  exact exceeds (same ▸ number.toNat_lt)

theorem not_mem_of_digits
    {text : List Char}
    {character : Char}
    (digits : Digits text)
    (other : character.isDigit = false) :
    character ∉ text := by
  intro member
  have isDigit := digits.2 character member
  rw [other] at isDigit
  cases isDigit

/-! ## The two halves -/

theorem splitOnce_eq_some
    {separator : Char}
    {text first last : List Char} :
    splitOnce separator text = some (first, last) ↔
      text = first ++ separator :: last ∧ separator ∉ first := by
  induction text generalizing first with
  | nil => simp [splitOnce]
  | cons character rest inductionHypothesis =>
      unfold splitOnce
      split
      · next same =>
          subst same
          constructor
          · intro split
            cases split
            exact ⟨rfl, List.not_mem_nil⟩
          · rintro ⟨same, absent⟩
            cases first with
            | nil =>
                cases same
                rfl
            | cons head tail =>
                cases same
                exact absurd List.mem_cons_self absent
      · next different =>
          rw [Option.map_eq_some_iff]
          constructor
          · rintro ⟨⟨before, after⟩, split, same⟩
            cases same
            obtain ⟨rfl, absent⟩ := inductionHypothesis.mp split
            refine ⟨rfl, ?_⟩
            rw [List.mem_cons, not_or]
            exact ⟨Ne.symm different, absent⟩
          · rintro ⟨same, absent⟩
            cases first with
            | nil =>
                cases same
                exact absurd rfl different
            | cons head tail =>
                cases same
                rw [List.mem_cons, not_or] at absent
                exact ⟨(tail, last),
                  inductionHypothesis.mpr ⟨rfl, absent.2⟩, rfl⟩

theorem halves_eq_some
    {value : String}
    {first last : List Char} :
    halves value = some (first, last) ↔
      value.toList = unit ++ first ++ '-' :: last ∧
        '-' ∉ first ∧ ',' ∉ first ++ '-' :: last := by
  unfold halves
  constructor
  · intro split
    split at split
    · next understood =>
        obtain ⟨⟨rest, named⟩, plain⟩ := understood
        rw [← named, List.drop_left] at split plain
        obtain ⟨rfl, absent⟩ := splitOnce_eq_some.mp split
        exact ⟨by rw [← named, List.append_assoc], absent, plain⟩
    · cases split
  · rintro ⟨named, absent, plain⟩
    rw [List.append_assoc] at named
    have rest : value.toList.drop unit.length = first ++ '-' :: last := by
      rw [named, List.drop_left]
    rw [rest, if_pos ⟨⟨_, named.symm⟩, plain⟩]
    exact splitOnce_eq_some.mpr ⟨rfl, absent⟩

theorem Spells.plain
    {first last : List Char}
    {spec : RangeSpec}
    (spells : Spells first last spec) :
    '-' ∉ first ∧ ',' ∉ first ++ '-' :: last := by
  have noComma : ∀ text, Digits text → ',' ∉ text := by
    intro text digits
    exact not_mem_of_digits digits (by decide)
  rw [List.mem_append, List.mem_cons]
  cases spells with
  | onward digits =>
      exact ⟨not_mem_of_digits digits (by decide), by simp [noComma _ digits]⟩
  | span digits digitsToo =>
      exact ⟨not_mem_of_digits digits (by decide),
        by simp [noComma _ digits, noComma _ digitsToo]⟩
  | suffix digits =>
      exact ⟨List.not_mem_nil, by simp [noComma _ digits]⟩

theorem wellFormed_iff
    {value : String}
    {spec : RangeSpec} :
    WellFormed value spec ↔
      ∃ first last, halves value = some (first, last) ∧
        Spells first last spec := by
  constructor
  · rintro ⟨first, last, named, spells⟩
    exact ⟨first, last, halves_eq_some.mpr ⟨named, spells.plain⟩, spells⟩
  · rintro ⟨first, last, split, spells⟩
    exact ⟨first, last, (halves_eq_some.mp split).1, spells⟩

/-- A header means one thing. -/
theorem Spells.unique
    {first last : List Char}
    {spec other : RangeSpec}
    (spells : Spells first last spec)
    (spellsToo : Spells first last other) :
    spec = other := by
  cases spells with
  | onward digits =>
      cases spellsToo with
      | onward => rfl
      | span _ nothing => exact absurd rfl nothing.1
      | suffix nothing => exact absurd rfl nothing.1
  | span digits digitsToo =>
      cases spellsToo with
      | onward => exact absurd rfl digitsToo.1
      | span => rfl
      | suffix => exact absurd rfl digits.1
  | suffix digits =>
      cases spellsToo with
      | onward nothing => exact absurd rfl nothing.1
      | span nothing => exact absurd rfl nothing.1
      | suffix => rfl


/-! ## The right answer -/

section answers

variable
  {value : String}
  {size : UInt64}
  {first last : List Char}
  {spec : RangeSpec}

theorem wellFormed_eq
    (split : halves value = some (first, last))
    (spells : Spells first last spec)
    (other : RangeSpec) :
    WellFormed value other ↔ other = spec := by
  rw [wellFormed_iff]
  constructor
  · rintro ⟨firstToo, lastToo, splitToo, spellsToo⟩
    rw [split] at splitToo
    cases splitToo
    exact spellsToo.unique spells
  · rintro rfl
    exact ⟨first, last, split, spells⟩

/-- A header that is no range is invalid. -/
theorem readExactly_invalid
    (malformed : ¬∃ spec, WellFormed value spec) :
    ReadExactly value size (.error .invalid) where
  range := by
    intro range
    refine iff_of_false (by simp) ?_
    rintro ⟨spec, formed, _⟩
    exact malformed ⟨spec, formed⟩
  unsatisfiable := by
    refine iff_of_false (by simp) ?_
    rintro ⟨spec, formed, _⟩
    exact malformed ⟨spec, formed⟩
  invalid := iff_of_true rfl malformed
  length := by
    intro range same
    cases same

/-- A range that selects nothing cannot be satisfied. -/
theorem readExactly_unsatisfiable
    (split : halves value = some (first, last))
    (spells : Spells first last spec)
    (nothing : spec.selected size.toNat = ∅) :
    ReadExactly value size (.error .unsatisfiable) := by
  have formed := wellFormed_eq split spells
  refine ⟨?_, ?_, ?_, ?_⟩
  · intro range
    refine iff_of_false (by simp) ?_
    rintro ⟨other, formedToo, ⟨byte, member⟩, _⟩
    rw [(formed other).mp formedToo, nothing] at member
    exact member
  · exact iff_of_true rfl ⟨spec, (formed spec).mpr rfl, nothing⟩
  · exact iff_of_false (by simp) fun malformed =>
      malformed ⟨spec, (formed spec).mpr rfl⟩
  · intro range same
    cases same

theorem contentLength_of_le
    {range : ByteRange}
    (order : range.start ≤ range.stop)
    (inside : range.stop < size) :
    ∃ length, contentLength size (some range) = some length ∧
      length.toNat = range.stop.toNat - range.start.toNat + 1 := by
  have bound := size.toNat_lt
  rw [UInt64.le_iff_toNat_le] at order
  rw [UInt64.lt_iff_toNat_lt] at inside
  have nonempty : size ≠ 0 := by
    rintro rfl
    exact Nat.not_lt_zero _ inside
  have difference : (range.stop - range.start).toNat =
      range.stop.toNat - range.start.toNat :=
    UInt64.toNat_sub_of_le _ _ (UInt64.le_iff_toNat_le.mpr order)
  refine ⟨range.stop - range.start + 1, ?_, ?_⟩
  · unfold contentLength checkedSub checkedAdd
    simp only [nonempty, if_false, UInt64.le_iff_toNat_le, order, if_true,
      Option.bind_eq_bind, Option.bind_some, difference]
    rw [if_pos]
    change _ + 1 < _
    omega
  · rw [UInt64.toNat_add, difference]
    change (_ + 1) % _ = _
    omega

/-- The bytes between two of the file. -/
def between (start stop : Nat) : ByteRange := ⟨.ofNat start, .ofNat stop⟩

/-- A range that selects the bytes between two of the file is these. -/
theorem readExactly_between
    {start stop : Nat}
    (split : halves value = some (first, last))
    (spells : Spells first last spec)
    (order : start ≤ stop)
    (inside : stop < size.toNat)
    (selected : spec.selected size.toNat = Set.Icc start stop) :
    ReadExactly value size (.ok (some (between start stop))) := by
  have formed := wellFormed_eq split spells
  have bound : size.toNat < UInt64.size := size.toNat_lt
  have startsAt : (between start stop).start.toNat = start :=
    UInt64.toNat_ofNat_of_lt' (by omega)
  have stopsAt : (between start stop).stop.toNat = stop :=
    UInt64.toNat_ofNat_of_lt' (by omega)
  have ascends : (between start stop).start ≤ (between start stop).stop := by
    rw [UInt64.le_iff_toNat_le, startsAt, stopsAt]
    exact order
  have within : (between start stop).stop < size := by
    rw [UInt64.lt_iff_toNat_lt, stopsAt]
    exact inside
  have nonempty : (spec.selected size.toNat).Nonempty := by
    rw [selected, Set.nonempty_Icc]
    exact order
  refine ⟨?_, ?_, ?_, ?_⟩
  · intro other
    constructor
    · rintro same
      cases same
      exact ⟨spec, (formed spec).mpr rfl, nonempty, ascends, within,
        by rw [startsAt, stopsAt, selected]⟩
    · rintro ⟨specToo, formedToo, _, _, _, selectedToo⟩
      rw [(formed specToo).mp formedToo, selected] at selectedToo
      obtain ⟨starts, stops⟩ := (Set.Icc_eq_Icc_iff order).mp selectedToo
      have same : between start stop = other := by
        apply ByteRange.ext
        · rw [← UInt64.toNat_inj, startsAt, starts]
        · rw [← UInt64.toNat_inj, stopsAt, stops]
      rw [same]
  · refine iff_of_false (by simp) ?_
    rintro ⟨specToo, formedToo, nothing⟩
    rw [(formed specToo).mp formedToo] at nothing
    exact nonempty.ne_empty nothing
  · exact iff_of_false (by simp) fun malformed =>
      malformed ⟨spec, (formed spec).mpr rfl⟩
  · intro other same
    cases same
    exact contentLength_of_le ascends within

/-- There is one right answer. -/
theorem ReadExactly.unique
    {answer other : Except RangeError (Option ByteRange)}
    (exact : ReadExactly value size answer)
    (exactToo : ReadExactly value size other)
    (tells : other ≠ .ok none) :
    answer = other := by
  match other with
  | .error .invalid => exact exact.invalid.mpr (exactToo.invalid.mp rfl)
  | .error .unsatisfiable =>
      exact exact.unsatisfiable.mpr (exactToo.unsatisfiable.mp rfl)
  | .ok (some range) =>
      exact (exact.range range).mpr ((exactToo.range range).mp rfl)
  | .ok none => exact absurd rfl tells

theorem exact_iff
    {right : Except RangeError (Option ByteRange)}
    (meant : ReadExactly value size right)
    (tells : right ≠ .ok none) :
    Exact value size ↔ parseRange value size = some right := by
  constructor
  · rintro ⟨answer, read, exact⟩
    rw [read, exact.unique meant tells]
  · intro read
    exact ⟨right, read, meant⟩

theorem onward_exact
    (split : halves value = some (first, []))
    (digits : Digits first) :
    ReadExactly value size
      (if decimal first < size.toNat then
        .ok (some (between (decimal first) (size.toNat - 1)))
      else
        .error .unsatisfiable) := by
  split
  · next inside =>
      apply readExactly_between split (.onward digits) (by omega) (by omega)
      ext byte
      change byte < size.toNat ∧ decimal first ≤ byte ∧ _ ↔ _ ≤ byte ∧ _
      simp only [Option.mem_def, reduceCtorEq, false_implies, implies_true,
        and_true]
      omega
  · next outside =>
      apply readExactly_unsatisfiable split (.onward digits)
      ext byte
      refine iff_of_false ?_ id
      rintro ⟨inside, onward, _⟩
      omega

theorem span_exact
    (split : halves value = some (first, last))
    (digits : Digits first)
    (digitsToo : Digits last) :
    ReadExactly value size
      (if decimal first < size.toNat ∧ decimal first ≤ decimal last then
        .ok (some (between (decimal first)
          (min (decimal last) (size.toNat - 1))))
      else
        .error .unsatisfiable) := by
  have selects : ∀ byte,
      byte ∈ (RangeSpec.span (decimal first) (some (decimal last))).selected
          size.toNat ↔
        byte < size.toNat ∧ decimal first ≤ byte ∧ byte ≤ decimal last := by
    intro byte
    change _ ∧ _ ∧ (∀ bound, some (decimal last) = some bound → _) ↔ _
    simp
  split
  · next inside =>
      apply readExactly_between split (.span digits digitsToo) (by omega)
        (by omega)
      ext byte
      rw [selects, Set.mem_Icc]
      omega
  · next outside =>
      apply readExactly_unsatisfiable split (.span digits digitsToo)
      ext byte
      rw [selects]
      refine iff_of_false ?_ id
      rintro ⟨inside, onward, bounded⟩
      omega

theorem suffix_exact
    (split : halves value = some ([], last))
    (digits : Digits last) :
    ReadExactly value size
      (if 0 < decimal last ∧ 0 < size.toNat then
        .ok (some (between (size.toNat - decimal last) (size.toNat - 1)))
      else
        .error .unsatisfiable) := by
  split
  · next inside =>
      apply readExactly_between split (.suffix digits) (by omega) (by omega)
      ext byte
      change byte < _ ∧ _ ≤ byte + _ ↔ _ ≤ byte ∧ byte ≤ _
      omega
  · next outside =>
      apply readExactly_unsatisfiable split (.suffix digits)
      ext byte
      refine iff_of_false ?_ id
      rintro ⟨inside, reaches⟩
      omega

/-! ## When the answer is right -/

/-- The numbers that decide fit in 64 bits. -/
def Fits (first last : List Char) (size : UInt64) : Prop :=
  size = 0 ∨
    if first = [] then
      decimal last < 2 ^ 64
    else
      decimal first < 2 ^ 64 ∧
        (decimal first < size.toNat → decimal last < 2 ^ 64)

/-- The number parser turns the texts down before anything else does. -/
def Refused (first last : List Char) (size : UInt64) : Prop :=
  size ≠ 0 ∧
    if first = [] then
      parseU64 last = none
    else
      ∀ start ∈ parseU64 first,
        start < size ∧ last ≠ [] ∧ parseU64 last = none

/-- A range has numbers of 64 bits, and what is no range is turned down. -/
def Faithful (value : String) (size : UInt64) : Prop :=
  ∀ first last, halves value = some (first, last) →
    ((∃ spec, Spells first last spec) → Fits first last size) ∧
      ((¬∃ spec, Spells first last spec) → Refused first last size)

theorem checkedSub_one (nonempty : size ≠ 0) :
    checkedSub size 1 = some (size - 1) := by
  have positive : size.toNat ≠ 0 := by
    intro zero
    exact nonempty (UInt64.toNat_inj.mp zero)
  rw [checkedSub, if_pos]
  rw [UInt64.le_iff_toNat_le]
  exact Nat.one_le_iff_ne_zero.mpr positive

theorem toNat_last (nonempty : size ≠ 0) :
    (size - 1).toNat = size.toNat - 1 := by
  have positive : size.toNat ≠ 0 := by
    intro zero
    exact nonempty (UInt64.toNat_inj.mp zero)
  exact UInt64.toNat_sub_of_le _ _
    (UInt64.le_iff_toNat_le.mpr (Nat.one_le_iff_ne_zero.mpr positive))

theorem ordered_ne_invalid (start stop : UInt64) :
    ordered start stop ≠ .error .invalid := by
  unfold ordered
  split
  · simp
  · simp

/-- What is no range is called invalid when the number parser does so. -/
theorem parseRange_eq_invalid
    (split : halves value = some (first, last)) :
    parseRange value size = some (.error .invalid) ↔
      Refused first last size := by
  unfold parseRange Refused
  rw [split]
  dsimp only
  by_cases empty : size = 0
  · simp [empty]
  simp only [empty, if_false, checkedSub_one empty, ne_eq,
    not_false_eq_true, true_and, Option.map_some]
  by_cases noFirst : first = []
  · simp only [noFirst, if_true]
    cases parseU64 last with
    | none => simp
    | some suffix =>
        dsimp only
        split
        · simp
        · simp
  simp only [noFirst, if_false]
  cases parseU64 first with
  | none => simp
  | some start =>
      simp only [Option.mem_def, Option.some.injEq, forall_eq']
      split
      · next beyond =>
          refine iff_of_false (by simp) ?_
          rintro ⟨inside, _⟩
          exact absurd beyond (UInt64.not_le.mpr inside)
      · next inside =>
          rw [UInt64.not_le] at inside
          by_cases noLast : last = []
          · simp [noLast, ordered_ne_invalid]
          · cases parseU64 last with
            | none => simp [noLast, inside]
            | some stop => simp [noLast, ordered_ne_invalid]

theorem eq_zero_iff : size = 0 ↔ size.toNat = 0 :=
  UInt64.toNat_inj.symm

section decided

variable
  (split : halves value = some (first, last))
  (nonempty : size ≠ 0)

include split nonempty

theorem parseRange_suffix
    (noFirst : first = [])
    (digits : Digits last)
    (fits : decimal last < 2 ^ 64) :
    parseRange value size = some
      (if 0 < decimal last ∧ 0 < size.toNat then
        .ok (some (between (size.toNat - decimal last) (size.toNat - 1)))
      else
        .error .unsatisfiable) := by
  have positive : 0 < size.toNat := Nat.pos_of_ne_zero fun zero =>
    nonempty (eq_zero_iff.mpr zero)
  have number : (UInt64.ofNat (decimal last)).toNat = decimal last :=
    UInt64.toNat_ofNat_of_lt' fits
  unfold parseRange
  rw [split]
  dsimp only
  rw [if_neg nonempty, if_pos noFirst, parseU64_of_digits digits fits]
  dsimp only
  rw [checkedSub_one nonempty]
  by_cases zero : decimal last = 0
  · simp [zero]
  · rw [if_neg, if_pos ⟨Nat.pos_of_ne_zero zero, positive⟩]
    · have starts : saturatingSub size (UInt64.ofNat (decimal last)) =
          UInt64.ofNat (size.toNat - decimal last) := by
        rw [← UInt64.toNat_inj]
        unfold saturatingSub
        split
        · next within =>
            rw [UInt64.toNat_sub_of_le _ _ within, number]
            rw [UInt64.toNat_ofNat_of_lt']
            exact lt_of_le_of_lt (Nat.sub_le _ _) size.toNat_lt
        · next longer =>
            rw [UInt64.le_iff_toNat_le, number] at longer
            rw [Nat.sub_eq_zero_of_le (by omega)]
            rfl
      have stops : size - 1 = UInt64.ofNat (size.toNat - 1) := by
        rw [← toNat_last nonempty, UInt64.ofNat_toNat]
      rw [starts, stops]
      rfl
    · rw [eq_zero_iff, number]
      exact zero

theorem parseRange_from
    (digits : Digits first)
    (fits : decimal first < 2 ^ 64) :
    parseRange value size =
      if size.toNat ≤ decimal first then
        some (.error .unsatisfiable)
      else if last = [] then
        some (.ok (some (between (decimal first) (size.toNat - 1))))
      else match parseU64 last with
        | none => some (.error .invalid)
        | some stop =>
            some (if decimal first ≤ stop.toNat then
              .ok (some (between (decimal first)
                (min stop.toNat (size.toNat - 1))))
            else
              .error .unsatisfiable) := by
  have number : (UInt64.ofNat (decimal first)).toNat = decimal first :=
    UInt64.toNat_ofNat_of_lt' fits
  have ends : size - 1 = UInt64.ofNat (size.toNat - 1) := by
    rw [← toNat_last nonempty, UInt64.ofNat_toNat]
  unfold parseRange
  rw [split]
  dsimp only
  rw [if_neg nonempty, if_neg digits.1, parseU64_of_digits digits fits]
  simp only [checkedSub_one nonempty, UInt64.le_iff_toNat_le, number,
    Option.map_some]
  split
  · rfl
  · next inside =>
      split
      · unfold ordered
        rw [if_neg, ends]
        · rfl
        · rw [UInt64.lt_iff_toNat_lt, toNat_last nonempty, number]
          omega
      · cases parseU64 last with
        | none => rfl
        | some stop =>
            have clipped : (min stop (size - 1)).toNat =
                min stop.toNat (size.toNat - 1) := by
              rw [← toNat_last nonempty]
              by_cases within : stop ≤ size - 1
              · have least : min stop (size - 1) = stop := if_pos within
                rw [least, min_eq_left (UInt64.le_iff_toNat_le.mp within)]
              · have least : min stop (size - 1) = size - 1 := if_neg within
                rw [UInt64.not_le, UInt64.lt_iff_toNat_lt] at within
                rw [least, min_eq_right within.le]
            unfold ordered
            simp only [UInt64.lt_iff_toNat_lt, clipped, number]
            by_cases onward : decimal first ≤ stop.toNat
            · rw [if_neg (by omega), if_pos onward, ← clipped]
              unfold between
              rw [UInt64.ofNat_toNat]
            · rw [if_pos (by omega), if_neg onward]

end decided

/-- A number that does not fit is not clipped. -/
theorem parseRange_of_exceeds
    (split : halves value = some (first, last))
    (nonempty : size ≠ 0)
    (digits : Digits first)
    (exceeds : ¬decimal first < 2 ^ 64) :
    parseRange value size = some (.error .invalid) := by
  rw [parseRange_eq_invalid split]
  refine ⟨nonempty, ?_⟩
  rw [if_neg digits.1, parseU64_of_exceeds digits exceeds]
  intro start none
  cases none

theorem parseRange_empty
    (split : halves value = some (first, last)) :
    parseRange value 0 = some (.error .unsatisfiable) := by
  unfold parseRange
  rw [split]
  rfl

/-- With the first number in range, the second one decides. -/
theorem fits_of_digits
    (nonempty : size ≠ 0)
    (digits : Digits first) :
    Fits first last size ↔
      decimal first < 2 ^ 64 ∧
        (decimal first < size.toNat → decimal last < 2 ^ 64) := by
  unfold Fits
  rw [if_neg digits.1]
  exact or_iff_right nonempty

theorem exact_onward
    (split : halves value = some (first, []))
    (nonempty : size ≠ 0)
    (digits : Digits first) :
    Exact value size ↔ Fits first [] size := by
  have meant : ReadExactly value size _ := onward_exact split digits
  rw [exact_iff meant (by split <;> simp), fits_of_digits nonempty digits]
  by_cases fits : decimal first < 2 ^ 64
  · refine iff_of_true ?_ ⟨fits, fun _ => by decide⟩
    rw [parseRange_from split nonempty digits fits, if_pos rfl]
    split
    · rw [if_neg (by omega)]
    · rw [if_pos (by omega)]
  · refine iff_of_false ?_ fun fitting => fits fitting.1
    rw [parseRange_of_exceeds split nonempty digits fits]
    split <;> simp

theorem exact_span
    (split : halves value = some (first, last))
    (nonempty : size ≠ 0)
    (digits : Digits first)
    (digitsToo : Digits last) :
    Exact value size ↔ Fits first last size := by
  have meant : ReadExactly value size _ := span_exact split digits digitsToo
  rw [exact_iff meant (by split <;> simp), fits_of_digits nonempty digits]
  by_cases fits : decimal first < 2 ^ 64
  · rw [parseRange_from split nonempty digits fits]
    by_cases inside : decimal first < size.toNat
    · rw [if_neg (by omega), if_neg digitsToo.1]
      by_cases fitsToo : decimal last < 2 ^ 64
      · refine iff_of_true ?_ ⟨fits, fun _ => fitsToo⟩
        rw [parseU64_of_digits digitsToo fitsToo]
        dsimp only
        rw [UInt64.toNat_ofNat_of_lt' fitsToo]
        simp only [inside, true_and]
      · refine iff_of_false ?_ fun fitting => fitsToo (fitting.2 inside)
        rw [parseU64_of_exceeds digitsToo fitsToo]
        dsimp only
        split <;> simp
    · refine iff_of_true ?_ ⟨fits, fun within => absurd within inside⟩
      rw [if_pos (by omega), if_neg fun within => inside within.1]
  · refine iff_of_false ?_ fun fitting => fits fitting.1
    rw [parseRange_of_exceeds split nonempty digits fits]
    split <;> simp

theorem exact_suffix
    (split : halves value = some ([], last))
    (nonempty : size ≠ 0)
    (digits : Digits last) :
    Exact value size ↔ Fits [] last size := by
  have meant : ReadExactly value size _ := suffix_exact split digits
  have fitting : Fits [] last size ↔ decimal last < 2 ^ 64 := by
    unfold Fits
    rw [if_pos rfl]
    exact or_iff_right nonempty
  rw [exact_iff meant (by split <;> simp), fitting]
  by_cases fits : decimal last < 2 ^ 64
  · exact iff_of_true (parseRange_suffix split nonempty rfl digits fits) fits
  · refine iff_of_false ?_ fits
    have refused : parseRange value size = some (.error .invalid) := by
      rw [parseRange_eq_invalid split]
      refine ⟨nonempty, ?_⟩
      rw [if_pos rfl]
      exact parseU64_of_exceeds digits fits
    rw [refused]
    split <;> simp

/-- Nothing is selected from an empty file. -/
theorem exact_empty
    {spec : RangeSpec}
    (split : halves value = some (first, last))
    (spells : Spells first last spec) :
    Exact value 0 := by
  refine ⟨_, parseRange_empty split, ?_⟩
  apply readExactly_unsatisfiable split spells
  ext byte
  cases spec with
  | span first last =>
      refine iff_of_false ?_ id
      rintro ⟨inside, _⟩
      exact Nat.not_lt_zero _ inside
  | suffix length =>
      refine iff_of_false ?_ id
      rintro ⟨inside, _⟩
      exact Nat.not_lt_zero _ inside

theorem exact_of_spells
    {spec : RangeSpec}
    (split : halves value = some (first, last))
    (spells : Spells first last spec) :
    Exact value size ↔ Fits first last size := by
  by_cases nonempty : size = 0
  · subst nonempty
    exact iff_of_true (exact_empty split spells) (Or.inl rfl)
  cases spells with
  | onward digits => exact exact_onward split nonempty digits
  | span digits digitsToo => exact exact_span split nonempty digits digitsToo
  | suffix digits => exact exact_suffix split nonempty digits

end answers

/-- A header is read as it is meant exactly when the numbers of its range fit
in 64 bits or do not matter, and the number parser turns down what is no
range. -/
theorem ranges_read_exactly (value : String) (size : UInt64) :
    Exact value size ↔ Faithful value size := by
  cases split : halves value with
  | none =>
      have malformed : ¬∃ spec, WellFormed value spec := by
        rintro ⟨spec, formed⟩
        obtain ⟨first, last, splitToo, _⟩ := wellFormed_iff.mp formed
        rw [split] at splitToo
        cases splitToo
      refine iff_of_true ⟨_, ?_, readExactly_invalid malformed⟩ ?_
      · unfold parseRange
        rw [split]
      · intro first last splitToo
        rw [split] at splitToo
        cases splitToo
  | some halved =>
      obtain ⟨first, last⟩ := halved
      have faithful : Faithful value size ↔
          ((∃ spec, Spells first last spec) → Fits first last size) ∧
            ((¬∃ spec, Spells first last spec) → Refused first last size) := by
        constructor
        · intro faithful
          exact faithful first last split
        · intro holds firstToo lastToo splitToo
          rw [split] at splitToo
          cases splitToo
          exact holds
      rw [faithful]
      by_cases spelled : ∃ spec, Spells first last spec
      · obtain ⟨spec, spells⟩ := spelled
        rw [exact_of_spells split spells]
        constructor
        · intro fits
          exact ⟨fun _ => fits, fun nothing => absurd ⟨_, spells⟩ nothing⟩
        · intro holds
          exact holds.1 ⟨_, spells⟩
      · have malformed : ¬∃ spec, WellFormed value spec := by
          rintro ⟨spec, formed⟩
          obtain ⟨firstToo, lastToo, splitToo, spells⟩ :=
            wellFormed_iff.mp formed
          rw [split] at splitToo
          cases splitToo
          exact spelled ⟨spec, spells⟩
        rw [exact_iff (readExactly_invalid malformed) (by simp),
          parseRange_eq_invalid split]
        constructor
        · intro refused
          exact ⟨fun something => absurd something spelled, fun _ => refused⟩
        · intro holds
          exact holds.2 spelled

/-- A last byte beyond 64 bits is not clipped to the file, and a number with a
sign is taken for one. -/
theorem last_byte_not_clipped :
    ¬Exact "bytes=0-18446744073709551616" 100 ∧
      ¬Exact "bytes=+0-9" 100 := by
  constructor
  · rintro ⟨answer, read, exact⟩
    have refused : parseRange "bytes=0-18446744073709551616" 100 =
        some (.error .invalid) := by decide +kernel
    rw [refused] at read
    cases read
    refine exact.invalid.mp rfl ⟨_, wellFormed_iff.mpr
      ⟨['0'], "18446744073709551616".toList, by decide +kernel,
        .span (by decide) (by decide +kernel)⟩⟩
  · rintro ⟨answer, read, exact⟩
    have accepted : parseRange "bytes=+0-9" 100 =
        some (.ok (some ⟨0, 9⟩)) := by decide +kernel
    rw [accepted] at read
    cases read
    obtain ⟨spec, formed, _⟩ := (exact.range ⟨0, 9⟩).mp rfl
    obtain ⟨first, last, split, spells⟩ := wellFormed_iff.mp formed
    have same : halves "bytes=+0-9" = some (['+', '0'], ['9']) := by
      decide +kernel
    rw [same] at split
    cases split
    cases spells with
    | span digits => exact absurd digits (by decide)

end Http
end ModelKeep
