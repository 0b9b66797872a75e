import Mathlib.Algebra.Group.Nat.Defs
import Mathlib.Data.List.TakeWhile
import ModelKeep.Json.Value

/-!
# JSON texts

A reader of JSON texts and a compact writer that escapes nothing but quotes
and backslashes.  What the writer makes of a value is read back, as long as no
text in the value has a control character and every number is an unsigned
64-bit one.
-/

namespace ModelKeep
namespace Json

/-! ## Reading -/

/-- The whitespace between tokens. -/
def isSpace (character : Char) : Bool :=
  character = ' ' || character = '\t' || character = '\n' ||
    character = '\r'

def skipSpace (text : List Char) : List Char := text.dropWhile isSpace

/-- A hexadecimal digit. -/
def hexValue (character : Char) : Option Nat :=
  if '0' ≤ character ∧ character ≤ '9' then
    some (character.toNat - '0'.toNat)
  else if 'a' ≤ character ∧ character ≤ 'f' then
    some (character.toNat - 'a'.toNat + 10)
  else if 'A' ≤ character ∧ character ≤ 'F' then
    some (character.toNat - 'A'.toNat + 10)
  else
    none

/-- The four digits of a `\u` escape. -/
def readUnit : List Char → Option (Nat × List Char)
  | first :: second :: third :: fourth :: rest => do
      let first ← hexValue first
      let second ← hexValue second
      let third ← hexValue third
      let fourth ← hexValue fourth
      return (first * 4096 + second * 256 + third * 16 + fourth, rest)
  | _ => none

/-- What follows `\u`; a high surrogate needs a low one behind it. -/
def readUnicode (text : List Char) : Option (Char × List Char) := do
  let (unit, rest) ← readUnit text
  if unit < 0xD800 ∨ 0xDFFF < unit then
    return (Char.ofNat unit, rest)
  else if unit < 0xDC00 then
    match rest with
    | '\\' :: 'u' :: rest => do
        let (low, rest) ← readUnit rest
        if 0xDC00 ≤ low ∧ low ≤ 0xDFFF then
          return (Char.ofNat
            (0x10000 + (unit - 0xD800) * 0x400 + (low - 0xDC00)), rest)
        else
          none
    | _ => none
  else
    none

/-- What follows a backslash. -/
def readEscape : List Char → Option (Char × List Char)
  | '"' :: rest => some ('"', rest)
  | '\\' :: rest => some ('\\', rest)
  | '/' :: rest => some ('/', rest)
  | 'b' :: rest => some (Char.ofNat 8, rest)
  | 'f' :: rest => some (Char.ofNat 12, rest)
  | 'n' :: rest => some ('\n', rest)
  | 'r' :: rest => some ('\r', rest)
  | 't' :: rest => some ('\t', rest)
  | 'u' :: rest => readUnicode rest
  | _ => none

/-- What follows an opening quote, up to the closing one. -/
def readString : Nat → List Char → Option (List Char × List Char)
  | 0, _ => none
  | _ + 1, [] => none
  | fuel + 1, character :: rest =>
      if character = '"' then
        some ([], rest)
      else if character = '\\' then do
        let (escaped, rest) ← readEscape rest
        let (others, rest) ← readString fuel rest
        return (escaped :: others, rest)
      else if character.toNat < 0x20 then
        none
      else do
        let (others, rest) ← readString fuel rest
        return (character :: others, rest)

/-- At least one digit. -/
def readDigits (text : List Char) : Option (List Char × List Char) :=
  if text.takeWhile Char.isDigit = [] then none
  else some (text.takeWhile Char.isDigit, text.dropWhile Char.isDigit)

/-- An integer has no leading zeros. -/
def readInteger (text : List Char) : Option (List Char × List Char) := do
  let (digits, rest) ← readDigits text
  if digits.head? = some '0' ∧ digits.length ≠ 1 then none
  else return (digits, rest)

def readFraction (text : List Char) : Option (List Char × List Char) :=
  if text.head? = some '.' then do
    let (digits, rest) ← readDigits text.tail
    return ('.' :: digits, rest)
  else
    some ([], text)

def readExponent (text : List Char) : Option (List Char × List Char) :=
  if text.head? = some 'e' ∨ text.head? = some 'E' then
    match text.tail with
    | '+' :: rest => do
        let (digits, rest) ← readDigits rest
        return ('e' :: '+' :: digits, rest)
    | '-' :: rest => do
        let (digits, rest) ← readDigits rest
        return ('e' :: '-' :: digits, rest)
    | rest => do
        let (digits, rest) ← readDigits rest
        return ('e' :: digits, rest)
  else
    some ([], text)

/-- A number without sign. -/
def readUnsigned (text : List Char) :
    Option (List Char × List Char × List Char × List Char) := do
  let (digits, rest) ← readInteger text
  let (fraction, rest) ← readFraction rest
  let (exponent, rest) ← readExponent rest
  return (digits, fraction, exponent, rest)

def readNumber (text : List Char) : Option (Json × List Char) :=
  if text.head? = some '-' then do
    let (digits, fraction, exponent, rest) ← readUnsigned text.tail
    return (.number (String.ofList ('-' :: digits ++ fraction ++ exponent)),
      rest)
  else do
    let (digits, fraction, exponent, rest) ← readUnsigned text
    if fraction = [] ∧ exponent = [] ∧
        Nat.ofDigitChars 10 digits 0 < 2 ^ 64 then
      return (.natural (Nat.ofDigitChars 10 digits 0), rest)
    else
      return (.number (String.ofList (digits ++ fraction ++ exponent)), rest)

/-- The rest of a text that begins so. -/
def readWord (word : List Char) (value : Json) (text : List Char) :
    Option (Json × List Char) :=
  if word <+: text then some (value, text.drop word.length) else none

mutual

/-- A value, at its first character; every value takes one. -/
def readValue : Nat → List Char → Option (Json × List Char)
  | 0, _ => none
  | _ + 1, [] => none
  | fuel + 1, first :: rest =>
      if first = '"' then do
        let (characters, rest) ← readString rest.length rest
        return (.text (String.ofList characters), rest)
      else if first = '[' then
        if (skipSpace rest).head? = some ']' then
          some (.array [], (skipSpace rest).tail)
        else do
          let (elements, rest) ← readElements fuel (skipSpace rest)
          return (.array elements, rest)
      else if first = '\x7b' then
        if (skipSpace rest).head? = some '\x7d' then
          some (.object [], (skipSpace rest).tail)
        else do
          let (members, rest) ← readMembers fuel (skipSpace rest)
          return (.object members, rest)
      else if first = 't' then
        readWord ['r', 'u', 'e'] (.bool true) rest
      else if first = 'f' then
        readWord ['a', 'l', 's', 'e'] (.bool false) rest
      else if first = 'n' then
        readWord ['u', 'l', 'l'] .null rest
      else
        readNumber (first :: rest)

/-- The elements of an array, from the first character of one to the bracket
behind the last. -/
def readElements : Nat → List Char → Option (List Json × List Char)
  | 0, _ => none
  | fuel + 1, input => do
      let (value, rest) ← readValue fuel input
      match skipSpace rest with
      | ']' :: rest => return ([value], rest)
      | ',' :: rest => do
          let (others, rest) ← readElements fuel (skipSpace rest)
          return (value :: others, rest)
      | _ => none

/-- The members of an object, from the quote of one to the brace behind the
last. -/
def readMembers : Nat → List Char → Option (List (String × Json) × List Char)
  | 0, _ => none
  | fuel + 1, input =>
      match input with
      | '"' :: rest => do
          let (key, rest) ← readString rest.length rest
          match skipSpace rest with
          | ':' :: rest => do
              let (value, rest) ← readValue fuel (skipSpace rest)
              match skipSpace rest with
              | '\x7d' :: rest => return ([(String.ofList key, value)], rest)
              | ',' :: rest => do
                  let (others, rest) ← readMembers fuel (skipSpace rest)
                  return ((String.ofList key, value) :: others, rest)
              | _ => none
          | _ => none
      | _ => none

end

/-- The value of a text, if the text is one. -/
def read (text : String) : Option Json := do
  let (value, rest) ← readValue (text.toList.length + 1)
    (skipSpace text.toList)
  if skipSpace rest = [] then some value else none

/-! ## Writing -/

/-- Quotes and backslashes are escaped. -/
def escape (characters : List Char) : List Char :=
  characters.flatMap fun character =>
    if character = '"' then ['\\', '"']
    else if character = '\\' then ['\\', '\\']
    else [character]

def quote (value : String) : List Char :=
  '"' :: escape value.toList ++ ['"']

mutual

/-- The text of a value, without whitespace. -/
def render : Json → List Char
  | .null => ['n', 'u', 'l', 'l']
  | .bool true => ['t', 'r', 'u', 'e']
  | .bool false => ['f', 'a', 'l', 's', 'e']
  | .natural value => Nat.toDigits 10 value
  | .number spelled => spelled.toList
  | .text value => quote value
  | .array [] => ['[', ']']
  | .array (first :: rest) => '[' :: render first ++ renderElements rest
  | .object [] => ['\x7b', '\x7d']
  | .object ((key, first) :: rest) =>
      '\x7b' :: quote key ++ ':' :: render first ++ renderMembers rest

/-- What follows an element. -/
def renderElements : List Json → List Char
  | [] => [']']
  | value :: rest => ',' :: render value ++ renderElements rest

/-- What follows a member. -/
def renderMembers : List (String × Json) → List Char
  | [] => ['\x7d']
  | (key, value) :: rest =>
      ',' :: quote key ++ ':' :: render value ++ renderMembers rest

end

/-! ## What can be written -/

/-- No character that a text has to escape but for quotes and backslashes. -/
def Printable (value : String) : Prop :=
  ∀ character ∈ value.toList, ¬character.toNat < 0x20

mutual

/-- Printable texts and unsigned 64-bit numbers only. -/
def Plain : Json → Prop
  | .natural value => value < 2 ^ 64
  | .number _ => False
  | .text value => Printable value
  | .array elements => PlainElements elements
  | .object members => PlainMembers members
  | _ => True

def PlainElements : List Json → Prop
  | [] => True
  | value :: rest => value.Plain ∧ PlainElements rest

def PlainMembers : List (String × Json) → Prop
  | [] => True
  | (key, value) :: rest =>
      Printable key ∧ value.Plain ∧ PlainMembers rest

end

mutual

/-- How deep arrays and objects are nested. -/
def depth : Json → Nat
  | .array elements => depthElements elements + 1
  | .object members => depthMembers members + 1
  | _ => 0

def depthElements : List Json → Nat
  | [] => 0
  | value :: rest => max value.depth (depthElements rest)

def depthMembers : List (String × Json) → Nat
  | [] => 0
  | (_, value) :: rest => max value.depth (depthMembers rest)

end

/-- Without quotes and backslashes nothing is escaped. -/
theorem escape_eq_self
    {characters : List Char}
    (ordinary : ∀ character ∈ characters,
      character ≠ '"' ∧ character ≠ '\\') :
    escape characters = characters := by
  unfold escape
  induction characters with
  | nil => rfl
  | cons character characters inductionHypothesis =>
      obtain ⟨⟨quotes, slashes⟩, later⟩ := List.forall_mem_cons.mp ordinary
      rw [List.flatMap_cons, if_neg quotes, if_neg slashes,
        inductionHypothesis later]
      rfl

/-! ## Texts and numbers are read back -/

theorem readString_escape
    {characters : List Char}
    {fuel : Nat}
    {rest : List Char}
    (printable : ∀ character ∈ characters, ¬character.toNat < 0x20)
    (enough : characters.length < fuel) :
    readString fuel (escape characters ++ '"' :: rest) =
      some (characters, rest) := by
  induction characters generalizing fuel with
  | nil =>
      cases fuel with
      | zero => cases enough
      | succ fuel => rfl
  | cons character characters inductionHypothesis =>
      obtain ⟨here, later⟩ := List.forall_mem_cons.mp printable
      cases fuel with
      | zero => cases enough
      | succ fuel =>
          have others := inductionHypothesis later
            (Nat.lt_of_succ_lt_succ enough)
          unfold escape at others ⊢
          rw [List.flatMap_cons, List.append_assoc]
          by_cases quotes : character = '"'
          · subst quotes
            simp [readString, readEscape, others]
          · by_cases slashes : character = '\\'
            · subst slashes
              simp [readString, readEscape, others]
            · simp [readString, quotes, slashes, here, others]

theorem readString_quote
    {value : String}
    {rest : List Char}
    (printable : Printable value) :
    ∃ inside, quote value ++ rest = '"' :: inside ∧
      readString inside.length inside = some (value.toList, rest) := by
  refine ⟨escape value.toList ++ '"' :: rest, by simp [quote], ?_⟩
  apply readString_escape printable
  have longer : ∀ characters : List Char,
      characters.length ≤ (escape characters).length := by
    intro characters
    unfold escape
    induction characters with
    | nil => exact Nat.le_refl _
    | cons character characters inductionHypothesis =>
        rw [List.flatMap_cons, List.length_append, List.length_cons]
        split
        · simp only [List.length_cons, List.length_nil]
          omega
        · split
          · simp only [List.length_cons, List.length_nil]
            omega
          · simp only [List.length_cons, List.length_nil]
            omega
  have := longer value.toList
  rw [List.length_append, List.length_cons]
  omega

/-- A number ends here. -/
def Ends (rest : List Char) : Prop :=
  ∀ character ∈ rest.head?, character.isDigit = false ∧ character ≠ '.' ∧
    character ≠ 'e' ∧ character ≠ 'E'

theorem head_toDigits_append
    (value : Nat)
    (rest : List Char) :
    (Nat.toDigits 10 value ++ rest).head? =
      (Nat.toDigits 10 value).head? := by
  obtain ⟨first, others, same⟩ :=
    List.exists_cons_of_ne_nil (@Nat.toDigits_ne_nil value 10)
  rw [same]
  rfl

/-- Only zero begins with a zero. -/
theorem head_toDigits
    (value : Nat)
    (zero : (Nat.toDigits 10 value).head? = some '0') :
    (Nat.toDigits 10 value).length = 1 := by
  induction value using Nat.strongRecOn with
  | ind value inductionHypothesis =>
      by_cases small : value < 10
      · rw [Nat.toDigits_of_lt_base small]
        rfl
      · exfalso
        have large : 10 ≤ value := Nat.le_of_not_lt small
        rw [Nat.toDigits_of_base_le (by decide) large] at zero
        rw [head_toDigits_append] at zero
        have single := inductionHypothesis (value / 10)
          (Nat.div_lt_self (by omega) (by decide)) zero
        obtain ⟨digit, same⟩ := List.length_eq_one_iff.mp single
        have back : Nat.ofDigitChars 10 (Nat.toDigits 10 (value / 10)) 0 =
            value / 10 := Nat.ofDigitChars_toDigits (by decide) (by decide)
        rw [same, List.head?_cons, Option.some.injEq] at zero
        rw [same, zero] at back
        have positive : 0 < value / 10 := by omega
        rw [← back] at positive
        revert positive
        decide

theorem readInteger_toDigits
    {value : Nat}
    {rest : List Char}
    (ends : Ends rest) :
    readInteger (Nat.toDigits 10 value ++ rest) =
      some (Nat.toDigits 10 value, rest) := by
  have digits : ∀ character ∈ Nat.toDigits 10 value,
      character.isDigit = true := fun character member =>
    Nat.isDigit_of_mem_toDigits (by decide) (by decide) member
  have stops : rest.takeWhile Char.isDigit = [] ∧
      rest.dropWhile Char.isDigit = rest := by
    cases rest with
    | nil => exact ⟨rfl, rfl⟩
    | cons first rest =>
        have other := (ends first rfl).1
        simp [other]
  have taken : (Nat.toDigits 10 value ++ rest).takeWhile Char.isDigit =
      Nat.toDigits 10 value := by
    rw [List.takeWhile_append_of_pos digits, stops.1, List.append_nil]
  have dropped : (Nat.toDigits 10 value ++ rest).dropWhile Char.isDigit =
      rest := by
    rw [List.dropWhile_append_of_pos digits, stops.2]
  unfold readInteger readDigits
  rw [taken, dropped, if_neg Nat.toDigits_ne_nil]
  simp only [Option.bind_eq_bind, Option.bind_some]
  rw [if_neg]
  · rfl
  · rintro ⟨zero, several⟩
    exact several (head_toDigits value zero)

theorem readNumber_toDigits
    {value : Nat}
    {rest : List Char}
    (bounded : value < 2 ^ 64)
    (ends : Ends rest) :
    readNumber (Nat.toDigits 10 value ++ rest) =
      some (.natural value, rest) := by
  have unsigned : (Nat.toDigits 10 value ++ rest).head? ≠ some '-' := by
    rw [head_toDigits_append]
    intro minus
    have digit : ('-').isDigit = true :=
      Nat.isDigit_of_mem_toDigits (by decide) (by decide)
        (List.mem_of_mem_head? minus)
    revert digit
    decide
  have noFraction : readFraction rest = some ([], rest) := by
    unfold readFraction
    rw [if_neg]
    intro point
    exact (ends '.' point).2.1 rfl
  have noExponent : readExponent rest = some ([], rest) := by
    unfold readExponent
    rw [if_neg]
    rintro (lower | upper)
    · exact (ends 'e' lower).2.2.1 rfl
    · exact (ends 'E' upper).2.2.2 rfl
  have back : Nat.ofDigitChars 10 (Nat.toDigits 10 value) 0 = value :=
    Nat.ofDigitChars_toDigits (by decide) (by decide)
  unfold readNumber readUnsigned
  rw [if_neg unsigned, readInteger_toDigits ends]
  simp only [Option.bind_eq_bind, Option.bind_some, noFraction, noExponent,
    Option.pure_def]
  rw [if_pos (by rw [back]; exact ⟨trivial, trivial, bounded⟩), back]

/-! ## Values are read back -/

theorem skipSpace_cons
    {first : Char}
    {rest : List Char}
    (token : isSpace first = false) :
    skipSpace (first :: rest) = first :: rest := by
  unfold skipSpace
  rw [List.dropWhile_cons_of_neg]
  simp [token]

/-- Where a value begins. -/
theorem render_head
    {value : Json}
    (plain : value.Plain) :
    ∃ first others, render value = first :: others ∧
      isSpace first = false ∧ first ≠ ']' := by
  cases value with
  | null => exact ⟨_, _, rfl, by decide, by decide⟩
  | bool value =>
      cases value with
      | true => exact ⟨_, _, rfl, by decide, by decide⟩
      | false => exact ⟨_, _, rfl, by decide, by decide⟩
  | natural value =>
      obtain ⟨first, others, same⟩ :=
        List.exists_cons_of_ne_nil (@Nat.toDigits_ne_nil value 10)
      have digit : first.isDigit = true :=
        Nat.isDigit_of_mem_toDigits (by decide) (by decide)
          (same ▸ List.mem_cons_self)
      refine ⟨first, others, same, ?_, ?_⟩
      · by_contra space
        simp only [isSpace, Bool.not_eq_false, Bool.or_eq_true,
          decide_eq_true_eq] at space
        rcases space with ((rfl | rfl) | rfl) | rfl <;> cases digit
      · rintro rfl
        cases digit
  | number spelled => exact plain.elim
  | text value => exact ⟨_, _, rfl, by decide, by decide⟩
  | array elements =>
      cases elements with
      | nil => exact ⟨_, _, rfl, by decide, by decide⟩
      | cons first rest => exact ⟨_, _, rfl, by decide, by decide⟩
  | object members =>
      cases members with
      | nil => exact ⟨_, _, rfl, by decide, by decide⟩
      | cons first rest => exact ⟨_, _, rfl, by decide, by decide⟩

theorem ends_renderElements
    (elements : List Json)
    (rest : List Char) :
    Ends (renderElements elements ++ rest) := by
  cases elements with
  | nil =>
      rintro _ ⟨⟩
      decide
  | cons first others =>
      rintro _ ⟨⟩
      decide

theorem ends_renderMembers
    (members : List (String × Json))
    (rest : List Char) :
    Ends (renderMembers members ++ rest) := by
  cases members with
  | nil =>
      rintro _ ⟨⟩
      decide
  | cons first others =>
      rintro _ ⟨⟩
      decide

/-- A value, the elements of an array and the members of an object are read
back, by induction on what may be spent on them. -/
theorem readValue_render
    (fuel : Nat) :
    (∀ (value : Json) (rest : List Char), value.Plain → Ends rest →
      (render value).length < fuel →
      readValue fuel (render value ++ rest) = some (value, rest)) ∧
    (∀ (first : Json) (elements : List Json) (rest : List Char),
      first.Plain → PlainElements elements →
      (render first ++ renderElements elements).length < fuel →
      readElements fuel (render first ++ renderElements elements ++ rest) =
        some (first :: elements, rest)) ∧
    (∀ (key : String) (first : Json) (members : List (String × Json))
      (rest : List Char),
      Printable key → first.Plain → PlainMembers members →
      (quote key ++ ':' :: render first ++ renderMembers members).length <
        fuel →
      readMembers fuel (quote key ++ ':' :: render first ++
          renderMembers members ++ rest) =
        some ((key, first) :: members, rest)) := by
  induction fuel with
  | zero => exact ⟨nofun, nofun, nofun⟩
  | succ fuel inductionHypothesis =>
      obtain ⟨ofValue, ofElements, ofMembers⟩ := inductionHypothesis
      refine ⟨?_, ?_, ?_⟩
      · intro value rest plain ends enough
        cases value with
        | null => simp [render, readValue, readWord]
        | bool value => cases value <;> simp [render, readValue, readWord]
        | natural value =>
            have number := @readNumber_toDigits value rest plain ends
            obtain ⟨first, others, same⟩ :=
              List.exists_cons_of_ne_nil (@Nat.toDigits_ne_nil value 10)
            have digit : first.isDigit = true :=
              Nat.isDigit_of_mem_toDigits (by decide) (by decide)
                (same ▸ List.mem_cons_self)
            have other : ∀ character : Char, character.isDigit = false →
                first ≠ character := by
              rintro character plain rfl
              rw [plain] at digit
              cases digit
            rw [same, List.cons_append] at number
            rw [render, same, List.cons_append, readValue,
              if_neg (other _ (by decide)), if_neg (other _ (by decide)),
              if_neg (other _ (by decide)), if_neg (other _ (by decide)),
              if_neg (other _ (by decide)), if_neg (other _ (by decide))]
            exact number
        | number spelled => exact plain.elim
        | text value =>
            obtain ⟨inside, same, reads⟩ :=
              @readString_quote value rest plain
            rw [render, same, readValue, if_pos rfl, reads]
            simp
        | array elements =>
            cases elements with
            | nil => simp [render, readValue, skipSpace, isSpace]
            | cons first others =>
                obtain ⟨start, more, same, token, opens⟩ :=
                  render_head plain.1
                have elements := ofElements first others rest plain.1 plain.2
                  (Nat.lt_of_succ_lt_succ enough)
                have skipped : skipSpace (render first ++
                    renderElements others ++ rest) =
                    render first ++ renderElements others ++ rest := by
                  rw [same]
                  exact skipSpace_cons token
                rw [render, List.cons_append, List.cons_append, readValue,
                  if_neg (by decide), if_pos rfl, skipped, if_neg, elements]
                · rfl
                · rw [same]
                  intro closes
                  exact opens (Option.some.inj closes)
        | object members =>
            cases members with
            | nil => simp [render, readValue, skipSpace, isSpace]
            | cons member others =>
                obtain ⟨key, first⟩ := member
                have members := ofMembers key first others rest plain.1
                  plain.2.1 plain.2.2 (Nat.lt_of_succ_lt_succ enough)
                have skipped : skipSpace (quote key ++ ':' :: render first ++
                    renderMembers others ++ rest) = quote key ++
                      ':' :: render first ++ renderMembers others ++ rest :=
                  skipSpace_cons (by decide)
                rw [render, List.cons_append, List.cons_append,
                  List.cons_append, readValue, if_neg (by decide),
                  if_neg (by decide), if_pos rfl, skipped, if_neg, members]
                · rfl
                · simp [quote]
      · intro first elements rest plain plains enough
        rw [List.length_append] at enough
        have value := ofValue first (renderElements elements ++ rest) plain
          (ends_renderElements elements rest) (by
            cases elements <;> simp [renderElements] at enough <;> omega)
        rw [readElements, List.append_assoc, value]
        cases elements with
        | nil => simp [renderElements, skipSpace, isSpace]
        | cons second others =>
            obtain ⟨start, more, same, token, _⟩ := render_head plains.1
            have skipped : skipSpace (render second ++
                renderElements others ++ rest) =
                render second ++ renderElements others ++ rest := by
              rw [same]
              exact skipSpace_cons token
            have later := ofElements second others rest plains.1 plains.2 (by
              simp only [renderElements, List.length_cons,
                List.length_append] at enough ⊢
              omega)
            simp only [Option.bind_eq_bind, Option.bind_some, renderElements,
              List.cons_append]
            rw [skipSpace_cons (by decide)]
            simp only [skipped, later, Option.bind_some, Option.pure_def]
      · intro key first members rest printable plain plains enough
        simp only [List.length_append, List.length_cons] at enough
        obtain ⟨inside, same, reads⟩ := @readString_quote key
          (':' :: render first ++ renderMembers members ++ rest) printable
        obtain ⟨start, more, sameFirst, token, _⟩ := render_head plain
        have skipped : skipSpace (render first ++
            (renderMembers members ++ rest)) =
            render first ++ (renderMembers members ++ rest) := by
          rw [sameFirst]
          exact skipSpace_cons token
        have value := ofValue first (renderMembers members ++ rest) plain
          (ends_renderMembers members rest) (by
            cases members <;> simp [renderMembers] at enough <;> omega)
        simp only [List.append_assoc] at same reads ⊢
        rw [same, readMembers, reads]
        simp only [Option.bind_eq_bind, Option.bind_some, List.cons_append]
        rw [skipSpace_cons (by decide)]
        simp only [skipped, value, Option.bind_some]
        cases members with
        | nil => simp [renderMembers, skipSpace, isSpace]
        | cons member others =>
            obtain ⟨keyToo, second⟩ := member
            have later := ofMembers keyToo second others rest plains.1
              plains.2.1 plains.2.2 (by
                simp only [renderMembers, List.length_cons,
                  List.length_append] at enough ⊢
                omega)
            have skippedToo : skipSpace (quote keyToo ++
                ':' :: render second ++ renderMembers others ++ rest) =
                  quote keyToo ++ ':' :: render second ++
                    renderMembers others ++ rest :=
              skipSpace_cons (by decide)
            simp only [renderMembers, List.cons_append]
            rw [skipSpace_cons (by decide)]
            simp only [List.append_assoc, List.cons_append]
              at skippedToo later ⊢
            simp only [skippedToo, later, Option.bind_some, Option.pure_def,
              String.ofList_toList]

/-- What is written is read back, also with a line end behind it. -/
theorem read_render
    {value : Json}
    {rest : List Char}
    (plain : value.Plain)
    (blank : ∀ character ∈ rest, isSpace character = true) :
    read (String.ofList (render value ++ rest)) = some value := by
  obtain ⟨first, others, same, token, _⟩ := render_head plain
  have skipped : skipSpace (render value ++ rest) = render value ++ rest := by
    rw [same]
    exact skipSpace_cons token
  have ends : Ends rest := by
    intro character head
    have space := blank character (List.mem_of_mem_head? head)
    simp only [isSpace, Bool.or_eq_true, decide_eq_true_eq] at space
    rcases space with ((rfl | rfl) | rfl) | rfl <;> decide
  have nothing : skipSpace rest = [] := by
    unfold skipSpace
    exact List.dropWhile_eq_nil_iff.mpr blank
  unfold read
  rw [String.toList_ofList, skipped, (readValue_render _).1 value rest plain
    ends (by rw [List.length_append]; omega)]
  simp [nothing]

end Json
end ModelKeep
