/-!
# JSON values

Values as a parser hands them to a decoder, and the decoders of plain fields.
A field that is null counts as missing where a missing field is fine.
-/

namespace ModelKeep

/-- A JSON value.  A number that is no unsigned 64-bit integer is kept as it
is spelled. -/
inductive Json
  | null
  | bool (value : Bool)
  | natural (value : Nat)
  | number (spelled : String)
  | text (value : String)
  | array (elements : List Json)
  | object (members : List (String × Json))

namespace Json

/-- The member of an object. -/
def get? (value : Json) (key : String) : Option Json :=
  match value with
  | .object members =>
      (members.find? fun member => member.1 = key).map Prod.snd
  | _ => none

def asText : Json → Option String
  | .text value => some value
  | _ => none

def asBool : Json → Option Bool
  | .bool value => some value
  | _ => none

def asNatural : Json → Option Nat
  | .natural value => some value
  | _ => none

def asArray : Json → Option (List Json)
  | .array elements => some elements
  | _ => none

/-- An integer below a bound. -/
def asBounded (bound : Nat) (value : Json) : Option Nat :=
  value.asNatural.filter fun number => number < bound

/-- A field that has to be there. -/
def required {α : Type} (decode : Json → Option α) (field : Option Json) :
    Option α :=
  field.bind decode

/-- A field that may be missing or null. -/
def optional {α : Type} (decode : Json → Option α) (field : Option Json) :
    Option (Option α) :=
  match field with
  | none => some none
  | some .null => some none
  | some value => (decode value).map some

/-- A field that may be missing and has a default then. -/
def orDefault {α : Type} (default : α) (decode : Json → Option α)
    (field : Option Json) : Option α :=
  match field with
  | none => some default
  | some value => decode value

/-- A list of values of one kind. -/
def asList {α : Type} (decode : Json → Option α) (value : Json) :
    Option (List α) :=
  value.asArray.bind fun elements => elements.mapM decode

end Json
end ModelKeep
