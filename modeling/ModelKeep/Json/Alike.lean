import Mathlib.Data.List.Forall2
import ModelKeep.Json.Value

/-!
# JSON values up to order

A parser may keep the members of an object in another order than the text has
them.  A decoder that looks members up by name takes values that differ in
nothing else for the same.
-/

namespace ModelKeep
namespace Json

/-- The same value, up to the order of members. -/
inductive Alike : Json → Json → Prop
  | refl {value : Json} : Alike value value
  | array {left right : List Json} (elements : List.Forall₂ Alike left right) :
      Alike (.array left) (.array right)
  | object {left right : List (String × Json)}
      (members : ∀ key, Option.Rel Alike ((object left).get? key)
        ((object right).get? key)) :
      Alike (.object left) (.object right)

/-- A decoder does not tell values apart that are alike. -/
def Respects {α : Type} (decode : Json → Option α) : Prop :=
  ∀ left right, Alike left right → decode left = decode right

section decoders

variable {α : Type} {decode : Json → Option α} {left right : Json}
  {field other : Option Json}

theorem rel_refl : Option.Rel Alike field field := by
  cases field with
  | none => exact .none
  | some value => exact .some .refl

theorem Alike.get?
    (alike : Alike left right)
    (key : String) :
    Option.Rel Alike (left.get? key) (right.get? key) := by
  cases alike with
  | refl => exact rel_refl
  | array elements => exact .none
  | object members => exact members key

theorem respects_asText : Respects asText := by
  intro left right alike
  cases alike <;> rfl

theorem respects_asNatural : Respects asNatural := by
  intro left right alike
  cases alike <;> rfl

theorem respects_asBounded {bound : Nat} : Respects (asBounded bound) := by
  intro left right alike
  unfold asBounded
  rw [respects_asNatural left right alike]

theorem Respects.mapM
    (respects : Respects decode)
    {first second : List Json}
    (elements : List.Forall₂ Alike first second) :
    first.mapM decode = second.mapM decode := by
  induction elements with
  | nil => rfl
  | cons alike _ inductionHypothesis =>
      rw [List.mapM_cons, List.mapM_cons, respects _ _ alike,
        inductionHypothesis]

theorem Respects.asList
    (respects : Respects decode) :
    Respects (asList decode) := by
  intro left right alike
  cases alike with
  | refl => rfl
  | array elements => exact respects.mapM elements
  | object members => rfl

theorem Respects.bind
    (respects : Respects decode)
    (alike : Option.Rel Alike field other) :
    field.bind decode = other.bind decode := by
  cases alike with
  | none => rfl
  | some alike => exact respects _ _ alike

theorem Respects.required
    (respects : Respects decode)
    (alike : Option.Rel Alike field other) :
    required decode field = required decode other :=
  respects.bind alike

theorem Respects.optional
    (respects : Respects decode)
    (alike : Option.Rel Alike field other) :
    optional decode field = optional decode other := by
  cases alike with
  | none => rfl
  | some alike =>
      have same := respects _ _ alike
      cases alike with
      | refl => rfl
      | array elements => exact congrArg (Option.map some) same
      | object members => exact congrArg (Option.map some) same

theorem Respects.orDefault
    (respects : Respects decode)
    (default : α)
    (alike : Option.Rel Alike field other) :
    orDefault default decode field = orDefault default decode other := by
  cases alike with
  | none => rfl
  | some alike => exact respects _ _ alike

/-- The elements at a position of lists that are alike. -/
theorem rel_getElem?
    {first second : List Json}
    (elements : List.Forall₂ Alike first second)
    (index : Nat) :
    Option.Rel Alike first[index]? second[index]? := by
  induction elements generalizing index with
  | nil => exact .none
  | cons alike _ inductionHypothesis =>
      cases index with
      | zero => exact .some alike
      | succ index => exact inductionHypothesis index

end decoders

end Json
end ModelKeep
