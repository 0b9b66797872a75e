import Mathlib.Data.Finmap
import Mathlib.Data.Finset.Sort
import Mathlib.Data.String.Basic

/-!
# Maps in the order of their keys

The values of a map whose keys are texts, in the ascending order of the keys.
-/

namespace SortedMap

variable {β : Type} {entries : Finmap fun _ : String => β}

/-- The values of a `BTreeMap`, in the order of the keys. -/
def valuesOf (entries : Finmap fun _ : String => β) : List β :=
  (entries.keys.sort (· ≤ ·)).filterMap entries.lookup

theorem mem_valuesOf {value : β} :
    value ∈ valuesOf entries ↔ ∃ path, entries.lookup path = some value := by
  rw [valuesOf, List.mem_filterMap]
  constructor
  · rintro ⟨path, _, found⟩
    exact ⟨path, found⟩
  · rintro ⟨path, found⟩
    refine ⟨path, ?_, found⟩
    rw [Finset.mem_sort, Finmap.mem_keys]
    exact Finmap.mem_iff.mpr ⟨value, found⟩

/-- Every value is filed under its own key. -/
def FiledBy (key : β → String) (entries : Finmap fun _ : String => β) : Prop :=
  ∀ path value, entries.lookup path = some value → key value = path

namespace FiledBy

variable {key : β → String}

/-- The values are in the ascending order of their keys. -/
theorem ascending (filed : FiledBy key entries) :
    ((valuesOf entries).map key).Pairwise (· < ·) := by
  have keys : (valuesOf entries).map key = entries.keys.sort (· ≤ ·) := by
    have there : ∀ path ∈ entries.keys.sort (· ≤ ·), path ∈ entries := by
      intro path member
      rwa [Finset.mem_sort, Finmap.mem_keys] at member
    rw [valuesOf]
    generalize entries.keys.sort (· ≤ ·) = paths at there
    induction paths with
    | nil => rfl
    | cons path paths inductionHypothesis =>
        obtain ⟨value, found⟩ := Finmap.mem_iff.mp
          (there path (List.mem_cons_self ..))
        rw [@List.filterMap_cons_some _ _ (fun path => entries.lookup path)
          _ _ _ found, List.map_cons,
          filed path value found,
          inductionHypothesis fun other member =>
            there other (List.mem_cons_of_mem _ member)]
  rw [keys]
  exact (Finset.sortedLT_sort _).pairwise

/-- Looking up among the values is looking up by key. -/
theorem mem_iff
    {value : β}
    (filed : FiledBy key entries) :
    value ∈ valuesOf entries ↔ entries.lookup (key value) = some value := by
  rw [mem_valuesOf]
  constructor
  · rintro ⟨path, found⟩
    rw [filed path value found]
    exact found
  · exact fun found => ⟨_, found⟩

theorem insert
    (filed : FiledBy key entries)
    (value : β) :
    FiledBy key (entries.insert (key value) value) := by
  intro path other found
  by_cases same : path = key value
  · rw [same, Finmap.lookup_insert] at found
    rw [same, ← Option.some.inj found]
  · rw [Finmap.lookup_insert_of_ne _ same] at found
    exact filed path other found

theorem empty (key : β → String) :
    FiledBy key (∅ : Finmap fun _ : String => β) := by
  intro path value found
  simp at found

/-- The first value for a key is the one that is filed under it. -/
theorem find_valuesOf
    (filed : FiledBy key entries)
    (path : String) :
    (valuesOf entries).find? (key · = path) = entries.lookup path := by
  cases found : (valuesOf entries).find? (key · = path) with
  | some value =>
      have named : key value = path := by
        simpa using List.find?_some found
      rw [← named, ← filed.mem_iff.mp (List.mem_of_find?_eq_some found)]
  | none =>
      cases present : entries.lookup path with
      | none => rfl
      | some value =>
          have named := filed path value present
          have member := filed.mem_iff.mpr (named ▸ present)
          have absent := List.find?_eq_none.mp found value member
          simp [named] at absent

end FiledBy

end SortedMap
