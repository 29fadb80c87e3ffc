import PipelineGraph.Json.Value
import Mathlib.Data.List.Basic

/-!
# Properties of every part of a value

A property of values that are no lists and objects, or of those alone, becomes a property of nested
values when everything inside has it.
-/

namespace PipelineGraph

namespace Value

mutual

/-- Whether a value and all that it holds have a property. -/
def every (p : Value → Bool) : Value → Bool
  | .list items => p (.list items) && everyItem p items
  | .object fields => p (.object fields) && everyField p fields
  | v => p v

/-- Whether the items of a list and all that they hold have a property. -/
def everyItem (p : Value → Bool) : List Value → Bool
  | [] => true
  | item :: rest => every p item && everyItem p rest

/-- Whether the values of fields and all that they hold have a property. -/
def everyField (p : Value → Bool) : List (Text × Value) → Bool
  | [] => true
  | (_, value) :: rest => every p value && everyField p rest

end

section Every

variable {p q : Value → Bool} {items : List Value} {fields : Fields}

/-- A list has a property throughout if it has it itself and its items do. -/
@[simp] theorem every_list :
    every p (.list items) = true ↔ p (.list items) = true ∧ everyItem p items = true := by
  simp [every]

/-- An object has a property throughout if it has it itself and its fields do. -/
@[simp] theorem every_object :
    every p (.object fields) = true ↔ p (.object fields) = true ∧ everyField p fields = true := by
  simp [every]

/-- The first item has the property throughout, and so do the others. -/
@[simp] theorem everyItem_cons {item : Value} :
    everyItem p (item :: items) = true ↔ every p item = true ∧ everyItem p items = true := by
  simp [everyItem]

/-- The value of the first field has the property throughout, and so do the others. -/
@[simp] theorem everyField_cons {field : Text × Value} :
    everyField p (field :: fields) = true ↔ every p field.2 = true ∧ everyField p fields = true := by
  obtain ⟨key, value⟩ := field
  simp [everyField]

/-- No items have every property. -/
@[simp] theorem everyItem_nil : everyItem p [] = true := rfl

/-- No fields have every property. -/
@[simp] theorem everyField_nil : everyField p [] = true := rfl

/-- What everything inside a value has, the value has. -/
theorem every_root {v : Value} (h : every p v = true) : p v = true := by
  cases v with
  | list items => exact (every_list.1 h).1
  | object fields => exact (every_object.1 h).1
  | _ => exact h

/-- A property of everything inside the items is one of everything inside each of them. -/
theorem everyItem_iff : everyItem p items = true ↔ ∀ item ∈ items, every p item = true := by
  induction items with
  | nil => simp
  | cons item rest ih => simp [ih]

/-- A property of everything inside the fields is one of everything inside each of them. -/
theorem everyField_iff : everyField p fields = true ↔ ∀ field ∈ fields, every p field.2 = true := by
  induction fields with
  | nil => simp
  | cons field rest ih => simp [ih]

end Every

mutual

/-- A property that follows from another one holds of everything inside a value if the other does. -/
theorem every_mono {p q : Value → Bool} (h : ∀ v, p v = true → q v = true) {v : Value}
    (hv : every p v = true) : every q v = true := by
  cases v with
  | list items =>
    obtain ⟨hroot, hitems⟩ := every_list.1 hv
    exact every_list.2 ⟨h _ hroot, everyItem_mono h hitems⟩
  | object fields =>
    obtain ⟨hroot, hfields⟩ := every_object.1 hv
    exact every_object.2 ⟨h _ hroot, everyField_mono h hfields⟩
  | _ => exact h _ hv

/-- It then also holds of everything inside the items of a list. -/
theorem everyItem_mono {p q : Value → Bool} (h : ∀ v, p v = true → q v = true) {items : List Value}
    (hitems : everyItem p items = true) : everyItem q items = true := by
  match items with
  | [] => rfl
  | item :: rest =>
    obtain ⟨hitem, hrest⟩ := everyItem_cons.1 hitems
    exact everyItem_cons.2 ⟨every_mono h hitem, everyItem_mono h hrest⟩

/-- It then also holds of everything inside the values of fields. -/
theorem everyField_mono {p q : Value → Bool} (h : ∀ v, p v = true → q v = true)
    {fields : List (Text × Value)} (hfields : everyField p fields = true) :
    everyField q fields = true := by
  match fields with
  | [] => rfl
  | (key, value) :: rest =>
    obtain ⟨hvalue, hrest⟩ := everyField_cons.1 hfields
    exact everyField_cons.2 ⟨every_mono h hvalue, everyField_mono h hrest⟩

end

end Value

end PipelineGraph
