import PipelineGraph.Document
import PipelineGraph.Proofs.Json.Depth
import PipelineGraph.Proofs.Json.Every
import Mathlib.Data.List.TakeWhile

/-!
# What documents keep

A document is written of values in which null stands for every number that is not finite. Putting
null there changes neither the shape of a value nor its keys, and doing it twice is doing it once.
Of a config without surrogates in its keys, a document keeps all else, if there is a document: there
is one if and only if no entry of a config has too many levels.
-/

namespace PipelineGraph

/-! ## Surrogates -/

namespace Text

variable {t : Text}

/-- A text without surrogates can be encoded. -/
theorem encodeError?_eq_none (h : t.holdsSurrogate = false) : t.encodeError? = none := by
  have hwhole : t.takeWhile (!CodePoint.isSurrogate ·) = t := by
    rw [List.takeWhile_eq_self_iff]
    simpa [holdsSurrogate] using h
  rw [encodeError?, refuse?]
  simp [hwhole]

/-- A text without surrogates stays as it is. -/
theorem replaceSurrogates_eq_self (h : t.holdsSurrogate = false) : t.replaceSurrogates = t := by
  induction t with
  | nil => rfl
  | cons c t ih =>
    simp only [holdsSurrogate, List.any_cons, Bool.or_eq_false_iff] at h
    simp only [replaceSurrogates, List.flatMap_cons, h.1] at ih ⊢
    rw [ih h.2]
    rfl

end Text

namespace Value

/-- Whether the keys of a value are distinct if it is an object. -/
def hasDistinctKeys : Value → Bool
  | .object fields => (fields.map Prod.fst).Nodup
  | _ => true

/-- Whether no key of a value holds a surrogate. -/
def hasCleanKeys : Value → Bool
  | .object fields => fields.all fun field => !field.1.holdsSurrogate
  | _ => true

/-! ## Null for what is not finite -/

/-- Replacing what is not finite in fields keeps their keys and goes value by value. -/
theorem finiteFields_eq_map (fields : Fields) :
    finiteFields fields = fields.map fun field => (field.1, finiteOnly field.2) := by
  induction fields with
  | nil => rfl
  | cons field rest ih =>
    obtain ⟨key, value⟩ := field
    rw [finiteFields, ih, List.map_cons]

/-- The keys stay. -/
@[simp] theorem map_fst_finiteFields (fields : Fields) :
    (finiteFields fields).map Prod.fst = fields.map Prod.fst := by
  rw [finiteFields_eq_map, List.map_map]
  rfl

mutual

/-- Null stands in no place a second time. -/
theorem finiteOnly_finiteOnly (v : Value) : finiteOnly (finiteOnly v) = finiteOnly v := by
  cases v with
  | float x =>
    cases hx : x.isFinite with
    | false => simp [finiteOnly, hx]
    | true => simp [finiteOnly, hx]
  | list items => simp only [finiteOnly, finiteItems_finiteItems items]
  | object fields => simp only [finiteOnly, finiteFields_finiteFields fields]
  | _ => rfl

/-- In items, nothing that is not finite is left to replace. -/
theorem finiteItems_finiteItems (items : List Value) :
    finiteItems (finiteItems items) = finiteItems items := by
  match items with
  | [] => rfl
  | item :: rest =>
    simp only [finiteItems, finiteOnly_finiteOnly item, finiteItems_finiteItems rest]

/-- In fields, nothing that is not finite is left to replace. -/
theorem finiteFields_finiteFields (fields : List (Text × Value)) :
    finiteFields (finiteFields fields) = finiteFields fields := by
  match fields with
  | [] => rfl
  | (key, value) :: rest =>
    simp only [finiteFields, finiteOnly_finiteOnly value, finiteFields_finiteFields rest]

end

mutual

/-- A value is nested as deep as before. -/
theorem depth_finiteOnly (v : Value) : (finiteOnly v).depth = v.depth := by
  cases v with
  | float x =>
    rw [finiteOnly]
    split <;> rfl
  | list items => simp only [finiteOnly, depth, depthOfItems_finiteItems items]
  | object fields => simp only [finiteOnly, depth, depthOfFields_finiteFields fields]
  | _ => rfl

/-- Items are nested as deep as before. -/
theorem depthOfItems_finiteItems (items : List Value) :
    depthOfItems (finiteItems items) = depthOfItems items := by
  match items with
  | [] => rfl
  | item :: rest =>
    simp only [finiteItems, depthOfItems, depth_finiteOnly item, depthOfItems_finiteItems rest]

/-- Fields are nested as deep as before. -/
theorem depthOfFields_finiteFields (fields : List (Text × Value)) :
    depthOfFields (finiteFields fields) = depthOfFields fields := by
  match fields with
  | [] => rfl
  | (key, value) :: rest =>
    simp only [finiteFields, depthOfFields, depth_finiteOnly value, depthOfFields_finiteFields rest]

end

mutual

/-- A property that a value has with null in place of it, everything inside then has. -/
theorem every_finiteOnly {p q : Value → Bool} (h : ∀ v, p v = true → q (finiteOnly v) = true)
    {v : Value} (hv : every p v = true) : every q (finiteOnly v) = true := by
  cases v with
  | float x =>
    have hx := h _ hv
    rw [finiteOnly] at hx ⊢
    split at hx
    · next hfinite => rwa [if_pos hfinite]
    · next hfinite => rwa [if_neg hfinite]
  | list items =>
    obtain ⟨hroot, hitems⟩ := every_list.1 hv
    exact every_list.2 ⟨h _ hroot, everyItem_finiteItems h hitems⟩
  | object fields =>
    obtain ⟨hroot, hfields⟩ := every_object.1 hv
    exact every_object.2 ⟨h _ hroot, everyField_finiteFields h hfields⟩
  | _ => exact h _ hv

/-- A property passes on from items to those with null in place of what is not finite. -/
theorem everyItem_finiteItems {p q : Value → Bool} (h : ∀ v, p v = true → q (finiteOnly v) = true)
    {items : List Value} (hitems : everyItem p items = true) :
    everyItem q (finiteItems items) = true := by
  match items with
  | [] => rfl
  | item :: rest =>
    obtain ⟨hitem, hrest⟩ := everyItem_cons.1 hitems
    exact everyItem_cons.2 ⟨every_finiteOnly h hitem, everyItem_finiteItems h hrest⟩

/-- A property passes on from fields to those with null in place of what is not finite. -/
theorem everyField_finiteFields {p q : Value → Bool} (h : ∀ v, p v = true → q (finiteOnly v) = true)
    {fields : List (Text × Value)} (hfields : everyField p fields = true) :
    everyField q (finiteFields fields) = true := by
  match fields with
  | [] => rfl
  | (key, value) :: rest =>
    obtain ⟨hvalue, hrest⟩ := everyField_cons.1 hfields
    exact everyField_cons.2 ⟨every_finiteOnly h hvalue, everyField_finiteFields h hrest⟩

end

/-! ## What keeps a value out -/

mutual

/-- Numbers keep no value out of a document. -/
theorem documentError?_finiteOnly (room : Nat) (v : Value) :
    documentError? room (finiteOnly v) = documentError? room v := by
  cases room with
  | zero => simp only [documentError?]
  | succ room =>
    cases v with
    | float x =>
      rw [finiteOnly]
      split <;> rfl
    | list items => simp only [finiteOnly, documentError?, documentErrorOfItems?_finiteItems room items]
    | object fields =>
      simp only [finiteOnly, documentError?, documentErrorOfFields?_finiteFields room fields]
    | _ => rfl

/-- Items have the same document error as before. -/
theorem documentErrorOfItems?_finiteItems (room : Nat) (items : List Value) :
    documentErrorOfItems? room (finiteItems items) = documentErrorOfItems? room items := by
  match items with
  | [] => rfl
  | item :: rest =>
    simp only [finiteItems, documentErrorOfItems?, documentError?_finiteOnly room item,
      documentErrorOfItems?_finiteItems room rest]

/-- Fields have the same document error as before. -/
theorem documentErrorOfFields?_finiteFields (room : Nat) (fields : List (Text × Value)) :
    documentErrorOfFields? room (finiteFields fields) = documentErrorOfFields? room fields := by
  match fields with
  | [] => rfl
  | (key, value) :: rest =>
    simp only [finiteFields, documentErrorOfFields?, documentError?_finiteOnly room value,
      documentErrorOfFields?_finiteFields room rest]

end

mutual

/-- A value without surrogates in its keys is in a document if and only if there is room for it. -/
theorem documentError?_eq_none_iff (room : Nat) {v : Value} (hv : v.every hasCleanKeys = true) :
    documentError? room v = none ↔ v.levels ≤ room := by
  cases room with
  | zero =>
    have hlevels := one_le_levels v
    simp only [documentError?, reduceCtorEq, false_iff]
    omega
  | succ room =>
    cases v with
    | list items =>
      simp only [documentError?, levels, Nat.add_le_add_iff_right,
        documentErrorOfItems?_eq_none_iff room (every_list.1 hv).2]
    | object fields =>
      obtain ⟨hroot, hfields⟩ := every_object.1 hv
      have hkeys : ∀ field ∈ fields, field.1.holdsSurrogate = false := by
        simpa [hasCleanKeys] using hroot
      simp only [documentError?, levels, Nat.add_le_add_iff_right,
        documentErrorOfFields?_eq_none_iff room hkeys hfields]
    | _ => simp [documentError?, levels]

/-- Items whose keys are clean have no document error if they have no more levels than there is room
for. -/
theorem documentErrorOfItems?_eq_none_iff (room : Nat) {items : List Value}
    (hitems : everyItem hasCleanKeys items = true) :
    documentErrorOfItems? room items = none ↔ levelsOfItems items ≤ room := by
  match items with
  | [] => simp [documentErrorOfItems?, levelsOfItems]
  | item :: rest =>
    obtain ⟨hitem, hrest⟩ := everyItem_cons.1 hitems
    rw [levelsOfItems, Nat.max_le]
    simp [documentErrorOfItems?, documentError?_eq_none_iff room hitem,
      documentErrorOfItems?_eq_none_iff room hrest]

/-- Fields whose keys are clean have no document error if they have no more levels than there is
room for. -/
theorem documentErrorOfFields?_eq_none_iff (room : Nat) {fields : List (Text × Value)}
    (hkeys : ∀ field ∈ fields, field.1.holdsSurrogate = false)
    (hfields : everyField hasCleanKeys fields = true) :
    documentErrorOfFields? room fields = none ↔ levelsOfFields fields ≤ room := by
  match fields with
  | [] => simp [documentErrorOfFields?, levelsOfFields]
  | (key, value) :: rest =>
    obtain ⟨hvalue, hrest⟩ := everyField_cons.1 hfields
    obtain ⟨hkey, hkeys⟩ := List.forall_mem_cons.1 hkeys
    rw [levelsOfFields, Nat.max_le]
    simp [documentErrorOfFields?, Text.encodeError?_eq_none hkey,
      documentError?_eq_none_iff room hvalue, documentErrorOfFields?_eq_none_iff room hkeys hrest]

end

end Value

end PipelineGraph
