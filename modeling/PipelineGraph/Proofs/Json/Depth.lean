import PipelineGraph.Json.Value
import Mathlib.Logic.Function.Iterate

/-!
# How deep values are nested

The depth of a value counts the lists and objects that stand one inside another, its levels also
count what the innermost of them holds.
-/

namespace PipelineGraph

/-- A value under a key is nested at most as deep as the fields. -/
theorem Fields.depth_le_of_get? {fields : Fields} {key : Text} {value : Value}
    (h : fields.get? key = some value) : value.depth ≤ Value.depthOfFields fields := by
  induction fields with
  | nil => simp [Fields.get?] at h
  | cons field rest ih =>
    obtain ⟨k, v⟩ := field
    simp only [Fields.get?, List.lookup_cons] at h ih
    simp only [Value.depthOfFields]
    split at h
    · cases h
      omega
    · have hrest := ih h
      omega

namespace Value

/-- Every value has a level. -/
theorem one_le_levels (v : Value) : 1 ≤ v.levels := by
  cases v <;> simp [levels]

/-- Items are nested at most as deep as each of them. -/
theorem depthOfItems_le {items : List Value} {bound : Nat} (h : ∀ item ∈ items, item.depth ≤ bound) :
    depthOfItems items ≤ bound := by
  induction items with
  | nil => exact Nat.zero_le _
  | cons item rest ih =>
    obtain ⟨hitem, hrest⟩ := List.forall_mem_cons.1 h
    exact Nat.max_le.2 ⟨hitem, ih hrest⟩

/-- Fields are nested at most as deep as the value of each of them. -/
theorem depthOfFields_le {fields : List (Text × Value)} {bound : Nat}
    (h : ∀ field ∈ fields, field.2.depth ≤ bound) : depthOfFields fields ≤ bound := by
  induction fields with
  | nil => exact Nat.zero_le _
  | cons field rest ih =>
    obtain ⟨hfield, hrest⟩ := List.forall_mem_cons.1 h
    exact Nat.max_le.2 ⟨hfield, ih hrest⟩

mutual

/-- A value is nested at most as deep as it has levels. -/
theorem depth_le_levels (v : Value) : v.depth ≤ v.levels := by
  cases v with
  | list items => exact Nat.add_le_add_right (depthOfItems_le_levelsOfItems items) 1
  | object fields => exact Nat.add_le_add_right (depthOfFields_le_levelsOfFields fields) 1
  | _ => exact Nat.zero_le _

/-- So are the items of a list. -/
theorem depthOfItems_le_levelsOfItems (items : List Value) : depthOfItems items ≤ levelsOfItems items := by
  match items with
  | [] => exact Nat.le_refl 0
  | item :: rest =>
    have hitem := depth_le_levels item
    have hrest := depthOfItems_le_levelsOfItems rest
    simp only [depthOfItems, levelsOfItems]
    omega

/-- So are the values of fields. -/
theorem depthOfFields_le_levelsOfFields (fields : List (Text × Value)) :
    depthOfFields fields ≤ levelsOfFields fields := by
  match fields with
  | [] => exact Nat.le_refl 0
  | (_, value) :: rest =>
    have hvalue := depth_le_levels value
    have hrest := depthOfFields_le_levelsOfFields rest
    simp only [depthOfFields, levelsOfFields]
    omega

end

/-- A value in lists, one in another, is as much deeper as there are lists. -/
theorem depth_iterate_list (count : Nat) (v : Value) :
    ((fun v => list [v])^[count] v).depth = v.depth + count := by
  induction count with
  | zero => rfl
  | succ count ih =>
    rw [Function.iterate_succ_apply', depth, depthOfItems, depthOfItems, ih]
    omega

/-- A value in lists, one in another, has as many more levels as there are lists. -/
theorem levels_iterate_list (count : Nat) (v : Value) :
    ((fun v => list [v])^[count] v).levels = v.levels + count := by
  induction count with
  | zero => rfl
  | succ count ih =>
    rw [Function.iterate_succ_apply', levels, levelsOfItems, levelsOfItems, ih]
    omega

end Value

end PipelineGraph
