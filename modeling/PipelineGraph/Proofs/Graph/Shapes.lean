import PipelineGraph.Proofs.Graph.Capturing

/-!
# The two shapes of a node

A node means the same in both shapes: what is flat and what stands in an editor's object is refused for
the same faults or gives the same node. The limit is in the copying: a flat node is copied as a whole,
of an editor's node the config alone, so a value that is nested too deep is refused only where it is
copied.
-/

namespace PipelineGraph

/-- What a node is made from in either shape; label, config and position may be absent. -/
structure NodeParts where
  id : Value
  kind : Value
  label : Option Value := none
  config : Option Value := none
  position : Option Value := none

namespace NodeParts

/-- A flat object has the parts under their keys; the object under `data` is missing. -/
structure IsFlat (p : NodeParts) (fields : Fields) : Prop where
  flat : ∀ data, fields.get? "data" ≠ some (.object data)
  id : fields.get? "id" = some p.id
  kind : fields.get? "type" = some p.kind
  label : fields.get? "label" = p.label
  config : fields.get? "config" = p.config
  position : fields.get? "position" = p.position

/-- An editor's object has id and position under their keys and the other parts in an object under `data`. -/
structure IsEditor (p : NodeParts) (fields data : Fields) : Prop where
  nested : fields.get? "data" = some (.object data)
  id : fields.get? "id" = some p.id
  kind : data.get? "type" = some p.kind
  label : data.get? "label" = p.label
  config : data.get? "config" = p.config
  position : fields.get? "position" = p.position

variable {p : NodeParts} {flat editor data : Fields}

/-- The entries of a flat object are its parts. -/
theorem IsFlat.entriesOf (h : p.IsFlat flat) :
    Node.entriesOf flat = ⟨some p.id, "type", some p.kind, p.label, p.config, p.position⟩ := by
  have hflat : Node.entriesOf flat = .ofFlat flat := by
    unfold Node.entriesOf
    split
    · next data hdata => exact absurd hdata (h.flat data)
    · rfl
  rw [hflat, NodeEntries.ofFlat, h.id, h.kind, h.label, h.config, h.position]
  rfl

/-- The entries of an editor's object are its parts, with an empty object for a position that says nothing. -/
theorem IsEditor.entriesOf (h : p.IsEditor editor data) :
    Node.entriesOf editor = ⟨some p.id, "type", some p.kind, p.label, p.config,
      some (if (p.position.getD .null).isVoid then .object [] else p.position.getD .null)⟩ := by
  rw [Node.entriesOf, h.nested]
  dsimp only
  rw [NodeEntries.ofEditor, h.id, h.kind, h.label, h.config, h.position]
  rfl

/-- A flat object is copied as a whole. -/
theorem IsFlat.copyDepth (h : p.IsFlat flat) : Node.copyDepth flat = Value.depthOfFields flat + 1 := by
  unfold Node.copyDepth
  split
  · next data hdata => exact absurd hdata (h.flat data)
  · rfl

/-- Of an editor's object the config is copied. -/
theorem IsEditor.copyDepth (h : p.IsEditor editor data) :
    Node.copyDepth editor = (p.config.getD .null).depth := by
  rw [Node.copyDepth, h.nested]
  dsimp only
  rw [h.config]

end NodeParts

namespace Node

/-- The empty object is read as the position of a node that gives none. -/
theorem positionOf_void {position : Option Value}
    (h : ∀ v, position = some v → v.isVoid = true → v.shape = .object) :
    positionOf (some (if (position.getD .null).isVoid then .object [] else position.getD .null)) =
      positionOf position := by
  cases position with
  | none => rfl
  | some v =>
    have hshape := h v rfl
    rw [Option.getD_some]
    split
    · next hvoid =>
      cases v with
      | object fields =>
        obtain rfl : fields = [] := List.isEmpty_iff.1 hvoid
        rfl
      | _ => cases hshape hvoid
    · rfl

/-- Fields that can be copied are refused for the faults of their entries or give the node they describe. -/
theorem ofValue_of_copied {fields : Fields} (h : copyDepth fields ≤ maxCopyDepth) :
    ofValue (.object fields) = match ofEntries (entriesOf fields) with
      | .ok node => .ok node
      | .error faults => .error (.invalid .node faults) :=
  if_neg (Nat.not_lt_of_le h)

/--
A node in both shapes, with any values that can be copied: either both are refused with the same
faults, or both are accepted as the same node. The position may be absent, but if it says nothing it is
the empty object.
-/
theorem shapes_agree {p : NodeParts} {flat editor data : Fields} (hflat : p.IsFlat flat)
    (heditor : p.IsEditor editor data)
    (hposition : ∀ v, p.position = some v → v.isVoid = true → v.shape = .object)
    (hcopied : Value.depthOfFields flat < maxCopyDepth) :
    (∃ n, ofValue (.object flat) = .ok n ∧ ofValue (.object editor) = .ok n) ∨
      ∃ faults, ofValue (.object flat) = .error (.invalid .node faults) ∧
        ofValue (.object editor) = .error (.invalid .node faults) := by
  have hconfig : (p.config.getD .null).depth ≤ Value.depthOfFields flat := by
    cases hget : p.config with
    | none => exact Nat.zero_le _
    | some v => exact Fields.depth_le_of_get? (hflat.config.trans hget)
  have hentries : ofEntries (entriesOf editor) = ofEntries (entriesOf flat) := by
    rw [hflat.entriesOf, heditor.entriesOf, ofEntries, ofEntries, positionOf_void hposition]
  rw [ofValue_of_copied (hflat.copyDepth ▸ hcopied),
    ofValue_of_copied (heditor.copyDepth ▸ Nat.le_trans hconfig (Nat.le_of_lt hcopied)), hentries]
  cases ofEntries (entriesOf flat) with
  | ok n => exact Or.inl ⟨n, rfl, rfl⟩
  | error faults => exact Or.inr ⟨faults, rfl, rfl⟩

/-- A node whose type is no kind and whose position is no position has both faults in both shapes. -/
theorem shapes_agree_faults :
    let flat : Fields := [("id", .int 7), ("type", .bool true), ("position", .int 3)]
    let data : Fields := [("icon", .text "x"), ("type", .bool true)]
    let editor : Fields :=
      [("id", .int 7), ("type", .text "custom"), ("position", .int 3), ("data", .object data)]
    NodeParts.IsFlat ⟨.int 7, .bool true, none, none, some (.int 3)⟩ flat ∧
      NodeParts.IsEditor ⟨.int 7, .bool true, none, none, some (.int 3)⟩ editor data ∧
      Value.depthOfFields flat < maxCopyDepth ∧
      ∃ faults, ofValue (.object flat) = .error (.invalid .node faults) ∧
        ofValue (.object editor) = .error (.invalid .node faults) := by
  intro flat data editor
  have hflat : NodeParts.IsFlat ⟨.int 7, .bool true, none, none, some (.int 3)⟩ flat :=
    ⟨(fun data h => by cases h), rfl, rfl, rfl, rfl, rfl⟩
  have heditor : NodeParts.IsEditor ⟨.int 7, .bool true, none, none, some (.int 3)⟩ editor data :=
    ⟨rfl, rfl, rfl, rfl, rfl, rfl⟩
  have hcopied : Value.depthOfFields flat < maxCopyDepth := by decide
  refine ⟨hflat, heditor, hcopied, ?_⟩
  have hvoid : ∀ v, some (Value.int 3) = some v → v.isVoid = true → v.shape = .object := by
    rintro v ⟨⟩ hvoid
    cases hvoid
  rcases shapes_agree hflat heditor hvoid hcopied with ⟨n, hn, -⟩ | hfaults
  · cases hn
  · exact hfaults

/-- With a label that is too deep to be copied, a node is refused if it is flat, and only then. -/
theorem disagree_of_deep_label {label : Value} (h : maxCopyDepth ≤ label.depth) :
    let flat : Fields := [("id", .text "a"), ("type", .text "data"), ("label", label)]
    let data : Fields := [("type", .text "data"), ("label", label)]
    let editor : Fields := [("id", .text "a"), ("type", .text "custom"), ("data", .object data)]
    NodeParts.IsFlat ⟨.text "a", .text "data", some label, none, none⟩ flat ∧
      NodeParts.IsEditor ⟨.text "a", .text "data", some label, none, none⟩ editor data ∧
      ofValue (.object flat) = .error .tooDeep ∧ ∃ n, ofValue (.object editor) = .ok n := by
  intro flat data editor
  have hflat : NodeParts.IsFlat ⟨.text "a", .text "data", some label, none, none⟩ flat :=
    ⟨(fun data h => by cases h), rfl, rfl, rfl, rfl, rfl⟩
  have heditor : NodeParts.IsEditor ⟨.text "a", .text "data", some label, none, none⟩ editor data :=
    ⟨rfl, rfl, rfl, rfl, rfl, rfl⟩
  have hdeep : label.depth ≤ Value.depthOfFields flat := Fields.depth_le_of_get? hflat.label
  refine ⟨hflat, heditor, if_pos ?_, ⟨"a", .data, labelOf (some label), [], .origin⟩, ?_⟩
  · rw [hflat.copyDepth]
    exact Nat.lt_succ_of_le (Nat.le_trans h hdeep)
  · rw [ofValue_of_copied (heditor.copyDepth ▸ Nat.zero_le _), heditor.entriesOf]
    rfl

/-- A label of 600 levels is too deep to be copied, which is only done in a flat object. -/
theorem shapes_disagree_deep :
    let label := (fun v => Value.list [v])^[600] .null
    let flat : Fields := [("id", .text "a"), ("type", .text "data"), ("label", label)]
    let data : Fields := [("type", .text "data"), ("label", label)]
    let editor : Fields := [("id", .text "a"), ("type", .text "custom"), ("data", .object data)]
    NodeParts.IsFlat ⟨.text "a", .text "data", some label, none, none⟩ flat ∧
      NodeParts.IsEditor ⟨.text "a", .text "data", some label, none, none⟩ editor data ∧
      ofValue (.object flat) = .error .tooDeep ∧ ∃ n, ofValue (.object editor) = .ok n :=
  disagree_of_deep_label (by rw [Value.depth_iterate_list]; decide)

end Node

end PipelineGraph
