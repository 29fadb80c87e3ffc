import PipelineGraph.Graph.Dump
import PipelineGraph.Proofs.Json.Depth
import Mathlib.Data.List.Forall2
import Mathlib.Data.List.Nodup

/-!
# Captured graphs

A value is captured if and only if each of its nodes and edges can be read and no two nodes share
an id; the graph then has what was read, in order. What a capture keeps is already in the form that
capturing gives it, so the dump of a captured graph is captured as the same graph if it can be copied,
which is deeper than it can be serialized.
-/

namespace PipelineGraph

/-- A list is read if and only if each element of it is. -/
theorem mapM_eq_ok_iff {α β ε : Type} {f : α → Except ε β} {xs : List α} {ys : List β} :
    xs.mapM f = .ok ys ↔ List.Forall₂ (fun x y => f x = .ok y) xs ys := by
  induction xs generalizing ys with
  | nil => cases ys <;> simp [pure, Except.pure]
  | cons x rest ih =>
    cases hx : f x with
    | error e => cases ys <;> simp [List.mapM_cons, bind, Except.bind, hx]
    | ok y =>
      cases hrest : rest.mapM f with
      | error e => cases ys <;> simp [List.mapM_cons, bind, Except.bind, hx, hrest, ← ih]
      | ok more =>
        cases ys <;>
          simp [List.mapM_cons, bind, Except.bind, pure, Except.pure, hx, hrest, ← ih]

/-- What stands in the second of two lists that correspond has a partner in the first. -/
theorem exists_of_mem_right {α β : Type} {R : α → β → Prop} {xs : List α} {ys : List β}
    (h : List.Forall₂ R xs ys) {y : β} (hy : y ∈ ys) : ∃ x ∈ xs, R x y := by
  induction h with
  | nil => cases hy
  | cons hxy _ ih =>
    rcases List.mem_cons.1 hy with rfl | hrest
    · exact ⟨_, List.mem_cons_self, hxy⟩
    · obtain ⟨x, hx, hR⟩ := ih hrest
      exact ⟨x, List.mem_cons_of_mem _ hx, hR⟩

/-- A mapped result is there if and only if the result is. -/
theorem map_eq_ok_iff {α β ε : Type} {f : α → β} {x : Except ε α} {b : β} :
    x.map f = .ok b ↔ ∃ a, x = .ok a ∧ f a = b := by
  cases x <;> simp [Except.map]

/-- Two results are there together if and only if each of them is. -/
@[simp] theorem bothOk_eq_ok_iff {α β : Type} {x : Except (List FieldFault) α}
    {y : Except (List FieldFault) β} {a : α} {b : β} :
    bothOk x y = .ok (a, b) ↔ x = .ok a ∧ y = .ok b := by
  cases x <;> cases y <;> simp [bothOk]

/-- A text is required if and only if it is what the entry holds. -/
theorem requireText_eq_ok_iff {key t : Text} {entry : Option Value} :
    requireText key entry = .ok t ↔ entry = some (.text t) := by
  unfold requireText
  split <;> simp_all

/-! ## Nodes -/

namespace Node

variable {n : Node} {v : Value}

/-- The name of a kind names the kind. -/
@[simp] theorem ofName?_name (kind : NodeKind) : NodeKind.ofName? kind.name = some kind := by
  cases kind <;> rfl

/-- Entries make a node if and only if its id, kind and position can be read from them. -/
theorem ofEntries_eq_ok_iff {e : NodeEntries} :
    ofEntries e = .ok n ↔ e.id.map Value.nameNumber = some (.text n.id) ∧
      kindOf e.kindKey e.kind = .ok n.kind ∧ positionOf e.position = .ok n.position ∧
      labelOf e.label = n.label ∧ configOf e.config = n.config := by
  obtain ⟨id, kind, label, config, position⟩ := n
  rw [ofEntries, map_eq_ok_iff]
  constructor
  · rintro ⟨⟨t, k, p⟩, hread, hnode⟩
    simp only [Node.mk.injEq] at hnode
    simp only [bothOk_eq_ok_iff, requireText_eq_ok_iff] at hread
    obtain ⟨rfl, rfl, hlabel, hconfig, rfl⟩ := hnode
    exact ⟨hread.1, hread.2.1, hread.2.2, hlabel, hconfig⟩
  · rintro ⟨hid, hkind, hposition, hlabel, hconfig⟩
    refine ⟨(id, kind, position), ?_, ?_⟩
    · simp only [bothOk_eq_ok_iff, requireText_eq_ok_iff]
      exact ⟨hid, hkind, hposition⟩
    · simp only [hlabel, hconfig]

/-- A value is read as a node if and only if its fields can be copied and its entries make one. -/
theorem ofValue_eq_ok_iff :
    ofValue v = .ok n ↔ ∃ fields, v = .object fields ∧ copyDepth fields ≤ maxCopyDepth ∧
      ofEntries (entriesOf fields) = .ok n := by
  cases v with
  | object fields =>
    by_cases hdeep : maxCopyDepth < copyDepth fields
    · simp [ofValue, hdeep, Nat.not_le_of_lt hdeep]
    · cases hentries : ofEntries (entriesOf fields) <;>
        simp [ofValue, hdeep, Nat.le_of_not_lt hdeep, hentries]
  | _ => simp [ofValue]

/-- The entries of a dumped node make the node. -/
theorem ofEntries_dump {fields : Fields} (h : n.dump = .object fields) :
    ofEntries (entriesOf fields) = .ok n := by
  cases h
  refine ofEntries_eq_ok_iff.2 ⟨rfl, ?_, rfl, rfl, rfl⟩
  change kindOf "type" (some (.text n.kind.name)) = .ok n.kind
  simp [kindOf]

/-- The dump of a node is nested one deeper than its config. -/
theorem depth_dump (n : Node) : n.dump.depth = (Value.object n.config).depth + 1 := by
  have hposition : n.position.dump.depth = 1 := rfl
  rw [dump]
  simp only [Value.depth, Value.depthOfFields, hposition]
  omega

/-- A node is read from its dump if and only if its config can be copied with the node around it. -/
theorem ofValue_dump_iff : ofValue n.dump = .ok n ↔ (Value.object n.config).depth < maxCopyDepth := by
  rw [Nat.lt_iff_add_one_le, ← depth_dump, ofValue_eq_ok_iff]
  constructor
  · rintro ⟨fields, hdump, hcopied, -⟩
    cases hdump
    exact hcopied
  · exact fun hcopied => ⟨_, rfl, hcopied, ofEntries_dump rfl⟩

end Node

/-! ## Edges -/

namespace Edge

variable {e : Edge} {v : Value}

/-- Fields make an edge if and only if its id, its ends and its flag can be read from them. -/
theorem ofFields_eq_ok_iff {fields : Fields} :
    ofFields fields = .ok e ↔
      idEntry ((fields.get? "id").map Value.nameNumber) (some (.text e.source))
          (some (.text e.target)) = some (.text e.id) ∧
        (fields.get? "source").map Value.nameNumber = some (.text e.source) ∧
        (fields.get? "target").map Value.nameNumber = some (.text e.target) ∧
        flagOf "animated" (fields.get? "animated") = .ok e.animated := by
  obtain ⟨id, source, target, animated⟩ := e
  rw [ofFields, map_eq_ok_iff]
  constructor
  · rintro ⟨⟨i, s, t, a⟩, hread, hedge⟩
    simp only [Edge.mk.injEq] at hedge
    simp only [bothOk_eq_ok_iff, requireText_eq_ok_iff] at hread
    obtain ⟨rfl, rfl, rfl, rfl⟩ := hedge
    obtain ⟨hid, hsource, htarget, hflag⟩ := hread
    rw [hsource, htarget] at hid
    exact ⟨hid, hsource, htarget, hflag⟩
  · rintro ⟨hid, hsource, htarget, hflag⟩
    refine ⟨(id, source, target, animated), ?_, rfl⟩
    simp only [bothOk_eq_ok_iff, requireText_eq_ok_iff]
    exact ⟨by rw [hsource, htarget, hid], hsource, htarget, hflag⟩

/-- A value is read as an edge if and only if it lists fields that make one. -/
theorem ofValue_eq_ok_iff :
    ofValue v = .ok e ↔ ∃ fields, v.toFields = .ok fields ∧ ofFields fields = .ok e := by
  cases hfields : v.toFields with
  | error problem => simp [ofValue, hfields, bind, Except.bind]
  | ok fields =>
    cases hedge : ofFields fields <;>
      simp [ofValue, hfields, hedge, bind, Except.bind, pure, Except.pure, throw, throwThe,
        MonadExceptOf.throw]

/-- An id that says something stays. -/
theorem idEntry_of_ne_nil {id : Text} (h : id ≠ []) (source target : Option Value) :
    idEntry (some (.text id)) source target = some (.text id) := by
  simp [idEntry, Value.isVoid, h]

/-- No edge that is read has an empty id. -/
theorem id_ne_nil_of_ofValue (h : ofValue v = .ok e) : e.id ≠ [] := by
  obtain ⟨fields, -, hedge⟩ := ofValue_eq_ok_iff.1 h
  have hid := (ofFields_eq_ok_iff.1 hedge).1
  intro hnil
  rw [hnil] at hid
  unfold idEntry at hid
  split at hid
  · -- An id made of the ends begins with a letter.
    simp only [Option.some.injEq, Value.text.injEq, List.append_eq_nil_iff] at hid
    exact absurd hid.1.1.1 (by decide)
  · next hgiven => simp [hid, Value.isVoid, isGiven] at hgiven

/-- An edge with an id that says something is read from its dump. -/
theorem ofValue_dump (h : e.id ≠ []) : ofValue e.dump = .ok e := by
  rw [ofValue_eq_ok_iff]
  exact ⟨_, rfl, ofFields_eq_ok_iff.2 ⟨idEntry_of_ne_nil h _ _, rfl, rfl, rfl⟩⟩

end Edge

/-! ## Graphs -/

namespace Snapshot

variable {s : Snapshot} {v : Value} {nodes : List Node} {edges : List Edge}

/-- Nodes and edges make the snapshot that has them, if there is one. -/
theorem ofParts_eq_ok_iff : ofParts nodes edges = .ok s ↔ s.nodes = nodes ∧ s.edges = edges := by
  obtain ⟨ns, es, hdistinct⟩ := s
  unfold ofParts
  split
  · next id hrepeated =>
    constructor
    · intro h
      cases h
    · rintro ⟨rfl, rfl⟩
      have hnone := firstRepeated?_eq_none_iff.2 ⟨hdistinct, fun t _ => List.not_mem_nil⟩
      exact absurd (hnone.symm.trans hrepeated) (by simp)
  · simp [eq_comm]

/-- A capture reads the elements of two values as the nodes and edges of a snapshot. -/
theorem capture_eq_ok_iff {x y : Value} :
    capture x y = .ok s ↔ ∃ ns es, x.elements? = some ns ∧ y.elements? = some es ∧
      List.Forall₂ (fun value n => Node.ofValue value = .ok n) ns s.nodes ∧
      List.Forall₂ (fun value e => Edge.ofValue value = .ok e) es s.edges := by
  simp only [← mapM_eq_ok_iff]
  cases hx : x.elements? with
  | none => simp [capture, elementsOf, hx, bind, Except.bind]
  | some ns =>
    cases hns : ns.mapM Node.ofValue with
    | error problem => simp [capture, elementsOf, hx, hns, bind, Except.bind]
    | ok nodes =>
      cases hy : y.elements? with
      | none => simp [capture, elementsOf, hx, hns, hy, bind, Except.bind]
      | some es =>
        cases hes : es.mapM Edge.ofValue with
        | error problem => simp [capture, elementsOf, hx, hns, hy, hes, bind, Except.bind]
        | ok edges =>
          have hparts : capture x y = ofParts nodes edges := by
            simp [capture, elementsOf, hx, hns, hy, hes, bind, Except.bind]
          rw [hparts, ofParts_eq_ok_iff]
          simp [hns, hes, eq_comm]

/-- The elements that a graph's value lists under a key. -/
def listed (key : Text) : Value → List Value
  | .object fields => (part fields key).elements?.getD []
  | _ => []

/--
A value is captured as a snapshot if and only if it has elements to read nodes and edges from, and
these are read as the nodes and edges of the snapshot, one after another.
-/
theorem ofValue_eq_ok_iff :
    ofValue v = .ok s ↔ (∃ fields, v = .object fields ∧ (part fields "nodes").elements?.isSome ∧
        (part fields "edges").elements?.isSome) ∧
      List.Forall₂ (fun value n => Node.ofValue value = .ok n) (listed "nodes" v) s.nodes ∧
      List.Forall₂ (fun value e => Edge.ofValue value = .ok e) (listed "edges" v) s.edges := by
  cases v with
  | object fields =>
    rw [ofValue, capture_eq_ok_iff]
    cases hnodes : (part fields "nodes").elements? with
    | none => simp [hnodes]
    | some ns =>
      cases hedges : (part fields "edges").elements? with
      | none => simp [hedges]
      | some es => simp [listed, hnodes, hedges]
  | _ => simp [ofValue]

/-- The id that a node's value gives, where a number is the text that names it. -/
def givenId? : Value → Option Value
  | .object fields => (Node.entriesOf fields).id.map Value.nameNumber
  | _ => none

/-- A node that is read has the id that its value gives. -/
theorem givenId?_of_ofValue {n : Node} (h : Node.ofValue v = .ok n) :
    givenId? v = some (.text n.id) := by
  obtain ⟨fields, rfl, -, hentries⟩ := Node.ofValue_eq_ok_iff.1 h
  exact (Node.ofEntries_eq_ok_iff.1 hentries).1

/-- Of two nodes that are captured, the values gave different ids. -/
theorem givenId?_ne_of_ofValue (h : ofValue v = .ok s) {i j : Nat} (hij : i ≠ j) {x y : Value}
    (hx : (listed "nodes" v)[i]? = some x) (hy : (listed "nodes" v)[j]? = some y) :
    givenId? x ≠ givenId? y := by
  obtain ⟨-, hnodes, -⟩ := ofValue_eq_ok_iff.1 h
  obtain ⟨hlength, hread⟩ := List.forall₂_iff_get.1 hnodes
  have hid : ∀ (k : Nat) (z : Value), (listed "nodes" v)[k]? = some z →
      ∃ hk : k < s.nodes.length, givenId? z = some (.text (s.nodes[k].id)) := by
    intro k z hz
    obtain ⟨hk, rfl⟩ := List.getElem?_eq_some_iff.1 hz
    exact ⟨hlength ▸ hk, givenId?_of_ofValue (hread k hk (hlength ▸ hk))⟩
  obtain ⟨hi, hgiven⟩ := hid i x hx
  obtain ⟨hj, hgiven'⟩ := hid j y hy
  rw [hgiven, hgiven']
  intro heq
  simp only [Option.some.injEq, Value.text.injEq] at heq
  have hi : i < (s.nodes.map (·.id)).length := by simpa using hi
  have hj : j < (s.nodes.map (·.id)).length := by simpa using hj
  have hsame : (s.nodes.map (·.id))[i] = (s.nodes.map (·.id))[j] := by
    simpa only [List.getElem_map] using heq
  exact hij ((List.Nodup.getElem_inj_iff s.distinct).1 hsame)

/-- A list under a key is what the graph's value lists there. -/
theorem listed_of_get? {fields : Fields} {key : Text} {items : List Value}
    (h : fields.get? key = some (.list items)) : listed key (.object fields) = items := by
  simp only [listed, part, h, Option.getD_some]
  cases items <;> rfl

/-- A dump has elements to read nodes and edges from. -/
theorem elements?_part {fields : Fields} {key : Text} {items : List Value}
    (h : fields.get? key = some (.list items)) : (part fields key).elements?.isSome := by
  simp only [part, h, Option.getD_some]
  cases items <;> rfl

/-- A snapshot is captured from lists of values that are read as its nodes and edges. -/
theorem ofValue_of_lists {fields : Fields} {ns es : List Value}
    (hnodes : fields.get? "nodes" = some (.list ns)) (hedges : fields.get? "edges" = some (.list es))
    (hns : List.Forall₂ (fun value n => Node.ofValue value = .ok n) ns s.nodes)
    (hes : List.Forall₂ (fun value e => Edge.ofValue value = .ok e) es s.edges) :
    ofValue (.object fields) = .ok s := by
  rw [ofValue_eq_ok_iff, listed_of_get? hnodes, listed_of_get? hedges]
  exact ⟨⟨fields, rfl, elements?_part hnodes, elements?_part hedges⟩, hns, hes⟩

/-- A snapshot whose edges have ids that say something is captured from its dump if and only if each
node is read from its dump. -/
theorem ofValue_dump_iff (hedges : ∀ e ∈ s.edges, e.id ≠ []) :
    ofValue s.dump = .ok s ↔ ∀ n ∈ s.nodes, Node.ofValue n.dump = .ok n := by
  have hnodes : (∀ n ∈ s.nodes, Node.ofValue n.dump = .ok n) ↔
      List.Forall₂ (fun value n => Node.ofValue value = .ok n) (s.nodes.map Node.dump) s.nodes := by
    rw [List.forall₂_map_left_iff, List.forall₂_same]
  have hends : List.Forall₂ (fun value e => Edge.ofValue value = .ok e) (s.edges.map Edge.dump) s.edges := by
    rw [List.forall₂_map_left_iff, List.forall₂_same]
    exact fun e he => Edge.ofValue_dump (hedges e he)
  rw [hnodes]
  constructor
  · intro h
    have hread := (ofValue_eq_ok_iff.1 h).2.1
    rwa [dump, listed_of_get? rfl] at hread
  · exact fun hread => ofValue_of_lists rfl rfl hread hends

/-- A snapshot is serialized as its dump if and only if no entry of a config has too many levels. -/
theorem serialize_eq_ok_iff {d : Value} :
    s.serialize = .ok d ↔
      (∀ n ∈ s.nodes, ∀ field ∈ n.config, field.2.levels ≤ maxDocumentDepth) ∧ s.dump = d := by
  have hall : s.nodes.all Node.canSerialize = true ↔
      ∀ n ∈ s.nodes, ∀ field ∈ n.config, field.2.levels ≤ maxDocumentDepth := by
    simp [Node.canSerialize]
  rw [serialize, ← hall]
  by_cases h : s.nodes.all Node.canSerialize = true <;> simp [h]

/-- What is serialized can be copied with the node around it. -/
theorem depth_config_of_levels {n : Node} (h : ∀ field ∈ n.config, field.2.levels ≤ maxDocumentDepth) :
    (Value.object n.config).depth < Node.maxCopyDepth := by
  have hdepth : Value.depthOfFields n.config ≤ maxDocumentDepth :=
    Value.depthOfFields_le fun field hfield => Nat.le_trans (Value.depth_le_levels _) (h field hfield)
  exact Nat.lt_of_le_of_lt (Nat.add_le_add_right hdepth 1) (by decide)

/-- The edges that are read have ids that say something. -/
theorem id_ne_nil_of_read {es : List Value}
    (hedges : List.Forall₂ (fun value e => Edge.ofValue value = .ok e) es s.edges) :
    ∀ e ∈ s.edges, e.id ≠ [] := by
  intro e he
  obtain ⟨value, -, hvalue⟩ := exists_of_mem_right hedges he
  exact Edge.id_ne_nil_of_ofValue hvalue

end Snapshot

/--
Capturing is a normalisation. A captured graph has a node for each node of the value and an edge
for each edge, in order; its nodes have distinct ids, its edges ids that are not empty. The entries
of each node in its dump make that node, and each edge is read from its dump. A node is read from its
dump if and only if its config can be copied with the node around it, and so the graph is captured
again from its dump if and only if all configs can; the graph can be serialized and captured from what
is written if and only if no entry of a config has too many levels. A value of which two nodes give
one id, numbers counting as the texts that name them, is refused.
-/
theorem Snapshot.capture_normalizes (v : Value) :
    (∀ s, Snapshot.ofValue v = .ok s →
      List.Forall₂ (fun value n => Node.ofValue value = .ok n) (listed "nodes" v) s.nodes ∧
      List.Forall₂ (fun value e => Edge.ofValue value = .ok e) (listed "edges" v) s.edges ∧
      s.ids.Nodup ∧ (∀ e ∈ s.edges, e.id ≠ []) ∧
      (∀ n ∈ s.nodes, ∀ fields, n.dump = .object fields → Node.ofEntries (Node.entriesOf fields) = .ok n) ∧
      (∀ e ∈ s.edges, Edge.ofValue e.dump = .ok e) ∧
      (Snapshot.ofValue s.dump = .ok s ↔
        ∀ n ∈ s.nodes, (Value.object n.config).depth < Node.maxCopyDepth) ∧
      ((∃ d, s.serialize = .ok d ∧ d = s.dump ∧ Snapshot.ofValue d = .ok s) ↔
        ∀ n ∈ s.nodes, ∀ field ∈ n.config, field.2.levels ≤ maxDocumentDepth)) ∧
    ∀ (i j : Nat) (x y : Value), i ≠ j → (listed "nodes" v)[i]? = some x →
      (listed "nodes" v)[j]? = some y → givenId? x = givenId? y → ∃ e, Snapshot.ofValue v = .error e := by
  constructor
  · intro s h
    obtain ⟨-, hnodes, hedges⟩ := ofValue_eq_ok_iff.1 h
    have hnamed := id_ne_nil_of_read hedges
    have hagain : Snapshot.ofValue s.dump = .ok s ↔
        ∀ n ∈ s.nodes, (Value.object n.config).depth < Node.maxCopyDepth := by
      simp only [ofValue_dump_iff hnamed, Node.ofValue_dump_iff]
    refine ⟨hnodes, hedges, s.distinct, hnamed, fun n _ fields hdump => Node.ofEntries_dump hdump,
      fun e he => Edge.ofValue_dump (hnamed e he), hagain, ?_⟩
    constructor
    · rintro ⟨d, hd, -⟩
      exact (serialize_eq_ok_iff.1 hd).1
    · intro hlevels
      exact ⟨s.dump, serialize_eq_ok_iff.2 ⟨hlevels, rfl⟩, rfl,
        hagain.2 fun n hn => depth_config_of_levels (hlevels n hn)⟩
  · intro i j x y hij hx hy hsame
    cases h : Snapshot.ofValue v with
    | error e => exact ⟨e, rfl⟩
    | ok s => exact absurd hsame (givenId?_ne_of_ofValue h hij hx hy)

/--
A graph of a flat node and an editor node, whose edge has no id, is captured, serialized and captured
again; with the id `"1"` beside the id `1` it is refused.
-/
theorem Snapshot.capture_normalizes_mixed :
    let edge := Value.object [("source", .int 1), ("target", .text "b"), ("animated", .text "yes")]
    let flat := Value.object [("id", .int 1), ("kind", .text "data"), ("label", .bool true)]
    let config := Value.object [("k", .list [.float .nan])]
    let editor (id : Text) := Value.object
      [("id", .text id), ("data", .object [("type", .text "logic"), ("config", config)])]
    let graph (id : Text) := Value.object [("nodes", .list [flat, editor id]), ("edges", .list [edge])]
    (∃ s, Snapshot.ofValue (graph "b") = .ok s ∧ s.edges.map (·.id) = [Text.ofString "e1-b"] ∧
      ∃ d, s.serialize = .ok d ∧ d = s.dump ∧ Snapshot.ofValue d = .ok s) ∧
      ∃ e, Snapshot.ofValue (graph "1") = .error e := by
  intro edge flat config editor graph
  constructor
  · let s : Snapshot :=
      { nodes := [⟨"1", .data, "True", [], .origin⟩,
          ⟨"b", .logic, "", [("k", .list [.float .nan])], .origin⟩]
        edges := [⟨"e1-b", "1", "b", true⟩]
        distinct := by decide }
    have h : Snapshot.ofValue (graph "b") = .ok s := rfl
    have hlevels : ∀ n ∈ s.nodes, ∀ field ∈ n.config, field.2.levels ≤ maxDocumentDepth := by decide
    exact ⟨s, h, rfl, ((Snapshot.capture_normalizes (graph "b")).1 s h).2.2.2.2.2.2.2.2 hlevels⟩
  · exact (Snapshot.capture_normalizes (graph "1")).2 0 1 flat (editor "1") (by decide) rfl rfl rfl

/-- A graph of one node with one entry in its config. -/
def Snapshot.single (v : Value) : Snapshot where
  nodes := [⟨"a", .data, "", [("c", v)], .origin⟩]
  edges := []
  distinct := List.nodup_singleton _

/-- The graph of one node is captured from an editor's node, if the config can be copied. -/
theorem Snapshot.ofValue_single {v : Value} (h : v.depth + 1 ≤ Node.maxCopyDepth) :
    Snapshot.ofValue (.object [("nodes", .list [.object [("id", .text "a"),
      ("data", .object [("type", .text "data"), ("config", .object [("c", v)])])]])]) = .ok (single v) := by
  refine ofValue_eq_ok_iff.2 ⟨⟨_, rfl, rfl, rfl⟩, .cons ?_ .nil, .nil⟩
  refine Node.ofValue_eq_ok_iff.2 ⟨_, rfl, ?_, rfl⟩
  change Value.depth (.object [(_, v)]) ≤ Node.maxCopyDepth
  simpa only [Value.depth, Value.depthOfFields, Nat.max_zero] using h

/--
Not every captured graph is captured again from its dump: with an entry of 491 levels in the config of
an editor's node the config can be copied, but not with a flat node around it, and with one of 256
levels the graph cannot be serialized.
-/
theorem Snapshot.dump_not_captured :
    let graph (v : Value) := Value.object [("nodes", .list [.object [("id", .text "a"),
      ("data", .object [("type", .text "data"), ("config", .object [("c", v)])])]])]
    (∃ s, Snapshot.ofValue (graph ((fun v => .list [v])^[490] .null)) = .ok s ∧
      Snapshot.ofValue s.dump ≠ .ok s) ∧
    ∃ s, Snapshot.ofValue (graph ((fun v => .list [v])^[255] .null)) = .ok s ∧
      s.serialize = .error .tooDeep := by
  intro graph
  constructor
  · refine ⟨single _, ofValue_single ?_, ?_⟩
    · rw [Value.depth_iterate_list]
      decide
    · rw [ne_eq, ofValue_dump_iff fun e he => (List.not_mem_nil he).elim]
      intro hread
      have hcopied := Node.ofValue_dump_iff.1 (hread _ List.mem_cons_self)
      simp only [Value.depth, Value.depthOfFields, Value.depth_iterate_list] at hcopied
      exact absurd hcopied (by decide)
  · refine ⟨single _, ofValue_single ?_, ?_⟩
    · rw [Value.depth_iterate_list]
      decide
    · refine if_neg fun hall => ?_
      simp only [single, List.all_cons, Node.canSerialize, Value.levels_iterate_list] at hall
      exact absurd hall (by decide)

end PipelineGraph
