import PipelineGraph.Proofs.Graph.Capturing
import PipelineGraph.Proofs.Graph.Documents
import PipelineGraph.Proofs.Json.RoundTrip

/-!
# Loading documents

The document of a captured graph is read again as the graph without its canvas: null stands in the
configs for the numbers that are not finite, positions and animation are gone, and all else is as it
was. There is a document if and only if no entry of a config has too many levels.
-/

namespace PipelineGraph

/-- Whether a value is no integer, or one short enough to be read. -/
def Value.isShort : Value → Bool
  | .int n => n.natAbs < 10 ^ maxIntegerDigits
  | _ => true

/--
Whether a value, apart from what it holds, can be in a file: the keys of an object are distinct and
without surrogates, and an integer is short.
-/
def Value.isPlain (v : Value) : Bool :=
  v.hasDistinctKeys && v.hasCleanKeys && v.isShort

/-- Whether everything in the config of a node can be in a file. -/
def Node.hasPlainConfig (n : Node) : Bool :=
  (Value.object n.config).every Value.isPlain

/-- A node as its document keeps it. -/
def Node.reloaded (n : Node) : Node :=
  { n with config := Value.finiteFields n.config, position := .origin }

/-- An edge as its document keeps it. -/
def Edge.reloaded (e : Edge) : Edge :=
  { e with animated := false }

/-- A graph as its document keeps it. -/
def Snapshot.reloaded (s : Snapshot) : Snapshot where
  nodes := s.nodes.map Node.reloaded
  edges := s.edges.map Edge.reloaded
  distinct := by
    rw [List.map_map]
    exact s.distinct

/-! ## Nodes -/

namespace Node

variable {n : Node}

/-- What keeps a config out of a document keeps it out with null in its place too. -/
theorem documentError?_reloaded (n : Node) : n.reloaded.documentError? = n.documentError? := by
  simp only [documentError?, reloaded, Value.finiteFields_eq_map, List.findSome?_map]
  congr 1
  funext field
  exact Value.documentError?_finiteOnly maxDocumentDepth field.2

/-- A node has the same entry as what its document keeps. -/
theorem documentEntry_reloaded (n : Node) : n.reloaded.documentEntry = n.documentEntry := by
  have hconfig : n.reloaded.documentConfig = n.documentConfig := by
    rw [documentConfig, documentConfig, reloaded, Value.finiteFields_finiteFields]
  rw [documentEntry, documentEntry, hconfig]
  rfl

/-- Fields with distinct keys without surrogates are put together as they are. -/
theorem foldl_put {fields : Fields} (done : Fields) (hkeys : ((done ++ fields).map Prod.fst).Nodup)
    (hclean : ∀ field ∈ fields, field.1.holdsSurrogate = false) :
    fields.foldl (fun done field => done.put field.1.replaceSurrogates field.2) done = done ++ fields := by
  induction fields generalizing done with
  | nil => rw [List.foldl_nil, List.append_nil]
  | cons field rest ih =>
    obtain ⟨hfield, hrest⟩ := List.forall_mem_cons.1 hclean
    have hnew := Fields.not_mem_of_nodup hkeys
    rw [List.append_cons] at hkeys
    rw [List.foldl_cons, Text.replaceSurrogates_eq_self hfield, Fields.put_of_not_mem hnew,
      ih _ hkeys hrest, List.append_assoc, List.singleton_append]

/-- The keys of a plain config are distinct and hold no surrogate. -/
theorem keys_of_hasPlainConfig (h : n.hasPlainConfig = true) : (n.config.map Prod.fst).Nodup ∧
    ∀ field ∈ n.config, field.1.holdsSurrogate = false := by
  have hroot := Value.every_root h
  simp only [Value.isPlain, Value.hasDistinctKeys, Value.hasCleanKeys, Bool.and_eq_true,
    decide_eq_true_eq, List.all_eq_true, Bool.not_eq_true'] at hroot
  exact hroot.1

/-- The document has the config with null for what is not finite. -/
theorem documentConfig_eq (h : n.hasPlainConfig = true) :
    n.documentConfig = Value.finiteFields n.config := by
  obtain ⟨hdistinct, hclean⟩ := keys_of_hasPlainConfig h
  apply foldl_put []
  · rwa [List.nil_append, Value.map_fst_finiteFields]
  · intro field hfield
    rw [Value.finiteFields_eq_map] at hfield
    obtain ⟨old, hold, rfl⟩ := List.mem_map.1 hfield
    exact hclean old hold

/-- A node is in a document if and only if no entry of its config has too many levels. -/
theorem documentError?_eq_none_iff (h : n.hasPlainConfig = true) :
    n.documentError? = none ↔ ∀ field ∈ n.config, field.2.levels ≤ maxDocumentDepth := by
  have hclean : ∀ field ∈ n.config, field.2.every Value.hasCleanKeys = true := by
    refine Value.everyField_iff.1 (Value.every_object.1 (Value.every_mono (fun v hv => ?_) h)).2
    simp only [Value.isPlain, Bool.and_eq_true] at hv
    exact hv.1.2
  rw [documentError?, List.findSome?_eq_none_iff]
  constructor
  · intro hnone field hfield
    exact (Value.documentError?_eq_none_iff _ (hclean field hfield)).1 (hnone field hfield)
  · intro hlevels field hfield
    exact (Value.documentError?_eq_none_iff _ (hclean field hfield)).2 (hlevels field hfield)

/-- What can be in a file is read with null for what is not finite. -/
theorem isReadable_finiteOnly {v : Value} (h : v.isPlain = true) :
    (Value.finiteOnly v).isReadable maxIntegerDigits = true := by
  simp only [Value.isPlain, Bool.and_eq_true] at h
  cases v with
  | int n => exact h.2
  | float x =>
    rw [Value.finiteOnly]
    split
    · next hx => exact hx
    · rfl
  | object fields =>
    have hdistinct : (fields.map Prod.fst).Nodup := of_decide_eq_true h.1.1
    simpa [Value.finiteOnly, Value.isReadable] using hdistinct
  | _ => rfl

/-- The entry of a node is read as it is written. -/
theorem every_documentEntry (h : n.hasPlainConfig = true) :
    n.documentEntry.every (Value.isReadable maxIntegerDigits) = true := by
  have hconfig : (Value.object n.documentConfig).every (Value.isReadable maxIntegerDigits) = true := by
    rw [documentConfig_eq h]
    exact Value.every_finiteOnly (fun _ => isReadable_finiteOnly) h
  have hkeys : [Text.ofString "id", "type", "label", "config"].Nodup := by decide
  refine Value.every_object.2 ⟨decide_eq_true hkeys, ?_⟩
  simpa only [Value.everyField_cons, Value.everyField_nil, and_true] using ⟨rfl, rfl, rfl, hconfig⟩

/-- The entry of a node is nested as deep as its config. -/
theorem depth_documentEntry (h : n.hasPlainConfig = true) :
    n.documentEntry.depth = (Value.object n.config).depth + 1 := by
  rw [documentEntry, documentConfig_eq h]
  simp only [Value.depth, Value.depthOfFields, Value.depthOfFields_finiteFields]
  omega

/-- A node is read from its entry. -/
theorem ofValue_documentEntry (h : n.hasPlainConfig = true)
    (hcopied : (Value.object n.config).depth < maxCopyDepth) :
    ofValue n.documentEntry = .ok n.reloaded := by
  rw [ofValue_eq_ok_iff]
  refine ⟨_, rfl, ?_, ofEntries_eq_ok_iff.2 ⟨rfl, ?_, rfl, rfl, documentConfig_eq h⟩⟩
  · have hdepth := depth_documentEntry h
    change n.documentEntry.depth ≤ maxCopyDepth
    omega
  · change kindOf "type" (some (.text n.kind.name)) = .ok n.kind
    simp [kindOf]

end Node

/-! ## Edges -/

namespace Edge

variable {e : Edge}

/-- The entry of an edge is read as it is written. -/
theorem every_documentEntry (e : Edge) (digits : Nat) :
    e.documentEntry.every (Value.isReadable digits) = true := by
  have hkeys : [Text.ofString "id", "source", "target"].Nodup := by decide
  exact Value.every_object.2 ⟨decide_eq_true hkeys, rfl⟩

/-- An edge with an id that says something is read from its entry. -/
theorem ofValue_documentEntry (h : e.id ≠ []) : ofValue e.documentEntry = .ok e.reloaded := by
  rw [ofValue_eq_ok_iff]
  exact ⟨_, rfl, ofFields_eq_ok_iff.2 ⟨idEntry_of_ne_nil h _ _, rfl, rfl, rfl⟩⟩

end Edge

/-! ## Graphs -/

namespace Snapshot

variable {s : Snapshot}

/-- The entries of a graph in a document. -/
def entries (s : Snapshot) : Value :=
  .object
    [("nodes", .list (s.nodes.map Node.documentEntry)), ("edges", .list (s.edges.map Edge.documentEntry))]

/-- There is a document if and only if nothing keeps a node out, and then it has all entries. -/
theorem document_eq_ok_iff {v : Value} :
    s.document = .ok v ↔ (∀ n ∈ s.nodes, n.documentError? = none) ∧ s.entries = v := by
  rw [document, ← List.findSome?_eq_none_iff]
  cases h : s.nodes.findSome? Node.documentError? with
  | some e => simp
  | none => simp [entries]

/-- A graph has the same document as what its document keeps. -/
theorem document_reloaded (s : Snapshot) : s.reloaded.document = s.document := by
  have herror : s.reloaded.nodes.findSome? Node.documentError? = s.nodes.findSome? Node.documentError? := by
    rw [reloaded, List.findSome?_map]
    congr 1
    funext n
    exact Node.documentError?_reloaded n
  have hnodes : s.reloaded.nodes.map Node.documentEntry = s.nodes.map Node.documentEntry := by
    rw [reloaded, List.map_map]
    exact List.map_congr_left fun n _ => Node.documentEntry_reloaded n
  have hedges : s.reloaded.edges.map Edge.documentEntry = s.edges.map Edge.documentEntry := by
    rw [reloaded, List.map_map]
    rfl
  rw [document, document, herror, hnodes, hedges]

/-- The entries of a graph are read as they are written. -/
theorem read_entries (indent : Nat) (hplain : ∀ n ∈ s.nodes, n.hasPlainConfig = true)
    (hcopied : ∀ n ∈ s.nodes, (Value.object n.config).depth < Node.maxCopyDepth) :
    Json.read (Json.write indent s.entries) = .ok s.entries := by
  apply Json.read_write
  · have hkeys : [Text.ofString "nodes", "edges"].Nodup := by decide
    refine Value.every_object.2 ⟨decide_eq_true hkeys, ?_⟩
    simp only [Value.everyField_cons, Value.everyField_nil, and_true, Value.every_list,
      Value.everyItem_iff, List.forall_mem_map]
    exact ⟨⟨rfl, fun n hn => Node.every_documentEntry (hplain n hn)⟩,
      rfl, fun e _ => Edge.every_documentEntry e _⟩
  · have hnodes : Value.depthOfItems (s.nodes.map Node.documentEntry) ≤ Node.maxCopyDepth := by
      apply Value.depthOfItems_le
      rw [List.forall_mem_map]
      intro n hn
      rw [Node.depth_documentEntry (hplain n hn)]
      exact hcopied n hn
    have hedges : Value.depthOfItems (s.edges.map Edge.documentEntry) ≤ 1 := by
      apply Value.depthOfItems_le
      rw [List.forall_mem_map]
      exact fun e _ => Nat.le_refl 1
    have hmax : Node.maxCopyDepth = 491 := rfl
    simp only [entries, Value.depth, Value.depthOfFields]
    omega

/-- A graph is read from its entries without its canvas. -/
theorem ofValue_entries (hplain : ∀ n ∈ s.nodes, n.hasPlainConfig = true)
    (hcopied : ∀ n ∈ s.nodes, (Value.object n.config).depth < Node.maxCopyDepth)
    (hnamed : ∀ e ∈ s.edges, e.id ≠ []) : ofValue s.entries = .ok s.reloaded := by
  refine ofValue_of_lists rfl rfl (?_ : List.Forall₂ _ (s.nodes.map Node.documentEntry) _)
    (?_ : List.Forall₂ _ (s.edges.map Edge.documentEntry) _)
  · rw [reloaded, List.forall₂_map_left_iff, List.forall₂_map_right_iff, List.forall₂_same]
    exact fun n hn => Node.ofValue_documentEntry (hplain n hn) (hcopied n hn)
  · rw [reloaded, List.forall₂_map_left_iff, List.forall₂_map_right_iff, List.forall₂_same]
    exact fun e he => Edge.ofValue_documentEntry (hnamed e he)

end Snapshot

/--
The document of a captured graph loads back, whatever the indentation. Let everything in the configs
be what a file can hold: objects with distinct keys that are free of surrogates, and integers short
enough to be read. Then no entry of a config has too many levels if and only if the graph has a
document whose text is read as the graph without its canvas, with null for the numbers of configs
that are not finite; and the graph that is read has the same text.
-/
theorem Snapshot.documentText_reloads {nodes edges : Value} {s : Snapshot}
    (h : Snapshot.capture nodes edges = .ok s) (hplain : ∀ n ∈ s.nodes, n.hasPlainConfig = true)
    (indent : Int) :
    (∀ n ∈ s.nodes, ∀ field ∈ n.config, field.2.levels ≤ maxDocumentDepth) ↔
      ∃ text, s.documentText indent = .ok text ∧ Snapshot.ofText text = .ok s.reloaded ∧
        s.reloaded.documentText indent = .ok text := by
  obtain ⟨ns, es, -, -, -, hes⟩ := capture_eq_ok_iff.1 h
  have hnamed := id_ne_nil_of_read hes
  have hlevels : (∀ n ∈ s.nodes, ∀ field ∈ n.config, field.2.levels ≤ maxDocumentDepth) ↔
      ∀ n ∈ s.nodes, n.documentError? = none :=
    forall₂_congr fun n hn => (Node.documentError?_eq_none_iff (hplain n hn)).symm
  constructor
  · intro hbound
    have hcopied := fun n hn => depth_config_of_levels (hbound n hn)
    have hnone := hlevels.1 hbound
    have hdocument : s.document = .ok s.entries := document_eq_ok_iff.2 ⟨hnone, rfl⟩
    refine ⟨Json.write indent.toNat s.entries, ?_, ?_, ?_⟩
    · rw [documentText, hdocument]
      rfl
    · rw [ofText, read_entries _ hplain hcopied]
      simp only [ofValue_entries hplain hcopied hnamed]
    · rw [documentText, document_reloaded, hdocument]
      rfl
  · rintro ⟨text, htext, -⟩
    obtain ⟨v, hdocument, -⟩ := map_eq_ok_iff.1 htext
    exact hlevels.2 (document_eq_ok_iff.1 hdocument).1

/--
A graph of one node, whose config holds a number that is none, and of a drawn edge that leads
nowhere, is written and loaded: the number is null, and the edge is still there.
-/
theorem Snapshot.documentText_reloads_demo :
    let config : Fields := [("x", .float .nan), ("y", .list [.int (-3), .object [], .text "é"])]
    let node := Value.object [("id", .int 1), ("type", .text "data"), ("config", .object config)]
    let edge := Value.object [("source", .int 1), ("target", .text "b"), ("animated", .bool true)]
    ∃ s text, Snapshot.capture (.list [node]) (.list [edge]) = .ok s ∧
      s.documentText 2 = .ok text ∧ Snapshot.ofText text = .ok s.reloaded ∧
      s.reloaded.documentText 2 = .ok text ∧ s.reloaded.edges = [⟨"e1-b", "1", "b", false⟩] ∧
      s.reloaded.nodes.map (·.config) =
        [([("x", .null), ("y", .list [.int (-3), .object [], .text "é"])] : Fields)] := by
  intro config node edge
  let s : Snapshot :=
    { nodes := [⟨"1", .data, "", config, .origin⟩]
      edges := [⟨"e1-b", "1", "b", true⟩]
      distinct := by decide }
  have hcapture : Snapshot.capture (.list [node]) (.list [edge]) = .ok s := rfl
  have hplain : ∀ n ∈ s.nodes, n.hasPlainConfig = true := by decide +kernel
  have hlevels : ∀ n ∈ s.nodes, ∀ field ∈ n.config, field.2.levels ≤ maxDocumentDepth := by
    decide +kernel
  obtain ⟨text, htext, hload, hagain⟩ :=
    (Snapshot.documentText_reloads hcapture hplain 2).1 hlevels
  exact ⟨s, text, hcapture, htext, hload, hagain, rfl, rfl⟩

/-- The graph of one node is captured from the node, if the entry can be copied with it. -/
theorem Snapshot.capture_single {v : Value} (h : v.depth + 2 ≤ Node.maxCopyDepth) :
    Snapshot.capture
      (.list [.object [("id", .text "a"), ("type", .text "data"), ("config", .object [("c", v)])]])
      (.list []) = .ok (single v) := by
  refine capture_eq_ok_iff.2 ⟨_, _, rfl, rfl, .cons ?_ .nil, .nil⟩
  refine Node.ofValue_eq_ok_iff.2 ⟨_, rfl, ?_, rfl⟩
  change Value.depth (.object _) ≤ Node.maxCopyDepth
  simp only [Value.depthOfFields, Value.depth]
  omega

/--
Not every captured graph has a document that loads back: a config entry may have 256 levels, and an
integer may have more digits than are read.
-/
theorem Snapshot.documentText_not_reloaded :
    let graph (v : Value) := Value.list
      [.object [("id", .text "a"), ("type", .text "data"), ("config", .object [("c", v)])]]
    ∀ v ∈ [(fun v => Value.list [v])^[255] .null, Value.int (10 ^ 4300 : Nat)],
      ∃ s, Snapshot.capture (graph v) (.list []) = .ok s ∧
        ¬ ∃ text s', s.documentText 2 = .ok text ∧ Snapshot.ofText text = .ok s' := by
  intro graph v hv
  have hcopied : v.depth + 2 ≤ Node.maxCopyDepth := by
    rcases List.mem_pair.1 hv with rfl | rfl <;> decide +kernel
  refine ⟨single v, capture_single hcopied, ?_⟩
  rintro ⟨text, s', htext, hload⟩
  obtain ⟨entries, hdocument, rfl⟩ := map_eq_ok_iff.1 htext
  obtain ⟨hnone, rfl⟩ := document_eq_ok_iff.1 hdocument
  rcases List.mem_pair.1 hv with rfl | rfl
  · have hdeep : (single ((fun v => Value.list [v])^[255] .null)).nodes.all
        (·.documentError?.isSome) = true := by decide +kernel
    have hnode := hnone _ List.mem_cons_self
    exact absurd hnode (Option.isSome_iff_ne_none.1 (List.all_eq_true.1 hdeep _ List.mem_cons_self))
  · have hfinite : (single (.int (10 ^ 4300 : Nat))).entries.every Value.isFinite = true := by
      decide +kernel
    have hrun : ((Json.State.value []).run .standard
        (Json.tokensOf (single (.int (10 ^ 4300 : Nat))).entries)).isNone = true := by decide +kernel
    obtain ⟨e, he⟩ := Json.read_write_of_run_none 2 hfinite (Option.isNone_iff_eq_none.1 hrun)
    have htext : Json.write (2 : Int).toNat = Json.write 2 := rfl
    rw [ofText, htext, he] at hload
    cases hload

end PipelineGraph
