import PipelineGraph.Proofs.Script.Header

/-!
# No name captures another

All names that a script assigns differ from each other: the variables of the nodes are handed out
first, and each auxiliary variable avoids all names that were handed out before it. Every one of them
is an identifier of ASCII and stands for nothing else in the script. Which auxiliary variables there
are makes no difference to the variables of the nodes.
-/

namespace PipelineGraph

/-! ## Identifiers -/

namespace CodePoint

variable {c : CodePoint}

/-- What is plain is of ASCII. -/
theorem IsPlain.lt (h : c.IsPlain) : c.val < 0x80 := by
  unfold IsPlain at h
  omega

/-- What is plain may continue an identifier. -/
theorem IsPlain.continuesIdentifier (h : c.IsPlain) : Text.continuesIdentifier c = true := by
  have hstart : ∀ r ∈ Text.identifierStarters, r.1 ≤ c.val → c.val ≤ r.2 →
      Text.continuesIdentifier c = true := by
    intro r hr hlow hhigh
    refine Bool.or_eq_true_iff.2 (Or.inl (List.any_eq_true.2 ⟨r, hr, ?_⟩))
    simp [hlow, hhigh]
  rcases h with ⟨hlow, hhigh⟩ | hline | ⟨hlow, hhigh⟩
  · refine Bool.or_eq_true_iff.2 (Or.inr (List.any_eq_true.2 ⟨(0x30, 0x39), by decide +kernel, ?_⟩))
    simp [hlow, hhigh]
  · exact hstart (0x5F, 0x5F) (by decide +kernel) (Nat.le_of_eq hline.symm) (Nat.le_of_eq hline)
  · exact hstart (0x61, 0x7A) (by decide +kernel) hlow hhigh

end CodePoint

namespace Text

/-- An identifier may go on with plain code points. -/
theorem isIdentifier_append {x y : Text} (hx : isIdentifier x = true) (hy : y.IsPlain) :
    isIdentifier (x ++ y) = true := by
  cases x with
  | nil => cases hx
  | cons c rest =>
    have hall : y.all continuesIdentifier = true := List.all_eq_true.2 fun c hc => (hy c hc).continuesIdentifier
    simp only [isIdentifier, List.cons_append, List.all_append, hall, Bool.and_true] at hx ⊢
    exact hx

end Text

namespace Script

open Text (IsPlain)

namespace Names

variable {names : Names} {base : Text}

/-- A name for a plain base is an identifier. -/
theorem isIdentifier_choose (h : base.IsPlain) : Text.isIdentifier (names.choose base) = true := by
  refine choose_induction (P := (Text.isIdentifier · = true)) id ?_ (fun x n hx => ?_) names
  · exact Text.isIdentifier_append (by decide +kernel) h
  · exact Text.isIdentifier_append (Text.isIdentifier_append hx (by decide)) (Text.isPlain_ofNat n)

end Names

/-! ## What blocks assign -/

/-- The names that a block assigns: its auxiliary variable if its role needs one, and the variable of
its node. -/
def BlockContext.assigned (c : BlockContext) : List Text :=
  (if (auxiliaryEnding? c.node.role).isSome then [c.auxiliary] else []) ++ [c.output]

/-- A block assigns its variables and nothing else, each of them once. -/
theorem BlockContext.assigns_fragment (c : BlockContext) (d : Defaults) :
    (c.fragment d).assigns = c.assigned := by
  cases hrole : c.node.role <;>
    simp [fragment, assigned, hrole, auxiliaryEnding?, Fragment.assigns, Statement.assigns, trigger, fileUpload,
      llm, textSplitter, webScraper, runTool, transcription, processing, vectorStore, router, email, slack, action]

/-- A name that a script may assign without taking it from anything else in the script. -/
structure IsOwnName (s : Script) (x : Text) : Prop where
  identifier : Text.isIdentifier x = true
  ascii : ∀ c ∈ x, c.val < 0x80
  not_keyword : x ∉ keywords
  not_reserved : x ∉ reservedNames
  not_helper : x ∉ s.helpers.map Helper.name
  not_imported : x ∉ s.imports.map Import.known

section Blocks

variable {d : Defaults} {g : FlowGraph} {vars : Variables} {names : Names} {emitted : List Text}
  {nodes : List Node} {x : Text}

/-- A name that a block assigns is the variable of a node, or it was not taken before. -/
theorem mem_assigned_blocksFrom
    (hx : x ∈ (blocksFrom d g vars names emitted nodes).1.flatMap (·.context.assigned)) :
    (∃ n ∈ nodes, x = vars.of n.id) ∨ x ∉ names.taken := by
  induction nodes generalizing names emitted with
  | nil => cases hx
  | cons n rest ih =>
    obtain ⟨hfresh, hgrow⟩ := claimAuxiliary_spec names n (vars.of n.id)
    simp only [blocksFrom, List.flatMap_cons, List.mem_append] at hx
    rcases hx with hx | hx
    · rcases List.mem_append.1 hx with hx | hx
      · split at hx
        · next haux =>
          rw [List.mem_singleton.1 hx]
          exact Or.inr (hfresh haux)
        · cases hx
      · exact Or.inl ⟨n, List.mem_cons_self, List.mem_singleton.1 hx⟩
    · rcases ih hx with ⟨m, hm, rfl⟩ | hnew
      · exact Or.inl ⟨m, List.mem_cons_of_mem _ hm, rfl⟩
      · exact Or.inr fun hmem => hnew (hgrow hmem)

/-- If the variables of the nodes are taken and different, the blocks assign different names. -/
theorem nodup_assigned_blocksFrom (htaken : ∀ n ∈ nodes, vars.of n.id ∈ names.taken)
    (hnodup : (nodes.map fun n => vars.of n.id).Nodup) :
    ((blocksFrom d g vars names emitted nodes).1.flatMap (·.context.assigned)).Nodup := by
  induction nodes generalizing names emitted with
  | nil => exact List.nodup_nil
  | cons n rest ih =>
    obtain ⟨hfresh, hgrow⟩ := claimAuxiliary_spec names n (vars.of n.id)
    obtain ⟨hn, hrest⟩ := List.forall_mem_cons.1 htaken
    obtain ⟨hnew, hnodup⟩ := List.nodup_cons.1 hnodup
    simp only [blocksFrom, List.flatMap_cons]
    -- What later blocks assign is neither the variable of this node nor its auxiliary variable.
    have houtput : vars.of n.id ∉ (blocksFrom d g vars (claimAuxiliary names n (vars.of n.id)).2
        (n.id :: emitted) rest).1.flatMap (·.context.assigned) := fun hx => by
      rcases mem_assigned_blocksFrom hx with ⟨m, hm, heq⟩ | hfree
      · exact hnew (List.mem_map.2 ⟨m, hm, heq.symm⟩)
      · exact hfree (hgrow hn)
    have hauxiliary : (auxiliaryEnding? n.role).isSome = true →
        (claimAuxiliary names n (vars.of n.id)).1 ∉ (blocksFrom d g vars
          (claimAuxiliary names n (vars.of n.id)).2 (n.id :: emitted) rest).1.flatMap
            (·.context.assigned) := fun haux hx => by
      rcases mem_assigned_blocksFrom hx with ⟨m, hm, heq⟩ | hfree
      · exact hfresh haux (heq ▸ hrest m hm)
      · obtain ⟨ending, hending⟩ := Option.isSome_iff_exists.1 haux
        simp [claimAuxiliary, hending] at hfree
    refine List.nodup_append'.2 ⟨?_, ih (fun m hm => hgrow (hrest m hm)) hnodup, ?_⟩
    · unfold BlockContext.assigned
      split
      · next haux =>
        have hne : (claimAuxiliary names n (vars.of n.id)).1 ≠ vars.of n.id := fun heq =>
          hfresh haux (heq.symm ▸ hn)
        exact List.nodup_cons.2 ⟨fun h => hne (List.mem_singleton.1 h), List.nodup_singleton _⟩
      · exact List.nodup_singleton _
    · intro x hx
      rcases List.mem_append.1 hx with hx | hx
      · split at hx
        · next haux => exact List.mem_singleton.1 hx ▸ hauxiliary haux
        · cases hx
      · exact List.mem_singleton.1 hx ▸ houtput

/-- A name is an identifier and no keyword. -/
def IsProper (x : Text) : Prop :=
  Text.isIdentifier x = true ∧ x ∉ keywords

/-- A name for a plain base is an identifier and no keyword. -/
theorem isProper_choose (names : Names) {base : Text} (h : base.IsPlain) : IsProper (names.choose base) :=
  ⟨Names.isIdentifier_choose h, names.choose_not_mem_keywords base⟩

/-- The auxiliary variable that goes with a plain variable is an identifier and no keyword. -/
theorem isProper_claimAuxiliary (names : Names) {n : Node} {output : Text} (houtput : output.IsPlain)
    (haux : (auxiliaryEnding? n.role).isSome = true) : IsProper (claimAuxiliary names n output).1 := by
  obtain ⟨ending, hending⟩ := Option.isSome_iff_exists.1 haux
  have hplain : ending.IsPlain := by
    cases hrole : n.role <;> rw [hrole] at hending <;> cases hending <;> decide
  simp only [claimAuxiliary, hending]
  exact isProper_choose names (IsPlain.append (IsPlain.append houtput (by decide)) hplain)

/-- All names that blocks assign are identifiers and no keywords, if the variables of the nodes are. -/
theorem isProper_blocksFrom (hvars : ∀ n ∈ nodes, IsProper (vars.of n.id) ∧ (vars.of n.id).IsPlain) :
    ∀ b ∈ (blocksFrom d g vars names emitted nodes).1, ∀ x ∈ b.context.assigned, IsProper x := by
  induction nodes generalizing names emitted with
  | nil => simp [blocksFrom]
  | cons n rest ih =>
    obtain ⟨⟨hproper, hplain⟩, hrest⟩ := List.forall_mem_cons.1 hvars
    simp only [blocksFrom, List.forall_mem_cons]
    refine ⟨fun x hx => ?_, ih hrest⟩
    rcases List.mem_append.1 hx with hx | hx
    · split at hx
      · next haux => exact List.mem_singleton.1 hx ▸ isProper_claimAuxiliary names hplain haux
      · cases hx
    · exact List.mem_singleton.1 hx ▸ hproper

end Blocks

/-! ## Whole scripts -/

/-- The variables of the nodes of a graph are identifiers and no keywords. -/
theorem isProper_of_claimVariables (g : FlowGraph) :
    ∀ id ∈ g.ids, IsProper ((claimVariables g g.sequence).1.of id) := by
  intro id hid
  exact forall_of_claimVariables (fun names id label position =>
    isProper_choose names (isPlain_variableBase id label position)) g.sequence_nodup
      (fun _ => FlowGraph.mem_sequence.1) (FlowGraph.mem_sequence.2 hid)

/-- Each block assigns the variable of its node. -/
theorem map_output_compile (d : Defaults) (s : Snapshot) :
    (compile d s).1.blocks.map (fun b => (b.context.node.id, b.context.output)) =
      s.flow.sequence.map fun id => (id, (claimVariables s.flow s.flow.sequence).1.of id) := by
  have hids := congrArg (List.map fun id => (id, (claimVariables s.flow s.flow.sequence).1.of id)) (map_id_compile d s)
  rw [List.map_map] at hids
  rw [← hids]
  exact List.map_congr_left fun b hb => Prod.ext rfl (follows_compile d s b hb).output

/-- The blocks of a script assign different names. -/
theorem nodup_assigned_compile (d : Defaults) (s : Snapshot) :
    ((compile d s).1.blocks.flatMap (·.context.assigned)).Nodup := by
  have hnodes := s.flow.filterMap_node?_sequence
  have hnodup := s.flow.sequence_nodup
  rw [blocks_compile]
  apply nodup_assigned_blocksFrom
  · intro n hn
    have hid : n.id ∈ s.flow.sequence := hnodes.1 ▸ List.mem_map_of_mem hn
    exact (of_claimVariables hnodup (fun _ => FlowGraph.mem_sequence.1) hid).2.2
  · have hmap := map_of_claimVariables (g := s.flow) hnodup
    rw [← hnodes.1, List.map_map, hnodes.1] at hmap
    exact hmap ▸ (Names.claimAll_nodup _ _).1

/-- All names that the blocks of a script assign are the script's own. -/
theorem isOwnName_compile (d : Defaults) (s : Snapshot) :
    ∀ b ∈ (compile d s).1.blocks, ∀ x ∈ b.context.assigned, (compile d s).1.IsOwnName x := by
  intro b hb x hx
  have hproper : IsProper x := by
    refine isProper_blocksFrom (fun n hn => ?_) b (blocks_compile d s ▸ hb) x hx
    have hid : n.id ∈ s.flow.ids := List.mem_map_of_mem (s.flow.filterMap_node?_sequence.2.mem_iff.1 hn)
    exact ⟨isProper_of_claimVariables s.flow n.id hid, (isVariable_of_claimVariables s.flow n.id hid).plain⟩
  have hassigned : x ∈ b.fragment.assigns := by
    rw [(follows_compile d s b hb).fragment, BlockContext.assigns_fragment]
    exact hx
  have hvariable : IsVariable x := by
    rw [(follows_compile d s b hb).fragment] at hassigned
    exact (spelled_compile d s b hb).assigns d x hassigned
  refine ⟨hproper.1, fun c hc => (hvariable.plain c hc).lt, hproper.2, hvariable.unreserved, ?_, ?_⟩
  · intro h
    obtain ⟨k, -, rfl⟩ := List.mem_map.1 h
    exact hvariable.unreserved (by cases k <;> decide)
  · intro h
    obtain ⟨i, hi, rfl⟩ := List.mem_map.1 h
    rcases List.mem_append.1 hi with hi | hi
    · obtain ⟨other, hother, hi⟩ := List.mem_flatMap.1 hi
      rw [(follows_compile d s other hother).fragment] at hi
      exact not_isVariableLike_known other.context d _ (List.mem_map_of_mem hi) hvariable.like
    · obtain ⟨k, -, hi⟩ := List.mem_flatMap.1 hi
      exact k.not_isVariableLike_known i hi hvariable.like

end Script

/-! ## Other kinds of nodes -/

/-- The same graph with nodes of other kinds, and so of other roles. -/
def Snapshot.withKinds (s : Snapshot) (kind : Node → NodeKind) : Snapshot where
  nodes := s.nodes.map fun n => { n with kind := kind n }
  edges := s.edges
  distinct := by
    rw [List.map_map]
    exact s.distinct

namespace FlowGraph

variable {g g' : FlowGraph}

/-- Nodes are placed by their ids and edges. -/
theorem place_congr (hids : g'.ids = g.ids) (hedges : g'.edges = g.edges) (rounds : Nat) (p : Placing) :
    g'.place rounds p = g.place rounds p := by
  have hconsumers : ∀ id, g'.consumers id = g.consumers id := fun id => by
    simp only [consumers, targets, outgoing, hedges]
  induction rounds generalizing p with
  | zero => rfl
  | succ rounds ih =>
    simp only [place, hids, hconsumers, ih]

/-- The sequence of the nodes is told by their ids and edges. -/
theorem sequence_congr (hids : g'.ids = g.ids) (hedges : g'.edges = g.edges) : g'.sequence = g.sequence := by
  have hconsumers : g'.consumers = g.consumers := funext fun id => by
    simp only [consumers, targets, outgoing, hedges]
  have hlength : g'.nodes.length = g.nodes.length := by
    simpa [ids] using congrArg List.length hids
  have hplacing : g'.placing = g.placing := by
    simp only [placing, unplaced, hids, hconsumers, hlength, place_congr hids hedges]
  simp only [sequence, order, leftover, hplacing, hids]

end FlowGraph

namespace Script

variable (s : Snapshot) (kind : Node → NodeKind)

/-- Other kinds of nodes change neither ids nor edges. -/
theorem flow_withKinds : (s.withKinds kind).flow.ids = s.flow.ids ∧ (s.withKinds kind).flow.edges = s.flow.edges := by
  have hids : (s.withKinds kind).ids = s.ids := by
    simp only [Snapshot.ids, Snapshot.withKinds, List.map_map]
    rfl
  refine ⟨hids, ?_⟩
  have hconnects : (s.withKinds kind).connects = s.connects := funext fun e => by
    simp only [Snapshot.connects, hids]
  simp only [Snapshot.flow, hconnects]
  rfl

/-- The base of a variable does not depend on the kind of its node. -/
theorem variableBases_withKinds : variableBases (s.withKinds kind).flow = variableBases s.flow := by
  simp only [variableBases, Snapshot.flow, Snapshot.withKinds, List.zipIdx_map, List.map_map]
  rfl

/-- The variables of the nodes do not depend on the nodes' kinds. -/
theorem claimVariables_withKinds :
    claimVariables (s.withKinds kind).flow (s.withKinds kind).flow.sequence =
      claimVariables s.flow s.flow.sequence := by
  obtain ⟨hids, hedges⟩ := flow_withKinds s kind
  rw [FlowGraph.sequence_congr hids hedges, claimVariables, claimVariables, variableBases_withKinds]

/-- A router needs no auxiliary variable. -/
theorem auxiliaryEnding?_of_logic {n : Node} (h : n.kind = .logic) : auxiliaryEnding? n.role = none := by
  have hrole : n.role = .router := by
    simp [Node.role, Role.infer, h, RoleRule.all, RoleRule.applies, Role.ofKind]
  rw [hrole]
  rfl

/-- Logic nodes have no auxiliary variables. -/
theorem assigned_of_logic (d : Defaults) :
    ∀ b ∈ (compile d (s.withKinds fun _ => .logic)).1.blocks, b.context.assigned = [b.context.output] := by
  intro b hb
  have hnode : b.context.node ∈ (s.withKinds fun _ => .logic).flow.sequence.filterMap
      (s.withKinds fun _ => .logic).flow.node? := by
    rw [← map_node_compile d]
    exact List.mem_map_of_mem hb
  have hmem : b.context.node ∈ (s.withKinds fun _ => .logic).nodes :=
    (FlowGraph.filterMap_node?_sequence _).2.mem_iff.1 hnode
  obtain ⟨n, -, hn⟩ := List.mem_map.1 hmem
  have hkind : b.context.node.kind = .logic := by rw [← hn]
  simp [BlockContext.assigned, auxiliaryEnding?_of_logic hkind]

/--
No name of a script captures another, whatever ids and labels the nodes have. There is one block for
each node; it assigns the variable of its node, and before it the auxiliary variable if the role of
the node needs one. All these names differ. Each is an identifier of ASCII and no keyword, not
reserved, no helper of the script and not imported by it. The variables of the nodes are the same
whatever kinds the nodes have, so also where no role needs an auxiliary variable.
-/
theorem compile_captures_nothing (d : Defaults) (s : Snapshot) :
    ((compile d s).1.blocks.map (·.context.node)).Perm s.nodes ∧
      (∀ b ∈ (compile d s).1.blocks, b.fragment.assigns = b.context.assigned) ∧
      ((compile d s).1.blocks.flatMap (·.context.assigned)).Nodup ∧
      (∀ b ∈ (compile d s).1.blocks, ∀ x ∈ b.context.assigned, (compile d s).1.IsOwnName x) ∧
      (∀ kind : Node → NodeKind,
        (compile d (s.withKinds kind)).1.blocks.map (fun b => (b.context.node.id, b.context.output)) =
          (compile d s).1.blocks.map fun b => (b.context.node.id, b.context.output)) ∧
      ∀ b ∈ (compile d (s.withKinds fun _ => .logic)).1.blocks, b.context.assigned = [b.context.output] := by
  refine ⟨?_, fun b hb => ?_, nodup_assigned_compile d s, isOwnName_compile d s, fun kind => ?_, assigned_of_logic s d⟩
  · rw [map_node_compile]
    exact s.flow.filterMap_node?_sequence.2
  · rw [(follows_compile d s b hb).fragment, BlockContext.assigns_fragment]
  · obtain ⟨hids, hedges⟩ := flow_withKinds s kind
    rw [map_output_compile, map_output_compile, claimVariables_withKinds, FlowGraph.sequence_congr hids hedges]

end Script

end PipelineGraph
