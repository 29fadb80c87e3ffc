import PipelineGraph.Proofs.Graph.TopologicalOrder
import PipelineGraph.Proofs.Script.Variables

/-!
# The flow of data in a script

The blocks of a script stand in the sequence of the nodes, and a block reads the variables of those
producers of its node that stand before it. Producers that do not are lost and reported. A node of
the order loses none, so only nodes on a cycle or behind one can.
-/

namespace PipelineGraph

namespace FlowGraph

variable {g : FlowGraph} {id : Text}

/-- The nodes that stand before a node in the sequence. -/
def before (g : FlowGraph) (id : Text) : List Text :=
  g.sequence.takeWhile (· ≠ id)

/-- The producers of a node that stand before it. -/
def kept (g : FlowGraph) (id : Text) : List Text :=
  (g.producers id).filter (· ∈ g.before id)

/-- The producers of a node that do not stand before it. -/
def lost (g : FlowGraph) (id : Text) : List Text :=
  (g.producers id).filter (· ∉ g.before id)

/-- What stands in front of a place of the sequence stands before the node of that place. -/
theorem before_eq {earlier rest : List Text} (h : g.sequence = earlier ++ id :: rest)
    (hid : id ∉ earlier) : g.before id = earlier := by
  have hall : ∀ x ∈ earlier, decide (x ≠ id) = true := fun x hx =>
    decide_eq_true fun heq => hid (heq ▸ hx)
  rw [before, h, List.takeWhile_append_of_pos hall]
  simp

/-- The sequence holds every node once. -/
theorem sequence_nodup (g : FlowGraph) : g.sequence.Nodup :=
  g.sequence_perm.nodup_iff.2 g.nodup_ids

/-- The sequence holds the nodes of the graph and nothing else. -/
theorem mem_sequence : id ∈ g.sequence ↔ id ∈ g.ids :=
  g.sequence_perm.mem_iff

/-- A node of the order loses no producer. -/
theorem lost_of_mem_order (hid : id ∈ g.order) : g.lost id = [] := by
  obtain ⟨a, b, hab⟩ := List.append_of_mem hid
  have hgreedy := g.order_isGreedy
  rw [hab] at hgreedy
  have hbefore : g.before id = a :=
    before_eq (by simp [sequence, hab] : g.sequence = a ++ id :: (b ++ g.leftover))
      (hgreedy a id b rfl).1.2.1
  simp only [lost, hbefore, List.filter_eq_nil_iff, decide_eq_true_eq, not_not, mem_producers]
  exact fun u hu => hgreedy.feeds_before hu

/-- A node that loses a producer could not be ordered. -/
theorem mem_leftover_of_lost (hid : id ∈ g.ids) (h : g.lost id ≠ []) : id ∈ g.leftover := by
  rcases List.mem_append.1 (mem_sequence.2 hid) with horder | hleftover
  · exact absurd (lost_of_mem_order horder) h
  · exact hleftover

/-- Every node of the sequence is found under its id. -/
theorem filterMap_node?_sequence (g : FlowGraph) :
    (g.sequence.filterMap g.node?).map (·.id) = g.sequence ∧
      (g.sequence.filterMap g.node?).Perm g.nodes := by
  have hfind : ∀ n ∈ g.nodes, g.node? n.id = some n := by
    intro n hn
    obtain ⟨m, hm⟩ : ∃ m, g.node? n.id = some m :=
      Option.isSome_iff_exists.1 (List.find?_isSome.2 ⟨n, hn, decide_eq_true rfl⟩)
    have hid : m.id = n.id := by simpa using List.find?_some hm
    rw [hm, List.inj_on_of_nodup_map g.distinct (List.mem_of_find?_eq_some hm) hn hid]
  constructor
  · have hall : ∀ id ∈ g.sequence, ((g.node? id).map (·.id)) = some id := by
      intro id hid
      obtain ⟨n, hn, rfl⟩ := List.mem_map.1 (mem_sequence.1 hid)
      simp [hfind n hn]
    rw [List.map_filterMap, List.filterMap_congr hall]
    exact List.filterMap_some
  · refine (g.sequence_perm.filterMap g.node?).trans (List.Perm.of_eq ?_)
    rw [ids, List.filterMap_map]
    exact (List.filterMap_congr fun n hn => hfind n hn).trans List.filterMap_some

end FlowGraph

namespace Script

/-- What a block is in a script that follows the flow of a graph. -/
structure Block.Follows (d : Defaults) (g : FlowGraph) (var : Text → Text) (b : Block) :
    Prop where
  /-- The block assigns the variable of its node. -/
  output : b.context.output = var b.context.node.id
  /-- The statements are those of the node's role. -/
  fragment : b.fragment = b.context.fragment d
  /-- Without a producer before it, a block takes the inputs of the script. -/
  input_none : g.kept b.context.node.id = [] → b.context.input = .name "inputs"
  /-- With one producer before it, a block takes that producer's variable. -/
  input_one : ∀ p, g.kept b.context.node.id = [p] → b.context.input = .name (var p)
  /-- With several producers before it, a block takes the list of their variables. -/
  input_several : 2 ≤ (g.kept b.context.node.id).length →
    b.context.input = .list ((g.kept b.context.node.id).map fun p => .name (var p))
  /-- Of all nodes' variables, the block assigns that of its own node. -/
  assigns : ∀ id ∈ g.ids, var id ∈ b.fragment.assigns ↔ id = b.context.node.id
  /-- Of all nodes' variables, the block reads only some that are assigned before it. -/
  reads : ∀ id ∈ g.ids, var id ∈ b.fragment.reads → id ∈ g.before b.context.node.id

/-- The nodes that a context takes its input from decide what the input is. -/
theorem BlockContext.input_of_sources {c : BlockContext} {var : Text → Text}
    {ids : List Text} (h : c.sources = ids.map var) :
    (ids = [] → c.input = .name "inputs") ∧ (∀ p, ids = [p] → c.input = .name (var p)) ∧
      (2 ≤ ids.length → c.input = .list (ids.map fun p => .name (var p))) := by
  rw [input, h]
  cases ids with
  | nil => simp [Sources.expr]
  | cons p rest =>
    cases rest with
    | nil => simp [Sources.expr]
    | cons q rest => simp [Sources.expr, Function.comp_def]

section Blocks

variable {d : Defaults} {g : FlowGraph} {vars : Variables} {names : Names}

/-- An auxiliary variable is none of the names taken before, which stay taken. -/
theorem claimAuxiliary_spec (names : Names) (n : Node) (output : Text) :
    ((auxiliaryEnding? n.role).isSome = true → (claimAuxiliary names n output).1 ∉ names.taken) ∧
      names.taken ⊆ (claimAuxiliary names n output).2.taken := by
  unfold claimAuxiliary
  split
  · exact ⟨fun _ => names.claim_not_mem_taken _, List.subset_cons_self _ _⟩
  · next h => exact ⟨fun hsome => by simp [h] at hsome, List.Subset.refl _⟩

/-- There is one block for each node, in the order of the nodes. -/
theorem map_node_blocksFrom (emitted : List Text) (nodes : List Node) :
    (blocksFrom d g vars names emitted nodes).1.map (·.context.node) = nodes := by
  induction nodes generalizing names emitted with
  | nil => rfl
  | cons n rest ih => simp [blocksFrom, ih]

/-- The block of a node takes the variables of its producers among the nodes before it. -/
theorem blocksFrom_spec (emitted done : List Text) {nodes : List Node}
    (hsequence : g.sequence = done ++ nodes.map (·.id)) (hemitted : ∀ x, x ∈ emitted ↔ x ∈ done) :
    ∀ b ∈ (blocksFrom d g vars names emitted nodes).1,
      b.context.output = vars.of b.context.node.id ∧ b.fragment = b.context.fragment d ∧
        b.context.sources = (g.kept b.context.node.id).map vars.of ∧
        ((auxiliaryEnding? b.context.node.role).isSome = true →
          b.context.auxiliary ∉ names.taken) := by
  induction nodes generalizing names emitted done with
  | nil => simp [blocksFrom]
  | cons n rest ih =>
    have hnodup := g.sequence_nodup
    rw [hsequence, List.map_cons] at hnodup
    have hbefore : g.before n.id = done :=
      FlowGraph.before_eq hsequence fun h => (List.nodup_append.1 hnodup).2.2 _ h _ (by simp) rfl
    obtain ⟨hauxiliary, hgrow⟩ := claimAuxiliary_spec names n (vars.of n.id)
    simp only [blocksFrom, List.forall_mem_cons]
    refine ⟨⟨trivial, trivial, ?_, hauxiliary⟩, fun b hb => ?_⟩
    · simp only [FlowGraph.kept, hbefore, hemitted]
    · obtain ⟨houtput, hfragment, hsources, hfresh⟩ := ih (n.id :: emitted) (done ++ [n.id])
        (by simp [hsequence]) (by simp [hemitted, or_comm]) b hb
      exact ⟨houtput, hfragment, hsources, fun h hmem => hfresh h (hgrow hmem)⟩

/-- The warnings on the way are those about lost producers. -/
theorem warnings_blocksFrom (emitted done : List Text) {nodes : List Node}
    (hsequence : g.sequence = done ++ nodes.map (·.id)) (hemitted : ∀ x, x ∈ emitted ↔ x ∈ done) :
    (blocksFrom d g vars names emitted nodes).2.filter (·.level = .warning) =
      (nodes.map (·.id)).flatMap fun id => droppedReport id (g.lost id) := by
  induction nodes generalizing names emitted done with
  | nil => rfl
  | cons n rest ih =>
    have hnodup := g.sequence_nodup
    rw [hsequence, List.map_cons] at hnodup
    have hbefore : g.before n.id = done :=
      FlowGraph.before_eq hsequence fun h => (List.nodup_append.1 hnodup).2.2 _ h _ (by simp) rfl
    have hlost : (g.producers n.id).filter (· ∉ emitted) = g.lost n.id := by
      simp only [FlowGraph.lost, hbefore, hemitted]
    have hdropped : ∀ lost : List Text, (droppedReport n.id lost).filter (·.level = .warning) =
        droppedReport n.id lost := by
      intro lost
      unfold droppedReport
      split <;> rfl
    have hsettings : (n.settingsNotes (n.settings d)).filter (·.level = .warning) = [] := by
      simp only [List.filter_eq_nil_iff, Node.settingsNotes, List.mem_filterMap]
      rintro r ⟨⟨key, used⟩, -, hr⟩
      split at hr
      · split at hr
        · cases hr
        · cases hr
          simp [Node.unusedNote]
      · cases hr
    simp only [blocksFrom, List.filter_append, hlost, hdropped, hsettings, List.append_nil,
      List.map_cons, List.flatMap_cons, List.append_cancel_left_eq]
    exact ih (n.id :: emitted) (done ++ [n.id]) (by simp [hsequence]) (by simp [hemitted, or_comm])

end Blocks

/-! ## Whole scripts -/

variable (d : Defaults) (s : Snapshot)

/-- The blocks of a script are those of the nodes in the sequence of its graph. -/
theorem blocks_compile :
    (compile d s).1.blocks = (blocksFrom d s.flow (claimVariables s.flow s.flow.sequence).1
      (claimVariables s.flow s.flow.sequence).2 [] (s.flow.sequence.filterMap s.flow.node?)).1 :=
  rfl

/-- The nodes of the blocks are those of the sequence. -/
theorem map_node_compile :
    (compile d s).1.blocks.map (·.context.node) = s.flow.sequence.filterMap s.flow.node? := by
  rw [blocks_compile, map_node_blocksFrom]

/-- The ids of the blocks' nodes make up the sequence. -/
theorem map_id_compile : (compile d s).1.blocks.map (·.context.node.id) = s.flow.sequence := by
  have h := congrArg (List.map (·.id)) (map_node_compile d s)
  rwa [s.flow.filterMap_node?_sequence.1, List.map_map] at h

/-- Every block of a script follows the flow of the graph. -/
theorem follows_compile :
    ∀ b ∈ (compile d s).1.blocks,
      b.Follows d s.flow (claimVariables s.flow s.flow.sequence).1.of := by
  intro b hb
  have hnodes := s.flow.filterMap_node?_sequence
  have hnode : b.context.node.id ∈ s.flow.sequence := by
    rw [← map_id_compile d s]
    exact List.mem_map_of_mem hb
  rw [blocks_compile] at hb
  obtain ⟨houtput, hfragment, hsources, hfresh⟩ :=
    blocksFrom_spec [] [] (by rw [hnodes.1, List.nil_append]) (fun _ => Iff.rfl) b hb
  obtain ⟨hnone, hone, hseveral⟩ := BlockContext.input_of_sources hsources
  have hnodup := s.flow.sequence_nodup
  have hvariable : ∀ id ∈ s.flow.sequence,
      (claimVariables s.flow s.flow.sequence).1.of id ∉ reservedNames ∧
        ((claimVariables s.flow s.flow.sequence).1.of id).IsVariableLike ∧
        (claimVariables s.flow s.flow.sequence).1.of id ∈
          (claimVariables s.flow s.flow.sequence).2.taken := fun id hid =>
    of_claimVariables hnodup (fun _ => FlowGraph.mem_sequence.1) hid
  refine ⟨houtput, hfragment, hnone, hone, hseveral, fun id hid => ⟨fun h => ?_, ?_⟩, fun id hid h => ?_⟩
  · have hid := FlowGraph.mem_sequence.2 hid
    rw [hfragment] at h
    rcases BlockContext.eq_of_mem_assigns d h with h | ⟨h, haux⟩
    · exact claimVariables_injOn hnodup hid hnode (h.trans houtput)
    · exact absurd (h ▸ (hvariable id hid).2.2) (hfresh haux)
  · rintro rfl
    rw [hfragment, ← houtput]
    exact BlockContext.output_mem_assigns _ d
  · have hid := FlowGraph.mem_sequence.2 hid
    obtain ⟨hreserved, hlike, htaken⟩ := hvariable id hid
    rw [hfragment] at h
    rcases BlockContext.fragment_readsOnly b.context d _ h with h | h
    · rw [BlockContext.mayRead, List.mem_append, List.mem_append] at h
      rcases h with (h | h) | h
      · rw [hsources] at h
        obtain ⟨u, hu, heq⟩ := List.mem_map.1 h
        have hbefore : u ∈ s.flow.before b.context.node.id :=
          of_decide_eq_true (List.mem_filter.1 hu).2
        have hsequence : u ∈ s.flow.sequence := (List.takeWhile_prefix _).subset hbefore
        rwa [← claimVariables_injOn hnodup hsequence hid heq]
      · split at h
        · next haux =>
          rw [List.mem_singleton] at h
          exact absurd (h ▸ htaken) (hfresh haux)
        · cases h
      · exact absurd h hreserved
    · exact absurd hlike (not_isVariableLike_known b.context d _ h)

/-- The warnings about a graph are those about dangling edges, about a cycle and about lost producers. -/
theorem warnings_compile :
    (compile d s).2.filter (·.level = .warning) = s.danglingReports ++ s.flow.leftoverReport ++
      s.flow.sequence.flatMap fun id => droppedReport id (s.flow.lost id) := by
  have hnodes := s.flow.filterMap_node?_sequence
  have hdangling : s.danglingReports.filter (·.level = .warning) = s.danglingReports := by
    refine List.filter_eq_self.2 fun r hr => ?_
    obtain ⟨e, -, hr⟩ := List.mem_flatMap.1 hr
    simp only [Snapshot.danglingEnd, List.mem_append] at hr
    rcases hr with hr | hr <;> split at hr <;> simp_all
  have hleftover : s.flow.leftoverReport.filter (·.level = .warning) = s.flow.leftoverReport := by
    by_cases hnil : s.flow.leftover = [] <;> simp [FlowGraph.leftoverReport, hnil]
  have hnotes : (blocksFrom d s.flow (claimVariables s.flow s.flow.sequence).1
      (claimVariables s.flow s.flow.sequence).2 [] (s.flow.sequence.filterMap s.flow.node?)).2.filter
        (·.level = .warning) = s.flow.sequence.flatMap fun id => droppedReport id (s.flow.lost id) := by
    rw [warnings_blocksFrom [] [] (by rw [hnodes.1, List.nil_append]) fun _ => Iff.rfl, hnodes.1]
  simp only [compile, List.filter_append, hdangling, hleftover, hnotes]
  simp

end Script

/--
The flow of data in a script is that of the graph, whatever the edges are. There is one block for
each node, first those of the order and then the others. Each node has a variable of its own; its
block takes the variables of the producers before it, assigns the node's variable and reads no
variable that is not assigned before. A node of the order loses no producer. The warnings name,
besides dangling edges and the nodes that could not be ordered, for each node that loses producers
exactly these; if all nodes could be ordered there is none of either kind.
-/
theorem Script.compile_follows_flow (d : Defaults) (s : Snapshot) :
    (Script.compile d s).1.blocks.map (·.context.node.id) = s.flow.order ++ s.flow.leftover ∧
      ((Script.compile d s).1.blocks.map (·.context.node)).Perm s.nodes ∧
      (∃ var : Text → Text, (∀ u ∈ s.ids, ∀ v ∈ s.ids, var u = var v → u = v) ∧
        ∀ b ∈ (Script.compile d s).1.blocks, b.Follows d s.flow var) ∧
      (∀ id ∈ s.ids, s.flow.lost id ≠ [] → id ∈ s.flow.leftover) ∧
      (Script.compile d s).2.filter (·.level = .warning) =
        s.danglingReports ++ s.flow.leftoverReport ++
          s.flow.sequence.flatMap (fun id => droppedReport id (s.flow.lost id)) ∧
      (s.flow.leftover = [] →
        (∀ id ∈ s.ids, s.flow.lost id = []) ∧
          (Script.compile d s).2.filter (·.level = .warning) = s.danglingReports) := by
  have hlost : s.flow.leftover = [] → ∀ id ∈ s.ids, s.flow.lost id = [] := by
    intro hnil id hid
    by_contra h
    exact List.not_mem_nil (hnil ▸ FlowGraph.mem_leftover_of_lost hid h)
  refine ⟨map_id_compile d s, ?_, ⟨_, ?_, follows_compile d s⟩, fun id hid => FlowGraph.mem_leftover_of_lost hid,
    warnings_compile d s, fun hnil => ⟨hlost hnil, ?_⟩⟩
  · rw [map_node_compile]
    exact s.flow.filterMap_node?_sequence.2
  · intro u hu v hv h
    exact claimVariables_injOn s.flow.sequence_nodup (FlowGraph.mem_sequence.2 hu)
      (FlowGraph.mem_sequence.2 hv) h
  · rw [warnings_compile, FlowGraph.leftoverReport, hnil]
    have hnone : (s.flow.sequence.flatMap fun id => droppedReport id (s.flow.lost id)) = [] := by
      refine List.flatMap_eq_nil_iff.2 fun id hid => ?_
      simp [droppedReport, hlost hnil id (FlowGraph.mem_sequence.1 hid)]
    simp [hnone]

end PipelineGraph
