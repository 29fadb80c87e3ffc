import PipelineGraph.Proofs.Graph.Downstream
import PipelineGraph.Proofs.Script.Confinement

/-!
# What a script returns

A script returns the variables of the nodes that no other node consumes, under the ids of these
nodes. Without a cycle through several nodes every result is reached by the nodes above it, so a
graph with nodes has a result; nothing is returned only if every node has a consumer.
-/

namespace PipelineGraph

namespace Snapshot

variable {s : Snapshot} {u v id : Text}

/-- An edge leads from the node to another node. -/
def HasConsumer (s : Snapshot) (id : Text) : Prop :=
  ∃ e ∈ s.edges, e.source = id ∧ e.target ∈ s.ids ∧ e.target ≠ id

instance (s : Snapshot) (id : Text) : Decidable (s.HasConsumer id) :=
  inferInstanceAs (Decidable (∃ e ∈ s.edges, _))

/-- Edges with an end that is no node feed nothing. -/
theorem flow_feeds_iff : s.flow.Feeds u v ↔
    u ≠ v ∧ ∃ e ∈ s.edges, e.source = u ∧ e.target = v ∧ u ∈ s.ids ∧ v ∈ s.ids := by
  simp only [FlowGraph.Feeds, flow, List.mem_filter, connects, decide_eq_true_eq]
  refine and_congr_right fun _ => exists_congr fun e => ?_
  constructor
  · rintro ⟨⟨he, hsource, htarget⟩, rfl, rfl⟩
    exact ⟨he, rfl, rfl, hsource, htarget⟩
  · rintro ⟨he, rfl, rfl, hsource, htarget⟩
    exact ⟨⟨he, hsource, htarget⟩, rfl, rfl⟩

/-- A node has a consumer if and only if it feeds a node. -/
theorem hasConsumer_iff (hid : id ∈ s.ids) : s.HasConsumer id ↔ ∃ v, s.flow.Feeds id v := by
  simp only [flow_feeds_iff]
  constructor
  · rintro ⟨e, he, hsource, htarget, hne⟩
    exact ⟨e.target, hne.symm, e, he, hsource, rfl, hid, htarget⟩
  · rintro ⟨v, hne, e, he, hsource, rfl, -, htarget⟩
    exact ⟨e, he, hsource, htarget, hne.symm⟩

/-- The sinks are the nodes without a consumer, in snapshot order. -/
theorem sinks_flow (s : Snapshot) : s.flow.sinks = s.ids.filter fun id => ¬ s.HasConsumer id := by
  refine List.filter_congr fun id hid => ?_
  rw [Bool.eq_iff_iff, decide_eq_true_iff, hasConsumer_iff hid, List.isEmpty_iff,
    List.eq_nil_iff_forall_not_mem, not_exists]
  exact forall_congr' fun v => not_congr FlowGraph.mem_consumers

end Snapshot

namespace Script

/-- What the results of a script are, for the graph that it was made from. -/
structure Returns (p : Script) (s : Snapshot) : Prop where
  /-- There is a result for each node without a consumer, in snapshot order. -/
  keys : p.results.map (·.1) = s.ids.filter fun id => ¬ s.HasConsumer id
  /-- No two results share a key. -/
  nodup : (p.results.map (·.1)).Nodup
  /-- A result is the variable that the block of its node assigns, and no other block. -/
  values : ∀ r ∈ p.results, ∃ b ∈ p.blocks, b.context.node.id = r.1 ∧ b.context.output = r.2 ∧
    ∀ other ∈ p.blocks, r.2 ∈ other.fragment.assigns ↔ other.context.node.id = r.1
  /-- The body ends with one line for each result, if there are any. -/
  lines : p.results ≠ [] →
    [Text.ofString "return \x7b"] ++ p.results.map resultLine ++ [Text.ofString "\x7d"] <:+ p.body
  /-- The line of a result reads back as its key. -/
  literals : ∀ r ∈ p.results, Text.literals (resultLine r) = some [r.1]
  /-- The body returns nothing if and only if every node has a consumer. -/
  nothing : p.body.getLast? = some (Text.ofString "return \x7b\x7d") ↔ ∀ id ∈ s.ids, s.HasConsumer id

section Parts

variable {p : Script}

/-- The lines that return results end the body. -/
theorem returnLines_suffix (hresults : p.results ≠ []) :
    [Text.ofString "return \x7b"] ++ p.results.map resultLine ++ [Text.ofString "\x7d"] <:+ p.body := by
  refine ⟨[([] : Text)].intercalate (p.blocks.map Block.lines) ++
    (if p.blocks.isEmpty then [] else [[]]), ?_⟩
  simp only [body, returnLines_eq hresults, List.append_assoc]

/-- The body ends by returning nothing if and only if there is no result. -/
theorem getLast?_body_iff :
    p.body.getLast? = some (Text.ofString "return \x7b\x7d") ↔ p.results = [] := by
  constructor
  · intro h
    by_contra hresults
    obtain ⟨front, hfront⟩ := returnLines_suffix hresults
    rw [← hfront, ← List.append_assoc, List.getLast?_concat] at h
    exact absurd (Option.some.inj h) (by decide)
  · intro h
    simp [body, returnLines, h]

end Parts

variable (d : Defaults) (s : Snapshot)

/-- The results of a script are the sinks of its graph with their variables. -/
theorem results_compile : (compile d s).1.results =
    s.flow.sinks.map fun id => (id, (claimVariables s.flow s.flow.sequence).1.of id) :=
  rfl

/-- The keys of the results are the sinks. -/
theorem map_results_compile : (compile d s).1.results.map (·.1) = s.flow.sinks := by
  rw [results_compile, List.map_map]
  exact List.map_id _

/-- The block of a node assigns the variable that a result takes from it. -/
theorem exists_block_of_result {r : Text × Text} (hr : r ∈ (compile d s).1.results) :
    ∃ b ∈ (compile d s).1.blocks, b.context.node.id = r.1 ∧ b.context.output = r.2 ∧
      ∀ other ∈ (compile d s).1.blocks, r.2 ∈ other.fragment.assigns ↔ other.context.node.id = r.1 := by
  rw [results_compile] at hr
  obtain ⟨id, hid, rfl⟩ := List.mem_map.1 hr
  have hid : id ∈ s.flow.ids := List.mem_of_mem_filter hid
  have hblock := FlowGraph.mem_sequence.2 hid
  rw [← map_id_compile d s] at hblock
  obtain ⟨b, hb, rfl⟩ := List.mem_map.1 hblock
  refine ⟨b, hb, rfl, (follows_compile d s b hb).output, fun other hother => ?_⟩
  rw [(follows_compile d s other hother).assigns _ hid]
  exact eq_comm

/-- The results of a script are as they are to be. -/
theorem returns_compile : (compile d s).1.Returns s := by
  have hkeys := map_results_compile d s
  have hvariables : ∀ r ∈ (compile d s).1.results, IsVariable r.2 := by
    intro r hr
    obtain ⟨id, hid, rfl⟩ := List.mem_map.1 hr
    exact isVariable_of_claimVariables s.flow id (List.mem_of_mem_filter hid)
  refine ⟨hkeys.trans s.sinks_flow, ?_, fun r hr => exists_block_of_result d s hr,
    returnLines_suffix, fun r hr => (resultLine_spec (hvariables r hr)).2, ?_⟩
  · rw [hkeys]
    exact s.flow.nodup_ids.filter _
  · rw [getLast?_body_iff, ← List.map_eq_nil_iff (f := (·.1)), hkeys, s.sinks_flow,
      List.filter_eq_nil_iff]
    simp only [decide_eq_true_eq, not_not]

/--
A script returns every result: its results are those of the nodes without a consumer, and if all nodes
can be ordered each node is one of these or has one downstream. So a graph with nodes in which no node
feeds itself over others has a result.
-/
theorem compile_returns_sinks :
    (compile d s).1.Returns s ∧
      (s.flow.leftover = [] → ∀ id ∈ s.ids, id ∈ (compile d s).1.results.map (·.1) ∨
        ∃ sink ∈ (compile d s).1.results.map (·.1), sink ∈ s.flow.downstream id) ∧
      (s.flow.leftover = [] ↔ ∀ id, ¬ Relation.TransGen s.flow.Feeds id id) ∧
      (s.flow.leftover = [] → s.nodes ≠ [] → (compile d s).1.results ≠ []) := by
  rw [map_results_compile]
  refine ⟨returns_compile d s, fun hnone id hid => FlowGraph.mem_sinks_or_downstream hnone hid,
    FlowGraph.leftover_eq_nil_iff, fun hnone hnodes hresults => ?_⟩
  obtain ⟨n, rest, hcons⟩ := List.exists_cons_of_ne_nil hnodes
  have hsinks : s.flow.sinks = [] := by
    rw [← map_results_compile d s, hresults, List.map_nil]
  have hn : n.id ∈ s.flow.ids := by
    simp [FlowGraph.ids, Snapshot.flow, hcons]
  rcases FlowGraph.mem_sinks_or_downstream hnone hn with h | ⟨v, h, -⟩
  all_goals
    rw [hsinks] at h
    exact List.not_mem_nil h

end Script

end PipelineGraph
