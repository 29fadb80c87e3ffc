import Mathlib.Data.List.TakeWhile
import PipelineGraph.Graph.Reachability
import PipelineGraph.Proofs.Graph.TopologicalOrder

/-!
# What is downstream of a node

The search behind a node has a round for each node that is not found yet, so it ends with the queue
used up, and with each node that was found all of its consumers are found. What is downstream of a
node is thus what it feeds at some distance. If no node feeds itself at any distance, each node is a
sink or has a sink downstream.
-/

namespace PipelineGraph.FlowGraph

open Relation

variable {g : FlowGraph} {consumers : Text → List Text} {found queue : List Text} {rounds : Nat}
  {u v : Text}

/-! ## The search -/

/-- What a round drops from the queue was found before. -/
theorem mem_found_or_of_mem_queue {id : Text} {rest : List Text}
    (hrest : queue.dropWhile (· ∈ found) = id :: rest) (hv : v ∈ queue) :
    v ∈ found ∨ v = id ∨ v ∈ rest := by
  rw [← List.takeWhile_append_dropWhile (p := (· ∈ found)) (l := queue), hrest] at hv
  rcases List.mem_append.1 hv with hv | hv
  · exact Or.inl (by simpa using List.mem_takeWhile_imp hv)
  · exact Or.inr (List.mem_cons.1 hv)

/-- What a round takes from the queue was not found before. -/
theorem not_mem_of_dropWhile {id : Text} {rest : List Text}
    (hrest : queue.dropWhile (· ∈ found) = id :: rest) : id ∉ found := by
  have hhead := List.head_dropWhile_not (l := queue) (· ∈ found)
    (by rw [hrest]; exact List.cons_ne_nil _ _)
  simpa [hrest] using hhead

/-- What was found stays found. -/
theorem subset_explore : found ⊆ explore consumers rounds found queue := by
  induction rounds generalizing found queue with
  | zero => exact List.Subset.refl _
  | succ rounds ih =>
    simp only [explore]
    split
    · exact List.Subset.refl _
    · exact List.Subset.trans (List.subset_append_left _ _) ih

/-- What consumers inherit, all nodes have that are found. -/
theorem explore_inherits {P : Text → Prop} (hstep : ∀ u, P u → ∀ v ∈ consumers u, P v)
    (hfound : ∀ v ∈ found, P v) (hqueue : ∀ v ∈ queue, P v) :
    ∀ v ∈ explore consumers rounds found queue, P v := by
  induction rounds generalizing found queue with
  | zero => exact hfound
  | succ rounds ih =>
    simp only [explore]
    split
    · exact hfound
    · next id rest hrest =>
      have hmem : ∀ x ∈ id :: rest, P x := fun x hx =>
        hqueue x ((List.dropWhile_suffix _).subset (hrest ▸ hx))
      have hid : P id := hmem id List.mem_cons_self
      refine ih (fun v hv => ?_) fun v hv => ?_
      · rcases List.mem_append.1 hv with hv | hv
        · exact hfound v hv
        · exact List.mem_singleton.1 hv ▸ hid
      · rcases List.mem_append.1 hv with hv | hv
        · exact hmem v (List.mem_cons_of_mem _ hv)
        · exact hstep id hid v hv

/-- A search with a round left for each node not found yet, which has queued what the nodes found
feed. -/
structure Exploring (g : FlowGraph) (rounds : Nat) (found queue : List Text) : Prop where
  nodup : found.Nodup
  found_subset : found ⊆ g.ids
  queue_subset : queue ⊆ g.ids
  rounds_left : g.ids.length ≤ rounds + found.length
  queued : ∀ u ∈ found, ∀ v, g.Feeds u v → v ∈ found ∨ v ∈ queue

/-- Without a round left, all nodes are found. -/
theorem Exploring.ids_subset (h : g.Exploring 0 found queue) : g.ids ⊆ found := by
  have hlength : g.ids.length ≤ found.length := by
    simpa using h.rounds_left
  exact ((h.nodup.subperm h.found_subset).perm_of_length_le hlength).symm.subset

/-- A round takes the first node of the queue that is not found yet. -/
theorem Exploring.next (h : g.Exploring (rounds + 1) found queue) {id : Text} {rest : List Text}
    (hrest : queue.dropWhile (· ∈ found) = id :: rest) :
    g.Exploring rounds (found ++ [id]) (rest ++ g.consumers id) := by
  have hid : id ∉ found := not_mem_of_dropWhile hrest
  have hids : id :: rest ⊆ g.ids := fun x hx =>
    h.queue_subset ((List.dropWhile_suffix _).subset (hrest ▸ hx))
  refine ⟨?_, ?_, ?_, ?_, fun u hu v huv => ?_⟩
  · exact List.nodup_append.2 ⟨h.nodup, List.nodup_singleton id, fun x hx y hy heq =>
      hid (List.mem_singleton.1 hy ▸ heq ▸ hx)⟩
  · exact List.append_subset.2 ⟨h.found_subset, fun x hx =>
      List.mem_singleton.1 hx ▸ hids List.mem_cons_self⟩
  · refine List.append_subset.2 ⟨fun x hx => hids (List.mem_cons_of_mem _ hx), fun x hx => ?_⟩
    exact (mem_consumers.1 hx).target_mem
  · have hleft := h.rounds_left
    rw [List.length_append, List.length_singleton]
    omega
  · simp only [List.mem_append, List.mem_singleton] at hu ⊢
    rcases hu with hu | rfl
    · rcases h.queued u hu v huv with hv | hv
      · exact Or.inl (Or.inl hv)
      · rcases mem_found_or_of_mem_queue hrest hv with hv | rfl | hv
        · exact Or.inl (Or.inl hv)
        · exact Or.inl (Or.inr rfl)
        · exact Or.inr (Or.inl hv)
    · exact Or.inr (Or.inr (mem_consumers.2 huv))

/-- A search finds what is queued and, with each node, what the node feeds. -/
theorem Exploring.closed (h : g.Exploring rounds found queue) :
    queue ⊆ explore g.consumers rounds found queue ∧
      ∀ u ∈ explore g.consumers rounds found queue, ∀ v, g.Feeds u v →
        v ∈ explore g.consumers rounds found queue := by
  induction rounds generalizing found queue with
  | zero =>
    have hall := h.ids_subset
    exact ⟨List.Subset.trans h.queue_subset hall, fun u _ v huv => hall huv.target_mem⟩
  | succ rounds ih =>
    simp only [explore]
    split
    · next hnil =>
      have hqueue : queue ⊆ found := fun x hx =>
        of_decide_eq_true (List.dropWhile_eq_nil_iff.1 hnil x hx)
      exact ⟨hqueue, fun u hu v huv => (h.queued u hu v huv).elim id (fun hv => hqueue hv)⟩
    · next id rest hrest =>
      obtain ⟨hqueue, hclosed⟩ := ih (h.next hrest)
      refine ⟨fun x hx => ?_, hclosed⟩
      rcases mem_found_or_of_mem_queue hrest hx with hx | rfl | hx
      · exact subset_explore (List.mem_append_left _ hx)
      · exact subset_explore (List.mem_append_right _ List.mem_cons_self)
      · exact hqueue (List.mem_append_left _ hx)

/-- The search behind a node begins with what the node feeds in its queue. -/
theorem exploring_start (g : FlowGraph) (u : Text) : g.Exploring g.nodes.length [] (g.consumers u) := by
  refine ⟨List.nodup_nil, List.nil_subset _, fun x hx => (mem_consumers.1 hx).target_mem, ?_,
    fun x hx => absurd hx List.not_mem_nil⟩
  simp [ids]

/-- Downstream of a node is what it feeds at some distance. -/
theorem mem_downstream_iff : v ∈ g.downstream u ↔ TransGen g.Feeds u v := by
  obtain ⟨hqueue, hclosed⟩ := (exploring_start g u).closed
  constructor
  · refine explore_inherits (P := TransGen g.Feeds u) (fun x hx y hy => ?_)
      (fun x hx => absurd hx List.not_mem_nil) (fun x hx => ?_) v
    · exact hx.tail (mem_consumers.1 hy)
    · exact TransGen.single (mem_consumers.1 hx)
  · intro h
    induction h with
    | single huv => exact hqueue (mem_consumers.2 huv)
    | tail _ hvw ih => exact hclosed _ ih _ hvw

/-! ## Sinks -/

/-- A sink is a node that feeds nothing. -/
theorem mem_sinks_iff : u ∈ g.sinks ↔ u ∈ g.ids ∧ ∀ v, ¬ g.Feeds u v := by
  simp only [sinks, List.mem_filter, List.isEmpty_iff, List.eq_nil_iff_forall_not_mem, mem_consumers]

/-- A node of the order is a sink, or it has a sink of the graph downstream, if nothing is left over. -/
theorem mem_sinks_or_downstream (hnone : g.leftover = []) (hu : u ∈ g.ids) :
    u ∈ g.sinks ∨ ∃ v ∈ g.sinks, v ∈ g.downstream u := by
  have horder : ∀ x ∈ g.ids, x ∈ g.order := by
    intro x hx
    have hmem := g.sequence_perm.mem_iff.2 hx
    rwa [hnone, List.append_nil] at hmem
  -- What a node feeds stands behind it in the order, so the induction is on the nodes behind.
  induction hk : g.order.length - g.order.idxOf u using Nat.strongRecOn generalizing u with
  | ind k ih =>
    by_cases hsink : ∀ v, ¬ g.Feeds u v
    · exact Or.inl (mem_sinks_iff.2 ⟨hu, hsink⟩)
    · obtain ⟨v, huv⟩ := not_forall_not.1 hsink
      have hv := horder v huv.target_mem
      obtain ⟨-, hlt⟩ := idxOf_order_lt hv (TransGen.single huv)
      have hlength := List.idxOf_lt_length_of_mem hv
      rcases ih _ (by omega) huv.target_mem rfl with hsink | ⟨w, hw, hdown⟩
      · exact Or.inr ⟨v, hsink, mem_downstream_iff.2 (TransGen.single huv)⟩
      · exact Or.inr ⟨w, hw, mem_downstream_iff.2 (TransGen.head huv (mem_downstream_iff.1 hdown))⟩

end PipelineGraph.FlowGraph
