import Mathlib.Data.Set.Card.Arithmetic
import PipelineGraph.Proofs.Simulation.Paths

/-!
# Over which edges visits come

A visit of a node follows each of its edges once, so an edge is followed as often as its source is visited.
The start is visited once. Any other node is visited once for each edge that leads to it from a node in
reach, but only if all these nodes are visited once themselves.
-/

namespace PipelineGraph

namespace FlowGraph

variable {g : FlowGraph} {u v : Text}

/-- The source of the edge at a position. -/
def sourceAt (g : FlowGraph) (i : Fin g.edges.length) : Text :=
  (g.edges.get i).source

/-- The positions of the edges that lead to a node. -/
def arriving (g : FlowGraph) (v : Text) : Finset (Fin g.edges.length) :=
  {i | (g.edges.get i).target = v}

/-- The edges that arrive at a node lead to it. -/
theorem mem_arriving {i : Fin g.edges.length} : i ∈ g.arriving v ↔ (g.edges.get i).target = v := by
  simp [arriving]

/-- A walk to a node has no edges, or ends with one that leads to the node. -/
theorem setOf_isWalk (u v : Text) : {w | g.IsWalk u w v} =
    {w | w = [] ∧ u = v} ∪ ⋃ i ∈ g.arriving v, (· ++ [i]) '' {w | g.IsWalk u w (g.sourceAt i)} := by
  ext w
  simp only [Set.mem_ofPred_eq, Set.mem_union, Set.mem_iUnion, Set.mem_image, mem_arriving, exists_prop]
  constructor
  · intro hw
    rcases List.eq_nil_or_concat' w with rfl | ⟨w', i, rfl⟩
    · exact Or.inl ⟨rfl, hw⟩
    · obtain ⟨_, hw', rfl, htarget⟩ := isWalk_append.1 hw
      exact Or.inr ⟨i, htarget, w', hw', rfl⟩
  · rintro (⟨rfl, huv⟩ | ⟨i, htarget, w', hw', rfl⟩)
    · exact huv
    · exact isWalk_append.2 ⟨_, hw', rfl, htarget⟩

/-- So the walks to a node are as many as those to the sources of the edges that lead to it, and one more if
they begin there. -/
theorem encard_isWalk_arriving (u v : Text) : {w | g.IsWalk u w v}.encard =
    (if u = v then 1 else 0) + ∑ i ∈ g.arriving v, {w | g.IsWalk u w (g.sourceAt i)}.encard := by
  have hnil : {w : g.Walk | w = [] ∧ u = v}.encard = if u = v then 1 else 0 := by
    split <;> simp [*]
  have hlast : (⋃ i ∈ g.arriving v, (· ++ [i]) '' {w | g.IsWalk u w (g.sourceAt i)}).encard =
      ∑ i ∈ g.arriving v, {w | g.IsWalk u w (g.sourceAt i)}.encard := by
    have hapart : (g.arriving v : Set (Fin g.edges.length)).PairwiseDisjoint fun i =>
        (· ++ [i]) '' {w | g.IsWalk u w (g.sourceAt i)} := by
      intro i _ j _ hne
      refine Set.disjoint_left.2 ?_
      rintro w ⟨w', -, rfl⟩ ⟨w'', -, heq⟩
      exact hne (List.singleton_injective (List.append_inj_right' heq rfl)).symm
    have hunion := (g.arriving v).finite_toSet.encard_biUnion hapart
    rw [finsum_mem_coe_finset] at hunion
    refine hunion.trans (Finset.sum_congr rfl fun i _ => ?_)
    exact (List.append_left_injective [i]).encard_image _
  rw [setOf_isWalk, Set.encard_union_eq, hnil, hlast]
  refine Set.disjoint_left.2 ?_
  rintro w ⟨rfl, -⟩ hw
  obtain ⟨i, -, w', -, heq⟩ := Set.mem_iUnion₂.1 hw
  exact List.append_ne_nil_of_right_ne_nil w' (List.cons_ne_nil i []) heq

/-- The only walk from a node back to itself is the one without edges, if no cycle can be reached. -/
theorem encard_isWalk_self (hacyclic : ¬ g.IsCyclicFrom u) : {w | g.IsWalk u w u}.encard = 1 := by
  refine Set.encard_eq_one.2 ⟨[], Set.eq_singleton_iff_unique_mem.2 ⟨rfl, fun w hw => ?_⟩⟩
  by_contra hne
  exact hacyclic ⟨u, ⟨[], rfl⟩, w, hne, hw⟩

end FlowGraph

namespace Simulation.Engine

open Finset

variable {p : Plan} {s : Session} {graph : Snapshot} {start : Node}

section Simulations

variable (hhooks : p.hooks = []) (hrest : s.IsAtRest) (hstatus : s.machine.status ≠ .running)
  (hdwell : ∀ e, p.dwell ≠ .unusable e) (hedge : ∀ e, p.edgeDelay ≠ .unusable e) (hlistens : p.listens = true)
  (hstart : graph.flow.start? = some start) (hacyclic : ¬ graph.flow.IsCyclicFrom start.id)
  (hwalks : ∀ w x, graph.flow.IsWalk start.id w x → (w.length : Int) ≤ p.maxDepth)

include hhooks hrest hstatus hdwell hedge hlistens hstart hacyclic hwalks

/-- A simulation that is finished has made each node active as often as there are walks to it. -/
theorem activations_eq_encard :
    ∃ entries, s.Answers p (run p (Action.simulate (.ok graph)).stepBound (act s (.simulate (.ok graph))))
        entries .returned ∧
      ∀ x, ((observe Entry.event? entries).countP (Event.activates x) : ℕ∞) =
        {w | graph.flow.IsWalk start.id w x}.encard := by
  obtain ⟨hfinite, hnode, s₁, hstep, hbegun, htrace, hcourse, hconcluded, hrest'⟩ :=
    exists_finished_run hhooks hrest hstatus hdwell hedge hstart hacyclic hwalks
  obtain ⟨entries, hanswers⟩ := answers_of_concluded hconcluded hrest'
  have hrun : run p (Action.simulate (.ok graph)).stepBound (act s (.simulate (.ok graph))) =
      run p ((Action.simulate (.ok graph)).stepBound - 1) s₁ := run_succ hstep _
  rw [hrun]
  refine ⟨entries, hanswers, fun x => ?_⟩
  obtain ⟨later, hlater, hcount⟩ := count_visits hhooks hdwell hedge hwalks hfinite hnode hlistens hbegun hcourse _
    hconcluded.root.1 (f := fun y => if y = x then 1 else 0) (fun _ => rfl) fun v => Visit.count_activates
  have hsplit : entries = p.opening s.scheduler.now s.machine.status graph ++ later := by
    refine (List.append_cancel_left_eq s.trace _ _).mp ?_
    rw [← hanswers.trace, hlater, htrace, List.append_assoc]
  rw [FlowGraph.encard_isWalk fun w hw => hw.length_lt hfinite.start hacyclic, hsplit, observe_append,
    List.countP_append, hcount]
  simp [Plan.opening, Entry.event?, hlistens, Event.activates]

/-- In a simulation that is finished, the start is visited once, and any other node once for each visit of the
source of an edge that leads to it. So it is visited once for each edge that comes from a node in reach
if and only if none of these nodes is visited more than once. -/
theorem simulate_follows_edges :
    ∃ entries, s.Answers p (run p (Action.simulate (.ok graph)).stepBound (act s (.simulate (.ok graph))))
        entries .returned ∧
      let visits := fun x => (observe Entry.event? entries).countP (Event.activates x)
      visits start.id = 1 ∧ (∀ x, 0 < visits x ↔ ∃ w, graph.flow.IsWalk start.id w x) ∧
      ∀ x ≠ start.id, visits x = ∑ i ∈ graph.flow.arriving x, visits (graph.flow.sourceAt i) ∧
        (visits x = #{i ∈ graph.flow.arriving x | 0 < visits (graph.flow.sourceAt i)} ↔
          ∀ i ∈ graph.flow.arriving x, visits (graph.flow.sourceAt i) ≤ 1) := by
  obtain ⟨entries, hanswers, hvisits⟩ := activations_eq_encard hhooks hrest hstatus hdwell hedge hlistens hstart
    hacyclic hwalks
  refine ⟨entries, hanswers, ?_⟩
  intro visits
  have hsum : ∀ x ≠ start.id, visits x = ∑ i ∈ graph.flow.arriving x, visits (graph.flow.sourceAt i) := by
    intro x hne
    have harriving := FlowGraph.encard_isWalk_arriving (g := graph.flow) start.id x
    rw [if_neg hne.symm, zero_add, ← hvisits, Finset.sum_congr rfl fun i _ => (hvisits _).symm] at harriving
    exact_mod_cast harriving
  refine ⟨?_, fun x => ?_, fun x hne => ⟨hsum x hne, ?_⟩⟩
  · have hself := hvisits start.id
    rw [FlowGraph.encard_isWalk_self hacyclic] at hself
    exact_mod_cast hself
  · have hreach : visits x ≠ 0 ↔ ((visits x : Nat) : ℕ∞) ≠ 0 := Nat.cast_ne_zero.symm
    rw [Nat.pos_iff_ne_zero, hreach, hvisits, Set.encard_ne_zero]
    rfl
  · -- The sum is over the edges from nodes in reach, and each of them adds one at least.
    have hreached : ∑ i ∈ graph.flow.arriving x with 0 < visits (graph.flow.sourceAt i),
        visits (graph.flow.sourceAt i) = ∑ i ∈ graph.flow.arriving x, visits (graph.flow.sourceAt i) :=
      Finset.sum_filter_of_ne fun i _ hne => Nat.pos_of_ne_zero hne
    have hleast : ∀ i ∈ {i ∈ graph.flow.arriving x | 0 < visits (graph.flow.sourceAt i)},
        1 ≤ visits (graph.flow.sourceAt i) := fun i hi => (Finset.mem_filter.1 hi).2
    rw [hsum x hne, ← hreached, Finset.card_eq_sum_ones, eq_comm, Finset.sum_eq_sum_iff_of_le hleast]
    constructor
    · intro h i hi
      by_cases hpos : 0 < visits (graph.flow.sourceAt i)
      · exact Nat.le_of_eq (h i (Finset.mem_filter.2 ⟨hi, hpos⟩)).symm
      · omega
    · intro h i hi
      obtain ⟨hi, hpos⟩ := Finset.mem_filter.1 hi
      exact Nat.le_antisymm hpos (h i hi)

end Simulations

end Simulation.Engine

end PipelineGraph
