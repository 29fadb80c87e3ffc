import PipelineGraph.Proofs.Graph.Placing
import Mathlib.Data.Fintype.Card
import Mathlib.Data.Set.Finite.List
import Mathlib.Logic.Relation
import Mathlib.Order.WellFounded

/-!
# What the order of nodes is

The order of a graph is a topological order as far as there is one: a node stands behind whatever
feeds it, and among the orders with that property it is the lexicographically least in positions
of the snapshot. What is left over lies on a cycle or behind one. So order and remainder depend on
who feeds whom and on nothing else about the edges.
-/

namespace PipelineGraph

open Relation

namespace FlowGraph

variable {g : FlowGraph} {l placed : List Text} {u v : Text}

/-! ## Admissible lists -/

/-- Every node of a list can be placed behind the nodes before it. -/
def IsAdmissible (g : FlowGraph) (l : List Text) : Prop :=
  ∀ a v b, l = a ++ v :: b → g.Admits a v

/-- The positions of nodes in the snapshot. -/
def positions (g : FlowGraph) (l : List Text) : List Nat :=
  l.map g.ids.idxOf

/-- Two lists agree up to the end of one of them, or up to a place where they differ. -/
theorem isPrefix_or_differ (l l' : List Text) :
    l' <+: l ∨ (∃ v b, l' = l ++ v :: b) ∨
      ∃ a v w b c, v ≠ w ∧ l = a ++ v :: b ∧ l' = a ++ w :: c := by
  induction l generalizing l' with
  | nil =>
    cases l' with
    | nil => exact Or.inl (List.prefix_refl [])
    | cons v b => exact Or.inr (Or.inl ⟨v, b, rfl⟩)
  | cons v rest ih =>
    cases l' with
    | nil => exact Or.inl (List.nil_prefix)
    | cons w rest' =>
      by_cases h : v = w
      · subst h
        rcases ih rest' with hprefix | ⟨x, b, rfl⟩ | ⟨a, x, y, b, c, hne, rfl, rfl⟩
        · exact Or.inl (List.cons_prefix_cons.2 ⟨rfl, hprefix⟩)
        · exact Or.inr (Or.inl ⟨x, b, rfl⟩)
        · exact Or.inr (Or.inr ⟨v :: a, x, y, b, c, hne, rfl, rfl⟩)
      · exact Or.inr (Or.inr ⟨[], v, w, rest, rest', h, rfl, rfl⟩)

/-- An admissible list that is no beginning of the order has greater positions. -/
theorem order_lex_of_isAdmissible (h : g.IsAdmissible l) :
    l <+: g.order ∨ List.Lex (· < ·) (g.positions g.order) (g.positions l) := by
  rcases isPrefix_or_differ g.order l with hprefix | ⟨v, b, hl⟩ | ⟨a, v, w, b, c, hne, horder, hl⟩
  · exact Or.inl hprefix
  · exact absurd (h g.order v b hl) (g.not_admits_order v)
  · have hnext := g.order_isGreedy a v b horder
    have hw := h a w c hl
    have hle : g.ids.idxOf v ≤ g.ids.idxOf w := hnext.2 w hw
    have hidx : g.ids.idxOf v ≠ g.ids.idxOf w := fun heq =>
      hne ((List.idxOf_inj hnext.1.1).1 heq)
    refine Or.inr ?_
    simp only [positions, horder, hl, List.map_append, List.map_cons]
    exact List.Lex.append_left _ (List.Lex.rel (by omega)) _

/-! ## Independence of the edges -/

/-- A greedy list behind which nothing can be placed is the order. -/
theorem IsGreedy.eq_order (h : g.IsGreedy l) (hend : ∀ v, ¬ g.Admits l v) : l = g.order := by
  rcases isPrefix_or_differ g.order l with hprefix | ⟨v, b, hl⟩ | ⟨a, v, w, b, c, hne, horder, hl⟩
  · obtain ⟨rest, hrest⟩ := hprefix
    cases rest with
    | nil => simpa using hrest
    | cons v b => exact absurd (g.order_isGreedy l v b hrest.symm).1 (hend v)
  · exact absurd (h g.order v b hl).1 (g.not_admits_order v)
  · have hv := g.order_isGreedy a v b horder
    have hw := h a w c hl
    exact absurd ((List.idxOf_inj hv.1.1).1 (Nat.le_antisymm (hv.2 w hw.1) (hw.2 v hv.1))) hne

/-- Graphs with the same nodes in which the same nodes feed each other have the same order. -/
theorem order_congr {g' : FlowGraph} (hids : g'.ids = g.ids)
    (hfeeds : ∀ u v, g'.Feeds u v ↔ g.Feeds u v) : g'.order = g.order := by
  have hadmits : ∀ placed v, g'.Admits placed v ↔ g.Admits placed v := by
    intro placed v
    simp only [Admits, hids, hfeeds]
  refine IsGreedy.eq_order ?_ fun v hv => g'.not_admits_order v ((hadmits _ _).2 hv)
  intro a v b hab
  obtain ⟨hv, hfirst⟩ := g'.order_isGreedy a v b hab
  exact ⟨(hadmits a v).1 hv, fun u hu => hids ▸ hfirst u ((hadmits a u).2 hu)⟩

/-! ## Cycles -/

/-- What feeds a placed node, at any distance, stands before it. -/
theorem idxOf_order_lt (hv : v ∈ g.order) (h : TransGen g.Feeds u v) :
    u ∈ g.order ∧ g.order.idxOf u < g.order.idxOf v := by
  have hstep : ∀ {u v}, v ∈ g.order → g.Feeds u v →
      u ∈ g.order ∧ g.order.idxOf u < g.order.idxOf v := by
    intro u v hv huv
    obtain ⟨a, b, hab⟩ := List.append_of_mem hv
    have hgreedy := g.order_isGreedy
    have hnodup := hgreedy.nodup
    rw [hab] at hgreedy hnodup ⊢
    have hu : u ∈ a := hgreedy.feeds_before huv
    have hva : v ∉ a := (hgreedy a v b rfl).1.2.1
    refine ⟨List.mem_append_left _ hu, ?_⟩
    rw [List.idxOf_append_of_mem hu, List.idxOf_append_of_notMem hva, List.idxOf_cons_self]
    exact Nat.lt_add_right 0 (List.idxOf_lt_length_of_mem hu)
  induction h using TransGen.head_induction_on with
  | single huv => exact hstep hv huv
  | head huw _ ih =>
    obtain ⟨hu, hlt⟩ := hstep ih.1 huw
    exact ⟨hu, hlt.trans ih.2⟩

/-- What is left over is fed by something else that is left over. -/
theorem exists_feeds_of_mem_leftover (hv : v ∈ g.leftover) : ∃ u ∈ g.leftover, g.Feeds u v := by
  rw [leftover_eq, List.mem_filter, decide_eq_true_eq] at hv
  by_contra hnone
  refine g.not_admits_order v ⟨hv.1, hv.2, fun u huv => ?_⟩
  by_contra hu
  refine hnone ⟨u, ?_, huv⟩
  rw [leftover_eq, List.mem_filter, decide_eq_true_eq]
  exact ⟨huv.source_mem, hu⟩

/-- In finitely many nodes that are all fed by one of them, each lies behind a cycle. -/
theorem exists_cycle_of_mem_leftover (hv : v ∈ g.leftover) :
    ∃ c, TransGen g.Feeds c c ∧ ReflTransGen g.Feeds c v := by
  by_contra hnone
  let Behind := { x // x ∈ g.leftover ∧ ReflTransGen g.Feeds x v }
  have : Finite Behind :=
    (g.leftover.finite_toSet.subset fun x (hx : x ∈ g.leftover ∧ _) => hx.1).to_subtype
  let R : Behind → Behind → Prop := fun x y => TransGen g.Feeds x.1 y.1
  have : Std.Irrefl R := ⟨fun x hx => hnone ⟨x.1, hx, x.2.2⟩⟩
  have : IsTrans Behind R := ⟨fun x y z hxy hyz => TransGen.trans hxy hyz⟩
  have hwf : WellFounded R := Finite.wellFounded_of_trans_of_irrefl R
  obtain ⟨m, -, hmin⟩ := hwf.has_min Set.univ ⟨⟨v, hv, ReflTransGen.refl⟩, trivial⟩
  obtain ⟨u, hu, hum⟩ := exists_feeds_of_mem_leftover m.2.1
  exact hmin ⟨u, hu, ReflTransGen.head hum m.2.2⟩ trivial (TransGen.single hum)

/-- What lies on a cycle, or behind one, is left over; and nothing else is. -/
theorem mem_leftover_iff :
    v ∈ g.leftover ↔ ∃ c, TransGen g.Feeds c c ∧ ReflTransGen g.Feeds c v := by
  refine ⟨exists_cycle_of_mem_leftover, ?_⟩
  rintro ⟨c, hcycle, hreach⟩
  have hnot : c ∉ g.order := fun hc => lt_irrefl _ (idxOf_order_lt hc hcycle).2
  rw [leftover_eq, List.mem_filter, decide_eq_true_eq]
  rcases reflTransGen_iff_eq_or_transGen.1 hreach with rfl | htrans
  · obtain ⟨w, hw, -⟩ := TransGen.head'_iff.1 hcycle
    exact ⟨hw.source_mem, hnot⟩
  · obtain ⟨w, -, hwv⟩ := TransGen.tail'_iff.1 htrans
    exact ⟨hwv.target_mem, fun hv => hnot (idxOf_order_lt hv htrans).1⟩

/-- The order and what is left over are all nodes, once each. -/
theorem sequence_perm (g : FlowGraph) : (g.order ++ g.leftover).Perm g.ids := by
  have hleft : g.leftover.Nodup := by
    rw [leftover_eq]
    exact g.nodup_ids.filter _
  have hnodup : (g.order ++ g.leftover).Nodup := by
    refine List.nodup_append.2 ⟨g.order_isGreedy.nodup, hleft, ?_⟩
    rintro x hx y hy rfl
    rw [leftover_eq, List.mem_filter, decide_eq_true_eq] at hy
    exact hy.2 hx
  refine (List.perm_ext_iff_of_nodup hnodup g.nodup_ids).2 fun x => ?_
  rw [List.mem_append, leftover_eq, List.mem_filter, decide_eq_true_eq]
  constructor
  · rintro (hx | hx)
    · exact g.order_isGreedy.subset hx
    · exact hx.1
  · intro hx
    by_cases hmem : x ∈ g.order
    · exact Or.inl hmem
    · exact Or.inr ⟨hx, hmem⟩

/-- Nothing is left over exactly when no node feeds itself at any distance. -/
theorem leftover_eq_nil_iff : g.leftover = [] ↔ ∀ v, ¬ TransGen g.Feeds v v := by
  simp only [List.eq_nil_iff_forall_not_mem, mem_leftover_iff, not_exists, not_and]
  exact ⟨fun h v hv => h v v hv ReflTransGen.refl, fun h v c hc => absurd hc (h c)⟩

end FlowGraph

/--
The order of a snapshot's nodes, whatever its edges are. Order and remainder are all nodes, once
each. A node stands behind what feeds it, and at each place stands the first node of the snapshot
that can; hence the order is the lexicographically least of the admissible lists and depends on
the edges only through who feeds whom. The remainder keeps the order of the snapshot and holds the
nodes that lie on a cycle of different nodes or behind one.
-/
theorem Snapshot.order_least_and_leftover_cyclic (s : Snapshot) :
    (s.flow.order ++ s.flow.leftover).Perm s.ids ∧
      (∀ a v b, s.flow.order = a ++ v :: b → ∀ u, s.flow.Feeds u v → u ∈ a) ∧
      (∀ a v b, s.flow.order = a ++ v :: b → s.flow.IsNext a v) ∧
      (∀ l, s.flow.IsAdmissible l → l <+: s.flow.order ∨
        List.Lex (· < ·) (s.flow.positions s.flow.order) (s.flow.positions l)) ∧
      (∀ t : Snapshot, t.ids = s.ids → (∀ u v, t.flow.Feeds u v ↔ s.flow.Feeds u v) →
        t.flow.order = s.flow.order ∧ t.flow.leftover = s.flow.leftover) ∧
      s.flow.leftover.Sublist s.ids ∧
      (∀ v, v ∈ s.flow.leftover ↔
        ∃ c, TransGen s.flow.Feeds c c ∧ ReflTransGen s.flow.Feeds c v) ∧
      (s.flow.leftover = [] ↔ ∀ v, ¬ TransGen s.flow.Feeds v v) := by
  refine ⟨s.flow.sequence_perm, ?_, s.flow.order_isGreedy,
    fun l hl => FlowGraph.order_lex_of_isAdmissible hl, ?_, ?_,
    fun v => FlowGraph.mem_leftover_iff, FlowGraph.leftover_eq_nil_iff⟩
  · intro a v b hab u huv
    exact (s.flow.order_isGreedy a v b hab).1.2.2 u huv
  · intro t hids hfeeds
    have horder : t.flow.order = s.flow.order := FlowGraph.order_congr hids hfeeds
    refine ⟨horder, ?_⟩
    rw [FlowGraph.leftover_eq, FlowGraph.leftover_eq, horder]
    exact congrArg (List.filter (· ∉ s.flow.order)) hids
  · rw [FlowGraph.leftover_eq]
    exact List.filter_sublist

end PipelineGraph
