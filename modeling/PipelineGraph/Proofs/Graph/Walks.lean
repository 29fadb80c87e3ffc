import PipelineGraph.Graph.Flow
import Mathlib.Algebra.Order.BigOperators.Group.List
import Mathlib.Data.Set.Card
import Mathlib.Logic.Relation

/-!
# Walks

A walk is given by the positions of its edges, so parallel edges make different walks. In a graph
without a cycle in reach of a node, the walks from there have fewer edges than the graph has nodes.
Sums over the ends of all such walks follow the edges one by one.
-/

namespace PipelineGraph.FlowGraph

open Relation

variable {g : FlowGraph} {u v x y : Text}

/-- The positions of edges. -/
abbrev Walk (g : FlowGraph) := List (Fin g.edges.length)

/-- The edges of a walk lead from one node to another. -/
def IsWalk (g : FlowGraph) : Text → g.Walk → Text → Prop
  | u, [], v => u = v
  | u, i :: rest, v => g.edges[i].source = u ∧ IsWalk g g.edges[i].target rest v

instance decidableIsWalk (g : FlowGraph) : (u : Text) → (w : g.Walk) → (v : Text) → Decidable (g.IsWalk u w v)
  | u, [], v => inferInstanceAs (Decidable (u = v))
  | u, i :: rest, v =>
    have := decidableIsWalk g g.edges[i].target rest v
    inferInstanceAs (Decidable (g.edges[i].source = u ∧ g.IsWalk g.edges[i].target rest v))

/-- An edge leads from one node to another. -/
def Leads (g : FlowGraph) (u v : Text) : Prop :=
  v ∈ g.targets u

/-- A cycle of edges, loops included, can be reached from a node. -/
def IsCyclicFrom (g : FlowGraph) (u : Text) : Prop :=
  ∃ v, (∃ w, g.IsWalk u w v) ∧ ∃ w, w ≠ [] ∧ g.IsWalk v w v

/-- A node leads to another one by the edge at some position. -/
theorem leads_iff : g.Leads u v ↔ ∃ i : Fin g.edges.length,
    g.edges[i].source = u ∧ g.edges[i].target = v := by
  simp only [Leads, targets, outgoing, List.mem_map, List.mem_filter, decide_eq_true_eq]
  constructor
  · rintro ⟨e, ⟨he, hsource⟩, htarget⟩
    obtain ⟨i, hi, rfl⟩ := List.getElem_of_mem he
    exact ⟨⟨i, hi⟩, hsource, htarget⟩
  · rintro ⟨i, hsource, htarget⟩
    exact ⟨g.edges[i], ⟨List.getElem_mem i.isLt, hsource⟩, htarget⟩

/-- The end of an edge is a node. -/
theorem Leads.target_mem (h : g.Leads u v) : v ∈ g.ids := by
  obtain ⟨i, -, rfl⟩ := leads_iff.1 h
  exact (g.closed _ (List.getElem_mem i.isLt)).2

/-- A walk in two parts passes through a node between them. -/
theorem isWalk_append {w w' : g.Walk} :
    g.IsWalk u (w ++ w') v ↔ ∃ x, g.IsWalk u w x ∧ g.IsWalk x w' v := by
  induction w generalizing u with
  | nil => simp [IsWalk]
  | cons i rest ih =>
    simp only [List.cons_append, IsWalk, ih]
    constructor
    · rintro ⟨hsource, x, hrest, hw'⟩
      exact ⟨x, ⟨hsource, hrest⟩, hw'⟩
    · rintro ⟨x, ⟨hsource, hrest⟩, hw'⟩
      exact ⟨hsource, x, hrest, hw'⟩

/-- A walk is made longer by an edge from its end. -/
theorem IsWalk.extend {w : g.Walk} (h : g.IsWalk u w x) (hxy : g.Leads x y) :
    ∃ i, g.IsWalk u (w ++ [i]) y := by
  obtain ⟨i, hsource, htarget⟩ := leads_iff.1 hxy
  exact ⟨i, isWalk_append.2 ⟨x, h, hsource, htarget⟩⟩

/-- The nodes of a walk lead to each other one by one. -/
theorem IsWalk.reflTransGen {w : g.Walk} (h : g.IsWalk u w v) : ReflTransGen g.Leads u v := by
  induction w generalizing u with
  | nil => exact h ▸ ReflTransGen.refl
  | cons i rest ih =>
    obtain ⟨hsource, hrest⟩ := h
    exact ReflTransGen.head (leads_iff.2 ⟨i, hsource, rfl⟩) (ih hrest)

/-- Nodes that lead to each other one by one make a walk. -/
theorem exists_isWalk (h : ReflTransGen g.Leads u v) : ∃ w, g.IsWalk u w v := by
  induction h with
  | refl => exact ⟨[], rfl⟩
  | tail _ hlead ih =>
    obtain ⟨w, hw⟩ := ih
    obtain ⟨i, hi⟩ := hw.extend hlead
    exact ⟨_, hi⟩

/-- A cycle in reach is a node in reach that leads back to itself. -/
theorem isCyclicFrom_iff :
    g.IsCyclicFrom u ↔ ∃ v, ReflTransGen g.Leads u v ∧ TransGen g.Leads v v := by
  constructor
  · rintro ⟨v, ⟨w, hw⟩, c, hne, hc⟩
    obtain ⟨i, rest, rfl⟩ := List.exists_cons_of_ne_nil hne
    refine ⟨v, hw.reflTransGen, TransGen.head'_iff.2 ⟨_, ?_, hc.2.reflTransGen⟩⟩
    exact leads_iff.2 ⟨i, hc.1, rfl⟩
  · rintro ⟨v, hreach, hcycle⟩
    obtain ⟨x, hlead, hback⟩ := TransGen.head'_iff.1 hcycle
    obtain ⟨i, hsource, rfl⟩ := leads_iff.1 hlead
    obtain ⟨w, hw⟩ := exists_isWalk hback
    exact ⟨v, exists_isWalk hreach, i :: w, List.cons_ne_nil _ _, hsource, hw⟩

/-- What can be reached over an edge can be reached. -/
theorem IsCyclicFrom.head (hlead : g.Leads u v) (h : g.IsCyclicFrom v) : g.IsCyclicFrom u := by
  obtain ⟨x, hreach, hcycle⟩ := isCyclicFrom_iff.1 h
  exact isCyclicFrom_iff.2 ⟨x, ReflTransGen.head hlead hreach, hcycle⟩

/-! ## The length of walks -/

/-- The nodes that a walk passes, from the first to the last. -/
def stops (g : FlowGraph) (u : Text) : g.Walk → List Text
  | [] => [u]
  | i :: rest => u :: stops g g.edges[i].target rest

/-- A walk passes one node more than it has edges. -/
theorem length_stops (w : g.Walk) : (g.stops u w).length = w.length + 1 := by
  induction w generalizing u with
  | nil => rfl
  | cons i rest ih => simp [stops, ih]

/-- A walk from a node passes nodes. -/
theorem stops_subset (hu : u ∈ g.ids) (w : g.Walk) : g.stops u w ⊆ g.ids := by
  induction w generalizing u with
  | nil => simpa [stops] using hu
  | cons i rest ih =>
    exact List.cons_subset.2 ⟨hu, ih (g.closed _ (List.getElem_mem i.isLt)).2⟩

/-- What a walk passes can be reached from its start. -/
theorem reflTransGen_of_mem_stops {w : g.Walk} (h : g.IsWalk u w v) (hx : x ∈ g.stops u w) :
    ReflTransGen g.Leads u x := by
  induction w generalizing u with
  | nil =>
    obtain rfl : x = u := by simpa [stops] using hx
    exact ReflTransGen.refl
  | cons i rest ih =>
    obtain ⟨hsource, hrest⟩ := h
    rcases List.mem_cons.1 hx with rfl | hx
    · exact ReflTransGen.refl
    · exact ReflTransGen.head (leads_iff.2 ⟨i, hsource, rfl⟩) (ih hrest hx)

/-- Without a cycle in reach, a walk passes no node twice. -/
theorem stops_nodup {w : g.Walk} (hacyclic : ¬ g.IsCyclicFrom u) (h : g.IsWalk u w v) :
    (g.stops u w).Nodup := by
  induction w generalizing u with
  | nil => simp [stops]
  | cons i rest ih =>
    obtain ⟨hsource, hrest⟩ := h
    have hlead : g.Leads u g.edges[i].target := leads_iff.2 ⟨i, hsource, rfl⟩
    refine List.nodup_cons.2 ⟨fun hu => ?_, ih (fun h => hacyclic (h.head hlead)) hrest⟩
    refine hacyclic (isCyclicFrom_iff.2 ⟨u, ReflTransGen.refl, ?_⟩)
    exact TransGen.head'_iff.2 ⟨_, hlead, reflTransGen_of_mem_stops hrest hu⟩

/-- Without a cycle in reach, walks have fewer edges than there are nodes. -/
theorem IsWalk.length_lt {w : g.Walk} (h : g.IsWalk u w v) (hu : u ∈ g.ids)
    (hacyclic : ¬ g.IsCyclicFrom u) : w.length < g.nodes.length := by
  have hle := ((stops_nodup hacyclic h).subperm (stops_subset hu w)).length_le
  rw [length_stops, ids, List.length_map] at hle
  omega

/-! ## Sums over the ends of walks -/

/-- The sum of a function over the ends of the walks from a node with fewer than `k` edges. -/
def walkSum (g : FlowGraph) (f : Text → Nat) : (k : Nat) → Text → Nat
  | 0, _ => 0
  | k + 1, u => f u + ((g.targets u).map (walkSum g f k)).sum

/-- The walks with fewer than `k` edges from a node to another. -/
def walksTo (g : FlowGraph) (v : Text) : (k : Nat) → Text → List g.Walk
  | 0, _ => []
  | k + 1, u =>
    (if u = v then [[]] else []) ++
      ((List.finRange g.edges.length).filter fun i => g.edges[i].source = u).flatMap fun i =>
        (walksTo g v k g.edges[i].target).map (i :: ·)

/-- The list of walks holds those of limited length. -/
theorem mem_walksTo {k : Nat} {w : g.Walk} :
    w ∈ g.walksTo v k u ↔ g.IsWalk u w v ∧ w.length < k := by
  induction k generalizing u w with
  | zero => simp [walksTo]
  | succ k ih =>
    cases w with
    | nil => by_cases h : u = v <;> simp [walksTo, IsWalk, h]
    | cons i rest => by_cases h : u = v <;> simp [walksTo, IsWalk, h, ih, and_assoc]

/-- Every walk is listed once. -/
theorem nodup_walksTo (k : Nat) : (g.walksTo v k u).Nodup := by
  induction k generalizing u with
  | zero => simp [walksTo]
  | succ k ih =>
    refine List.nodup_append.2 ⟨by split <;> simp, ?_, ?_⟩
    · refine List.nodup_flatMap.2 ⟨fun i _ => ih.map (List.cons_injective), ?_⟩
      refine ((List.nodup_finRange _).filter _).imp fun {i j} hne => ?_
      intro w hi hj
      obtain ⟨w', -, rfl⟩ := List.mem_map.1 hi
      obtain ⟨w'', -, heq⟩ := List.mem_map.1 hj
      exact hne (List.cons.inj heq).1.symm
    · rintro w hw w' hw' rfl
      have hnil : w = [] := by
        split at hw <;> simp_all
      obtain ⟨i, -, hi⟩ := List.mem_flatMap.1 hw'
      obtain ⟨w'', -, heq⟩ := List.mem_map.1 hi
      exact List.cons_ne_nil _ _ (heq.trans hnil)

/-- The ends of the edges that leave a node, by their positions. -/
theorem map_target_finRange (u : Text) :
    ((List.finRange g.edges.length).filter fun i => g.edges[i].source = u).map
      (fun i => g.edges[i].target) = g.targets u := by
  have hedges : (List.finRange g.edges.length).map (fun i => g.edges[i]) = g.edges := by
    refine List.ext_getElem (by simp) fun n h h' => ?_
    simp
  rw [targets, outgoing]
  conv_rhs => rw [← hedges]
  rw [List.filter_map, List.map_map]
  rfl

/-- A sum over the ends of walks counts walks if the function tells their end from other nodes. -/
theorem length_walksTo (k : Nat) :
    (g.walksTo v k u).length = g.walkSum (fun x => if x = v then 1 else 0) k u := by
  induction k generalizing u with
  | zero => rfl
  | succ k ih =>
    rw [walksTo, walkSum, List.length_append, List.length_flatMap, ← map_target_finRange,
      List.map_map]
    congr 1
    · split <;> rfl
    · congr 1
      refine List.map_congr_left fun i _ => ?_
      rw [List.length_map, ih]
      rfl

/-- A sum over the ends of limited walks counts all walks if no walk is longer. -/
theorem encard_isWalk {k : Nat} (hk : ∀ w, g.IsWalk u w v → w.length < k) :
    {w | g.IsWalk u w v}.encard = g.walkSum (fun x => if x = v then 1 else 0) k u := by
  classical
  have hset : {w | g.IsWalk u w v} = ((g.walksTo v k u).toFinset : Set g.Walk) := by
    ext w
    simp only [Set.mem_ofPred_eq, List.coe_toFinset, mem_walksTo]
    exact ⟨fun hw => ⟨hw, hk w hw⟩, fun hw => hw.1⟩
  rw [hset, Set.encard_coe_eq_coe_finsetCard, List.toFinset_card_of_nodup (nodup_walksTo k),
    length_walksTo]

/-- The number of walks with fewer than `k` edges is less than it were if every edge fitted. -/
theorem walkSum_one_le (k : Nat) (u : Text) :
    g.walkSum (fun _ => 1) k u ≤ (g.edges.length + 1) ^ k := by
  induction k generalizing u with
  | zero => exact Nat.zero_le _
  | succ k ih =>
    have htargets : (g.targets u).length ≤ g.edges.length := by
      rw [targets, List.length_map]
      exact List.length_filter_le _ _
    have hsum : ((g.targets u).map (g.walkSum (fun _ => 1) k)).sum ≤
        (g.targets u).length * (g.edges.length + 1) ^ k := by
      have h := List.sum_le_card_nsmul ((g.targets u).map (g.walkSum (fun _ => 1) k))
        ((g.edges.length + 1) ^ k) fun n hn => by
          obtain ⟨y, -, rfl⟩ := List.mem_map.1 hn
          exact ih y
      simpa using h
    have hpos : 0 < (g.edges.length + 1) ^ k := Nat.pow_pos (Nat.succ_pos _)
    calc g.walkSum (fun _ => 1) (k + 1) u
        ≤ 1 + (g.targets u).length * (g.edges.length + 1) ^ k := Nat.add_le_add_left hsum 1
      _ ≤ (g.edges.length + 1) ^ k + g.edges.length * (g.edges.length + 1) ^ k :=
          Nat.add_le_add hpos (Nat.mul_le_mul_right _ htargets)
      _ = (g.edges.length + 1) ^ (k + 1) := by
          rw [Nat.pow_succ, Nat.mul_succ, Nat.mul_comm, Nat.add_comm]

end PipelineGraph.FlowGraph
