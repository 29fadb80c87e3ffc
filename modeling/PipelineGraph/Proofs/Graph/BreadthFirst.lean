import Mathlib.Data.Finset.Dedup
import Mathlib.Order.Lattice.Nat
import PipelineGraph.Graph.SearchLoop
import PipelineGraph.Proofs.Graph.Downstream

/-!
# The order of what is downstream

The search behind a node keeps to one rule: the next node found is the first one that the start and
the nodes found before it have queued and that is not found yet. From this rule alone the nodes come in
the order of their distances, and each node comes behind the one that queued it first. The loop that
takes one node of its queue at each turn ends, with the same nodes.
-/

namespace PipelineGraph

open Relation

/-- The first element of two lists that passes a test is one of the first list, if one of these passes. -/
theorem mem_of_find?_append {A : Type} {p : A → Bool} {front back : List A} {a b : A}
    (hfind : (front ++ back).find? p = some a) (hb : b ∈ front) (hp : p b = true) : a ∈ front := by
  obtain ⟨c, hc⟩ := Option.isSome_iff_exists.1 (List.find?_isSome.2 ⟨b, hb, hp⟩)
  rw [List.find?_append, hc, Option.some_or, Option.some.injEq] at hfind
  exact hfind ▸ List.mem_of_find?_eq_some hc

namespace FlowGraph

variable {g : FlowGraph} {u v w : Text}

/-! ## Distances -/

/-- A node is reached from another one in a number of steps, each to a node that is fed. -/
def FeedsIn (g : FlowGraph) : (steps : Nat) → Text → Text → Prop
  | 0, u, v => u = v
  | steps + 1, u, v => ∃ w, FeedsIn g steps u w ∧ g.Feeds w v

/-- The least positive number of steps in which a node is reached from another one. -/
noncomputable def distance (g : FlowGraph) (u v : Text) : Nat :=
  sInf {steps | 0 < steps ∧ g.FeedsIn steps u v}

/-- What is reached in steps is fed over other nodes. -/
theorem FeedsIn.reflTransGen {steps : Nat} (h : g.FeedsIn steps u v) : ReflTransGen g.Feeds u v := by
  induction steps generalizing v with
  | zero => exact h ▸ ReflTransGen.refl
  | succ steps ih =>
    obtain ⟨w, hw, hfeeds⟩ := h
    exact (ih hw).tail hfeeds

/-- What is fed over other nodes is reached in a positive number of steps. -/
theorem transGen_iff_feedsIn :
    TransGen g.Feeds u v ↔ ∃ steps, 0 < steps ∧ g.FeedsIn steps u v := by
  constructor
  · intro h
    induction h with
    | single hfeeds => exact ⟨1, Nat.one_pos, u, rfl, hfeeds⟩
    | tail _ hfeeds ih =>
      obtain ⟨steps, -, hsteps⟩ := ih
      exact ⟨steps + 1, Nat.succ_pos steps, _, hsteps, hfeeds⟩
  · rintro ⟨steps, hpos, hsteps⟩
    cases steps with
    | zero => exact absurd hpos (Nat.lt_irrefl 0)
    | succ steps =>
      obtain ⟨w, hw, hfeeds⟩ := hsteps
      exact TransGen.tail' hw.reflTransGen hfeeds

/-- A node is reached in as many steps as its distance says. -/
theorem feedsIn_distance (h : TransGen g.Feeds u v) :
    0 < g.distance u v ∧ g.FeedsIn (g.distance u v) u v :=
  Nat.sInf_mem (s := {steps | 0 < steps ∧ g.FeedsIn steps u v}) (transGen_iff_feedsIn.1 h)

/-- No node is reached in fewer steps than its distance says. -/
theorem distance_le {steps : Nat} (hpos : 0 < steps) (h : g.FeedsIn steps u v) :
    g.distance u v ≤ steps :=
  Nat.sInf_le ⟨hpos, h⟩

/-- What a node feeds is at distance one from it. -/
theorem distance_of_feeds (h : g.Feeds u v) : g.distance u v = 1 :=
  Nat.le_antisymm (distance_le Nat.one_pos ⟨u, rfl, h⟩) (feedsIn_distance (TransGen.single h)).1

/-- What a node feeds is at most one step further away. -/
theorem distance_le_succ (hw : TransGen g.Feeds u w) (h : g.Feeds w v) :
    g.distance u v ≤ g.distance u w + 1 :=
  distance_le (Nat.succ_pos _) ⟨w, (feedsIn_distance hw).2, h⟩

/-- A node that is reached is fed by the start, or by a node that is one step nearer to it. -/
theorem feeds_or_exists_nearer (hv : TransGen g.Feeds u v) :
    g.Feeds u v ∨ ∃ w, TransGen g.Feeds u w ∧ g.Feeds w v ∧ g.distance u w + 1 = g.distance u v := by
  obtain ⟨hpos, hsteps⟩ := feedsIn_distance hv
  obtain ⟨steps, hdistance⟩ := Nat.exists_eq_add_one.2 hpos
  rw [hdistance] at hsteps
  obtain ⟨w, hw, hfeeds⟩ := hsteps
  rcases Nat.eq_zero_or_pos steps with rfl | hpos
  · obtain rfl : u = w := hw
    exact Or.inl hfeeds
  · have hreach : TransGen g.Feeds u w := transGen_iff_feedsIn.2 ⟨steps, hpos, hw⟩
    have hnear := distance_le hpos hw
    have hfar := distance_le_succ hreach hfeeds
    exact Or.inr ⟨w, hreach, hfeeds, by omega⟩

/-! ## The rule of the search -/

/-- What the start and the nodes found have put into the queue, in order. -/
def queued (g : FlowGraph) (u : Text) (found : List Text) : List Text :=
  g.consumers u ++ found.flatMap g.consumers

/-- Each node of a list is the first one queued before it that is not found before it. -/
def IsBreadthFirst (g : FlowGraph) (u : Text) (l : List Text) : Prop :=
  ∀ a v b, l = a ++ v :: b → (g.queued u a).find? (· ∉ a) = some v

/-- What is queued by nodes up to some distance is at most one step further away. -/
theorem distance_le_of_mem_queued {found : List Text} {bound : Nat} (hv : v ∈ g.queued u found)
    (hfound : ∀ w ∈ found, TransGen g.Feeds u w ∧ g.distance u w ≤ bound) :
    g.distance u v ≤ bound + 1 := by
  rcases List.mem_append.1 hv with hv | hv
  · rw [distance_of_feeds (mem_consumers.1 hv)]
    exact Nat.succ_le_succ (Nat.zero_le bound)
  · obtain ⟨w, hw, hfeeds⟩ := List.mem_flatMap.1 hv
    obtain ⟨hreach, hle⟩ := hfound w hw
    exact (distance_le_succ hreach (mem_consumers.1 hfeeds)).trans (Nat.succ_le_succ hle)

/-- A list found breadth first goes on with the first node queued that is not found yet. -/
theorem IsBreadthFirst.append_next {l : List Text} (h : g.IsBreadthFirst u l)
    (hnext : (g.queued u l).find? (· ∉ l) = some v) : g.IsBreadthFirst u (l ++ [v]) :=
  @forall_split_append _ _ _ (fun a v => (g.queued u a).find? (· ∉ a) = some v) h hnext

/-- A search goes on breadth first if its queue is what was queued without nodes found already. -/
theorem isBreadthFirst_explore {rounds : Nat} {found queue taken : List Text}
    (hfound : g.IsBreadthFirst u found) (hqueued : g.queued u found = taken ++ queue)
    (htaken : taken ⊆ found) : g.IsBreadthFirst u (explore g.consumers rounds found queue) := by
  induction rounds generalizing found queue taken with
  | zero => exact hfound
  | succ rounds ih =>
    simp only [explore]
    split
    · exact hfound
    · next id rest hrest =>
      have hid : id ∉ found := not_mem_of_dropWhile hrest
      have hskipped : taken ++ queue.takeWhile (· ∈ found) ⊆ found :=
        List.append_subset.2 ⟨htaken, fun x hx => by simpa using List.mem_takeWhile_imp hx⟩
      have hsplit : g.queued u found = (taken ++ queue.takeWhile (· ∈ found)) ++ id :: rest := by
        rw [hqueued, List.append_assoc, ← hrest, List.takeWhile_append_dropWhile]
      have hnext : (g.queued u found).find? (· ∉ found) = some id := by
        refine List.find?_eq_some_iff_append.2 ⟨by simpa using hid, _, rest, hsplit, fun x hx => ?_⟩
        simpa using hskipped hx
      have hlater : g.queued u (found ++ [id]) =
          taken ++ queue.takeWhile (· ∈ found) ++ [id] ++ (rest ++ g.consumers id) :=
        calc g.queued u (found ++ [id]) = g.queued u found ++ g.consumers id := by
              simp [queued]
          _ = taken ++ queue.takeWhile (· ∈ found) ++ [id] ++ (rest ++ g.consumers id) := by
              simp [hsplit]
      refine ih (hfound.append_next hnext) hlater (List.append_subset.2 ⟨?_, ?_⟩)
      · exact List.Subset.trans hskipped (List.subset_append_left _ _)
      · exact List.subset_append_right _ _

/-- What is downstream of a node is found breadth first. -/
theorem isBreadthFirst_downstream (g : FlowGraph) (u : Text) : g.IsBreadthFirst u (g.downstream u) := by
  have hqueued : g.queued u [] = [] ++ g.consumers u := by
    simp [queued]
  refine isBreadthFirst_explore (fun a v b heq => ?_) hqueued (List.nil_subset _)
  exact absurd heq.symm (List.append_ne_nil_of_right_ne_nil _ (List.cons_ne_nil _ _))

/-! ## Lists found breadth first -/

namespace IsBreadthFirst

variable {l : List Text}

/-- No node is found twice. -/
theorem nodup (h : g.IsBreadthFirst u l) : l.Nodup :=
  nodup_of_forall_split fun a v b hab => by simpa using List.find?_some (h a v b hab)

/-- A node that the start does not feed is found behind a node that feeds it. -/
theorem exists_feeds_before {a b : List Text} (h : g.IsBreadthFirst u (a ++ v :: b))
    (hnot : ¬ g.Feeds u v) : ∃ w ∈ a, g.Feeds w v := by
  have hmem := List.mem_of_find?_eq_some (h a v b rfl)
  rcases List.mem_append.1 hmem with hmem | hmem
  · exact absurd (mem_consumers.1 hmem) hnot
  · obtain ⟨w, hw, hfeeds⟩ := List.mem_flatMap.1 hmem
    exact ⟨w, hw, mem_consumers.1 hfeeds⟩

/-- If a node that is queued is not found yet, then the next node found is queued by then as well. -/
theorem mem_queued {front back b : List Text} (h : g.IsBreadthFirst u (front ++ back ++ v :: b))
    (hw : w ∈ g.queued u front) (hnew : w ∉ front ++ back) : v ∈ g.queued u front := by
  have hfirst := h (front ++ back) v b rfl
  have hqueued : g.queued u (front ++ back) = g.queued u front ++ back.flatMap g.consumers := by
    simp [queued]
  rw [hqueued] at hfirst
  exact mem_of_find?_append hfirst hw (by simpa using hnew)

/--
A node comes before the nodes that are further away. The induction is on the distance of the other
node: what feeds that node from one step nearer either comes behind the node as well, or it has queued
the other node by then, so that the node itself was queued by then.
-/
theorem distance_le_of_before (h : g.IsBreadthFirst u l) (hall : ∀ v, TransGen g.Feeds u v ↔ v ∈ l)
    {a b : List Text} (heq : l = a ++ v :: b) (hw : w ∈ b) : g.distance u v ≤ g.distance u w := by
  induction hd : g.distance u w using Nat.strongRecOn generalizing a v b w with
  | ind d ih =>
    subst hd
    have hmem : w ∈ l := heq ▸ List.mem_append_right _ (List.mem_cons_of_mem _ hw)
    have hnew : w ∉ a := fun ha =>
      (List.nodup_append.1 (heq ▸ h.nodup)).2.2 w ha w (List.mem_cons_of_mem _ hw) rfl
    rcases feeds_or_exists_nearer ((hall w).2 hmem) with hfeeds | ⟨x, hx, hfeeds, hnear⟩
    · -- The start has queued the other node.
      have hqueued : w ∈ g.queued u [] := List.mem_append_left _ (mem_consumers.2 hfeeds)
      have hv : v ∈ g.queued u [] := mem_queued (heq ▸ h) hqueued hnew
      have hle : g.distance u v ≤ 0 + 1 :=
        distance_le_of_mem_queued hv fun y hy => absurd hy List.not_mem_nil
      rwa [distance_of_feeds hfeeds]
    · have hxmem := (hall x).1 hx
      rw [heq, List.mem_append, List.mem_cons] at hxmem
      rcases hxmem with hxa | rfl | hxb
      · -- A node found before this one has queued the other node.
        obtain ⟨front, back, rfl⟩ := List.append_of_mem hxa
        have hcut : front ++ x :: back = front ++ [x] ++ back := by simp
        have hqueued : w ∈ g.queued u (front ++ [x]) :=
          List.mem_append_right _ (List.mem_flatMap.2 ⟨x, by simp, mem_consumers.2 hfeeds⟩)
        have hfound : g.IsBreadthFirst u (front ++ [x] ++ back ++ v :: b) := by
          rw [← hcut, ← heq]
          exact h
        have hv : v ∈ g.queued u (front ++ [x]) := mem_queued hfound hqueued (hcut ▸ hnew)
        rw [← hnear]
        refine distance_le_of_mem_queued hv fun y hy => ?_
        rcases List.mem_append.1 hy with hy | hy
        · obtain ⟨c, d, rfl⟩ := List.append_of_mem hy
          refine ⟨(hall y).2 (by simp [heq]), ?_⟩
          exact ih _ (by omega) (a := c) (b := d ++ x :: back ++ v :: b) (by simp [heq]) (by simp) rfl
        · obtain rfl := List.mem_singleton.1 hy
          exact ⟨hx, Nat.le_refl _⟩
      · omega
      · have hle := ih _ (by omega) heq hxb rfl
        omega

/-- The nodes come in the order of their distances. -/
theorem pairwise_distance (h : g.IsBreadthFirst u l) (hall : ∀ v, TransGen g.Feeds u v ↔ v ∈ l) :
    l.Pairwise fun v w => g.distance u v ≤ g.distance u w := by
  refine List.pairwise_iff_forall_sublist.2 fun {v w} hvw => ?_
  obtain ⟨front, back, hl, hv, hw⟩ := List.cons_sublist_iff.1 hvw
  obtain ⟨a, b, rfl⟩ := List.append_of_mem hv
  have heq : l = a ++ v :: (b ++ back) := by
    rw [hl, List.append_assoc, List.cons_append]
  exact h.distance_le_of_before hall heq (List.mem_append_right _ (List.singleton_sublist.1 hw))

/-- Before a node at distance two or more comes the first node that feeds it, one step nearer. -/
theorem exists_discoverer (h : g.IsBreadthFirst u l) (hall : ∀ v, TransGen g.Feeds u v ↔ v ∈ l)
    (hv : v ∈ l) (hfar : 2 ≤ g.distance u v) :
    ∃ a w b c, l = a ++ w :: b ++ v :: c ∧ g.Feeds w v ∧ (∀ x ∈ a, ¬ g.Feeds x v) ∧
      g.distance u w + 1 = g.distance u v := by
  obtain ⟨before, c, rfl⟩ := List.append_of_mem hv
  have hnot : ¬ g.Feeds u v := fun hfeeds => by
    rw [distance_of_feeds hfeeds] at hfar
    omega
  obtain ⟨y, hy, hyv⟩ := h.exists_feeds_before hnot
  classical
  obtain ⟨w, hfind⟩ := Option.isSome_iff_exists.1
    (List.find?_isSome.2 ⟨y, hy, decide_eq_true hyv⟩ : (before.find? fun x => g.Feeds x v).isSome)
  obtain ⟨hw, a, b, rfl, hfirst⟩ := List.find?_eq_some_iff_append.1 hfind
  have hwv : g.Feeds w v := of_decide_eq_true hw
  have hfirst : ∀ x ∈ a, ¬ g.Feeds x v := fun x hx => by simpa using hfirst x hx
  refine ⟨a, w, b, c, by simp, hwv, hfirst, ?_⟩
  have hwreach : TransGen g.Feeds u w := (hall w).2 (by simp)
  have hle := distance_le_succ hwreach hwv
  obtain hfeeds | ⟨x, hx, hxv, hnear⟩ := feeds_or_exists_nearer ((hall v).2 hv)
  · exact absurd hfeeds hnot
  · have hxmem := (hall x).1 hx
    simp only [List.append_assoc, List.cons_append, List.mem_append, List.mem_cons] at hxmem
    rcases hxmem with hxa | rfl | hxb
    · exact absurd hxv (hfirst x hxa)
    · exact hnear
    · have hbefore : g.distance u w ≤ g.distance u x :=
        h.distance_le_of_before hall (a := a) (v := w) (b := b ++ v :: c) (by simp) (by simpa using hxb)
      omega

end IsBreadthFirst

end FlowGraph

/-! ## The search as a loop -/

namespace SearchLoop

variable {g : FlowGraph} {u id : Text} {found queue : List Text}

/-- The state in which some nodes were found and others are queued. -/
def ofLists (found queue : List Text) : SearchLoop :=
  ⟨found.toFinset, queue, found⟩

/-- A node that is visited again is dropped. -/
theorem turn_of_mem (h : id ∈ found) : turn g (ofLists found (id :: queue)) = ofLists found queue :=
  if_pos (List.mem_toFinset.2 h)

/-- A node that is visited first is found, and its consumers are queued. -/
theorem turn_of_not_mem (h : id ∉ found) :
    turn g (ofLists found (id :: queue)) = ofLists (found ++ [id]) (queue ++ g.consumers id) := by
  have hvisited : (found ++ [id]).toFinset = insert id found.toFinset := by
    ext x
    simp
  calc turn g (ofLists found (id :: queue))
      = ⟨insert id found.toFinset, queue ++ g.consumers id, found ++ [id]⟩ :=
        if_neg (mt List.mem_toFinset.1 h)
    _ = ofLists (found ++ [id]) (queue ++ g.consumers id) := by rw [ofLists, hvisited]

/-- The nodes at the front of the queue that were visited are dropped in some turns. -/
theorem exists_turns_dropWhile (g : FlowGraph) (found queue : List Text) :
    ∃ turns, (turn g)^[turns] (ofLists found queue) = ofLists found (queue.dropWhile (· ∈ found)) := by
  induction queue with
  | nil => exact ⟨0, rfl⟩
  | cons id rest ih =>
    by_cases h : id ∈ found
    · obtain ⟨turns, hturns⟩ := ih
      refine ⟨turns + 1, ?_⟩
      rw [Function.iterate_succ_apply, turn_of_mem h, hturns, List.dropWhile_cons_of_pos (by simpa using h)]
    · exact ⟨0, by rw [List.dropWhile_cons_of_neg (by simpa using h)]; rfl⟩

/-- The loop ends, with the nodes that the search by rounds finds. -/
theorem endsWith_explore {rounds : Nat} (h : g.Exploring rounds found queue) :
    EndsWith g (ofLists found queue) (FlowGraph.explore g.consumers rounds found queue) := by
  induction rounds generalizing found queue with
  | zero =>
    obtain ⟨turns, hturns⟩ := exists_turns_dropWhile g found queue
    have hempty : queue.dropWhile (· ∈ found) = [] :=
      List.dropWhile_eq_nil_iff.2 fun x hx => decide_eq_true (h.ids_subset (h.queue_subset hx))
    refine ⟨turns, ?_, ?_⟩ <;> rw [hturns, hempty]
    · rfl
    · rfl
  | succ rounds ih =>
    obtain ⟨turns, hturns⟩ := exists_turns_dropWhile g found queue
    rw [FlowGraph.explore]
    split
    · next hempty =>
      refine ⟨turns, ?_, ?_⟩ <;> rw [hturns, hempty]
      · rfl
      · rfl
    · next id rest hrest =>
      have hid : id ∉ found := FlowGraph.not_mem_of_dropWhile hrest
      obtain ⟨more, hqueue, hfound⟩ := ih (h.next hrest)
      have hstep : (turn g)^[more + (turns + 1)] (ofLists found queue) =
          (turn g)^[more] (ofLists (found ++ [id]) (rest ++ g.consumers id)) := by
        rw [Function.iterate_add_apply, Function.iterate_succ_apply', hturns, hrest, turn_of_not_mem hid]
      refine ⟨more + (turns + 1), ?_, ?_⟩ <;> rw [hstep]
      · exact hqueue
      · exact hfound

end SearchLoop

/--
What is downstream of a node, for any snapshot and any id. The search ends. It finds each node once that
is reached over edges between different nodes, so the node itself if it lies on a cycle with others, and
nothing from an id that is no node. The nodes come in the order of their distances, and each node that is
no consumer of the start comes behind the first node that feeds it, which is one step nearer.
-/
theorem Snapshot.downstream_breadth_first (s : Snapshot) (id : Text) :
    SearchLoop.EndsWith s.flow (.ofStart s.flow id) (s.flow.downstream id) ∧
      (s.flow.downstream id).Nodup ∧
      (∀ v, v ∈ s.flow.downstream id ↔ ∃ steps, 0 < steps ∧ s.flow.FeedsIn steps id v) ∧
      (id ∈ s.flow.downstream id ↔
        ∃ v, v ≠ id ∧ TransGen s.flow.Feeds id v ∧ TransGen s.flow.Feeds v id) ∧
      (id ∉ s.ids → s.flow.downstream id = []) ∧
      ((s.flow.downstream id).Pairwise fun v w => s.flow.distance id v ≤ s.flow.distance id w) ∧
      ∀ v ∈ s.flow.downstream id, 2 ≤ s.flow.distance id v →
        ∃ a w b c, s.flow.downstream id = a ++ w :: b ++ v :: c ∧ s.flow.Feeds w v ∧
          (∀ x ∈ a, ¬ s.flow.Feeds x v) ∧ s.flow.distance id w + 1 = s.flow.distance id v := by
  have hfirst := s.flow.isBreadthFirst_downstream id
  have hall : ∀ v, TransGen s.flow.Feeds id v ↔ v ∈ s.flow.downstream id :=
    fun v => FlowGraph.mem_downstream_iff.symm
  refine ⟨SearchLoop.endsWith_explore (s.flow.exploring_start id), hfirst.nodup,
    fun v => (hall v).symm.trans FlowGraph.transGen_iff_feedsIn, ?_, fun hid => ?_,
    hfirst.pairwise_distance hall, fun v hv hfar => hfirst.exists_discoverer hall hv hfar⟩
  · rw [← hall]
    constructor
    · intro hcycle
      obtain ⟨v, hfeeds, hback⟩ := TransGen.head'_iff.1 hcycle
      have hne : v ≠ id := hfeeds.1.symm
      refine ⟨v, hne, TransGen.single hfeeds, ?_⟩
      exact (reflTransGen_iff_eq_or_transGen.1 hback).resolve_left hne.symm
    · rintro ⟨v, -, hthere, hback⟩
      exact hthere.trans hback
  · refine List.eq_nil_iff_forall_not_mem.2 fun v hv => ?_
    obtain ⟨w, hfeeds, -⟩ := TransGen.head'_iff.1 ((hall v).2 hv)
    exact hid hfeeds.source_mem

end PipelineGraph
