import PipelineGraph.Graph.Tables
import PipelineGraph.Proofs.Graph.Placing

/-!
# What the tables of neighbours hold

The tables that one pass over the edges makes hold what a flow graph answers, so they agree with the
edges of the snapshot and with each other.
-/

namespace PipelineGraph

/-! ## Tables -/

namespace Table

variable {A : Type} {ids : List Text} {t : Table A} {key id : Text} {a : A}

/-- Entering an element brings no new id. -/
theorem keys_enter (t : Table A) (id : Text) (a : A) : (t.enter id a).map Prod.fst = t.map Prod.fst := by
  simp [enter]

/-- Nothing is listed in empty lists. -/
theorem of_empty (ids : List Text) (id : Text) : (empty ids : Table A).of id = [] := by
  induction ids with
  | nil => rfl
  | cons first rest ih =>
    simp only [of, empty, List.map_cons, List.lookup_cons] at ih ⊢
    split
    · rfl
    · exact ih

/-- Entering an element changes the list under its id alone. -/
theorem of_enter (hid : id ∈ t.map Prod.fst) :
    (t.enter id a).of key = if key = id then t.of key ++ [a] else t.of key := by
  simp only [of, enter]
  rw [Placing.lookup_map_value fun key items => if key = id then items ++ [a] else items]
  by_cases hkey : key = id
  · have hfound : t.lookup id ≠ none := by
      intro hnone
      obtain ⟨entry, hentry, heq⟩ := List.mem_map.1 hid
      have hdiffers := List.lookup_eq_none_iff.1 hnone entry hentry
      simp [heq] at hdiffers
    obtain ⟨items, hitems⟩ := Option.ne_none_iff_exists'.1 hfound
    simp [hkey, hitems]
  · cases t.lookup key <;> simp [hkey]

/-- Entering an element that may stand there brings no new id. -/
theorem keys_enterOnce [DecidableEq A] (t : Table A) (id : Text) (a : A) :
    (t.enterOnce id a).map Prod.fst = t.map Prod.fst := by
  unfold enterOnce
  split
  · rfl
  · exact keys_enter t id a

/-- Entering an element that may stand there changes the list under its id alone, or nothing. -/
theorem of_enterOnce [DecidableEq A] (hid : id ∈ t.map Prod.fst) :
    (t.enterOnce id a).of key = if key = id ∧ a ∉ t.of id then t.of key ++ [a] else t.of key := by
  unfold enterOnce
  by_cases ha : a ∈ t.of id
  · simp [ha]
  · simp [ha, of_enter hid]

end Table

/-! ## Neighbours -/

/-- The elements of a longer list without repetition. -/
theorem firstOccurrences_concat {A : Type} [DecidableEq A] (l : List A) (a : A) :
    firstOccurrences (l ++ [a]) =
      if a ∈ l then firstOccurrences l else firstOccurrences l ++ [a] := by
  induction l with
  | nil => simp [firstOccurrences]
  | cons b rest ih =>
    rw [List.cons_append, firstOccurrences, ih]
    by_cases hrest : a ∈ rest
    · simp [hrest, firstOccurrences]
    · by_cases hab : a = b
      · subst hab
        simp [hrest, firstOccurrences]
      · simp [hrest, hab, firstOccurrences]

/-- Repetitions are left out in the order in which the elements come first. -/
theorem firstOccurrences_ordered {A B : Type} [DecidableEq B] (f : A → Option B) (l : List A) :
    (firstOccurrences (l.filterMap f)).Pairwise fun b c =>
      l.findIdx (f · = some b) < l.findIdx (f · = some c) := by
  induction l with
  | nil => exact List.Pairwise.nil
  | cons a rest ih =>
    have hlater : ∀ b c, f a ≠ some b → f a ≠ some c →
        rest.findIdx (f · = some b) < rest.findIdx (f · = some c) →
        (a :: rest).findIdx (f · = some b) < (a :: rest).findIdx (f · = some c) := by
      intro b c hb hc hlt
      simpa [List.findIdx_cons, hb, hc] using hlt
    cases ha : f a with
    | none =>
      rw [List.filterMap_cons_none ha]
      exact ih.imp fun h => hlater _ _ (by simp [ha]) (by simp [ha]) h
    | some first =>
      rw [List.filterMap_cons_some ha, firstOccurrences]
      refine List.pairwise_cons.2 ⟨fun b hb => ?_, ?_⟩
      · have hne : b ≠ first := of_decide_eq_true (List.mem_filter.1 hb).2
        simp [List.findIdx_cons, ha, hne.symm]
      · have hother : ∀ b ∈ (firstOccurrences (rest.filterMap f)).filter (· ≠ first), f a ≠ some b := by
          intro b hb heq
          have hne : b ≠ first := of_decide_eq_true (List.mem_filter.1 hb).2
          exact hne (Option.some.inj (heq.symm.trans ha))
        exact (ih.filter _).imp_of_mem fun hb hc h => hlater _ _ (hother _ hb) (hother _ hc) h

/-- The nodes at the far ends of the edges whose near ends are a node, once each and without the node. -/
def neighbours (near far : Edge → Text) (edges : List Edge) (id : Text) : List Text :=
  firstOccurrences (((edges.filter (near · = id)).map far).filter (· ≠ id))

section Neighbours

variable (near far : Edge → Text)

/-- One more edge brings one more neighbour at most. -/
theorem neighbours_concat (edges : List Edge) (e : Edge) (id : Text) :
    neighbours near far (edges ++ [e]) id =
      if near e = id ∧ far e ≠ id ∧ far e ∉ neighbours near far edges id then
        neighbours near far edges id ++ [far e]
      else neighbours near far edges id := by
  by_cases hnear : near e = id
  · by_cases hfar : far e = id
    · simp [neighbours, hnear, hfar]
    · have hlonger : (((edges ++ [e]).filter (near · = id)).map far).filter (· ≠ id) =
          ((edges.filter (near · = id)).map far).filter (· ≠ id) ++ [far e] := by
        simp [hnear, hfar]
      unfold neighbours
      rw [hlonger, firstOccurrences_concat]
      by_cases hold : far e ∈ ((edges.filter (near · = id)).map far).filter (· ≠ id)
      · rw [if_pos hold, if_neg fun h => h.2.2 (mem_firstOccurrences.2 hold)]
      · rw [if_neg hold, if_pos ⟨hnear, hfar, fun h => hold (mem_firstOccurrences.1 h)⟩]
  · simp [neighbours, hnear]

/-- The neighbour that an edge with a property brings a node. -/
def neighbour? (p : Edge → Bool) (id : Text) (e : Edge) : Option Text :=
  if p e ∧ near e = id ∧ far e ≠ id then some (far e) else none

/-- An edge with a property brings its far end to its near end. -/
theorem neighbour?_eq_some {p : Edge → Bool} {id v : Text} {e : Edge} :
    neighbour? near far p id e = some v ↔ (p e ∧ near e = id ∧ far e = v) ∧ v ≠ id := by
  rw [neighbour?, Option.ite_none_right_eq_some, Option.some.injEq]
  constructor
  · rintro ⟨⟨hp, hnear, hne⟩, rfl⟩
    exact ⟨⟨hp, hnear, rfl⟩, hne⟩
  · rintro ⟨⟨hp, hnear, rfl⟩, hne⟩
    exact ⟨⟨hp, hnear, hne⟩, rfl⟩

/-- The neighbours that edges with a property bring a node. -/
theorem neighbours_filter (p : Edge → Bool) (edges : List Edge) (id : Text) :
    neighbours near far (edges.filter p) id = firstOccurrences (edges.filterMap (neighbour? near far p id)) := by
  refine congrArg firstOccurrences ?_
  induction edges with
  | nil => rfl
  | cons e rest ih =>
    rw [List.filterMap_cons, ← ih, neighbour?]
    by_cases hp : p e = true
    · by_cases hnear : near e = id
      · by_cases hfar : far e = id
        · simp [hp, hnear, hfar]
        · simp [hp, hnear, hfar]
      · simp [hp, hnear]
    · simp [hp]

/-- Neighbours stand in the order of the first edges to them. -/
theorem neighbours_ordered (p : Edge → Bool) (edges : List Edge) (id : Text) :
    (neighbours near far (edges.filter p) id).Pairwise fun v w =>
      edges.findIdx (fun e => p e ∧ near e = id ∧ far e = v) <
        edges.findIdx (fun e => p e ∧ near e = id ∧ far e = w) := by
  have hfirst : ∀ v ∈ neighbours near far (edges.filter p) id,
      (fun e => decide (neighbour? near far p id e = some v)) =
        fun e => decide (p e ∧ near e = id ∧ far e = v) := by
    refine fun v hv => funext fun e => decide_eq_decide.2 ?_
    have hne : v ≠ id := of_decide_eq_true (List.mem_filter.1 (mem_firstOccurrences.1 hv)).2
    rw [neighbour?_eq_some, and_iff_left hne]
  have hordered := firstOccurrences_ordered (neighbour? near far p id) edges
  rw [← neighbours_filter] at hordered
  refine hordered.imp_of_mem fun hv hw h => ?_
  rwa [hfirst _ hv, hfirst _ hw] at h

end Neighbours

/-! ## One pass over the edges -/

/-- The tables of some nodes after some edges. -/
structure Tables.Hold (t : Tables) (ids : List Text) (edges : List Edge) : Prop where
  outgoing_keys : t.outgoing.map Prod.fst = ids
  producers_keys : t.producers.map Prod.fst = ids
  consumers_keys : t.consumers.map Prod.fst = ids
  outgoing : ∀ id, t.outgoing.of id = edges.filter (·.source = id)
  producers : ∀ id, t.producers.of id = neighbours Edge.target Edge.source edges id
  consumers : ∀ id, t.consumers.of id = neighbours Edge.source Edge.target edges id

/-- One more edge between nodes is entered. -/
theorem Tables.Hold.add {t : Tables} {ids : List Text} {edges : List Edge} (h : t.Hold ids edges) {e : Edge}
    (hsource : e.source ∈ ids) (htarget : e.target ∈ ids) : (t.add e).Hold ids (edges ++ [e]) := by
  have houtgoing : ∀ id, (t.outgoing.enter e.source e).of id = (edges ++ [e]).filter (·.source = id) := by
    intro id
    rw [Table.of_enter (h.outgoing_keys ▸ hsource), h.outgoing, List.filter_append]
    by_cases hid : id = e.source
    · simp [hid]
    · simp [hid, Ne.symm hid]
  unfold Tables.add
  split
  · next hloop =>
    refine ⟨?_, h.producers_keys, h.consumers_keys, houtgoing, fun id => ?_, fun id => ?_⟩
    · rw [Table.keys_enter, h.outgoing_keys]
    · rw [neighbours_concat, if_neg (by rintro ⟨rfl, hne, -⟩; exact hne hloop), h.producers]
    · rw [neighbours_concat, if_neg (by rintro ⟨rfl, hne, -⟩; exact hne hloop.symm), h.consumers]
  · next hends =>
    refine ⟨?_, ?_, ?_, houtgoing, fun id => ?_, fun id => ?_⟩
    · rw [Table.keys_enter, h.outgoing_keys]
    · rw [Table.keys_enterOnce, h.producers_keys]
    · rw [Table.keys_enterOnce, h.consumers_keys]
    · rw [neighbours_concat, Table.of_enterOnce (h.producers_keys ▸ htarget), h.producers, h.producers]
      by_cases hid : id = e.target
      · subst hid
        simp [hends]
      · simp [hid, Ne.symm hid]
    · rw [neighbours_concat, Table.of_enterOnce (h.consumers_keys ▸ hsource), h.consumers, h.consumers]
      by_cases hid : id = e.source
      · subst hid
        simp [Ne.symm hends]
      · simp [hid, Ne.symm hid]

/-- The tables of a flow graph hold its edges. -/
theorem FlowGraph.tables_hold (g : FlowGraph) : g.tables.Hold g.ids g.edges := by
  have hclosed : ∀ e ∈ g.edges, e.source ∈ g.ids ∧ e.target ∈ g.ids := g.closed
  unfold tables
  generalize g.edges = edges at hclosed
  induction edges using List.reverseRecOn with
  | nil =>
    have hkeys : ∀ A, (Table.empty g.ids : Table A).map Prod.fst = g.ids := fun A => by
      simp [Table.empty, Function.comp_def]
    exact ⟨hkeys _, hkeys _, hkeys _, Table.of_empty _, Table.of_empty _, Table.of_empty _⟩
  | append_singleton edges e ih =>
    obtain ⟨hsource, htarget⟩ := hclosed e (by simp)
    rw [List.foldl_concat]
    exact (ih fun e he => hclosed e (List.mem_append_left _ he)).add hsource htarget

/-! ## Edges and their neighbours -/

/-- Edges taken from node to node are the edges that leave these nodes. -/
theorem flatMap_outgoing_perm {ids : List Text} (hids : ids.Nodup) (edges : List Edge) :
    (ids.flatMap fun id => edges.filter (·.source = id)).Perm (edges.filter (·.source ∈ ids)) := by
  induction ids with
  | nil => simp
  | cons id rest ih =>
    obtain ⟨hid, hrest⟩ := List.nodup_cons.1 hids
    have hfirst : (edges.filter (·.source ∈ id :: rest)).filter (·.source = id) =
        edges.filter (·.source = id) := by
      rw [List.filter_filter]
      exact List.filter_congr fun e _ => by simp +contextual
    have hothers : (edges.filter (·.source ∈ id :: rest)).filter (fun e => !decide (e.source = id)) =
        edges.filter (·.source ∈ rest) := by
      rw [List.filter_filter]
      refine List.filter_congr fun e _ => ?_
      by_cases heq : e.source = id
      · simp [heq, hid]
      · simp [heq]
    rw [List.flatMap_cons]
    refine ((ih hrest).append_left _).trans ?_
    rw [← hfirst, ← hothers]
    exact List.filter_append_perm _ _

namespace Snapshot

variable {s : Snapshot} {u v : Text}

/-- The position of the first edge from a node to another; the number of edges if there is none. -/
def firstEdge (s : Snapshot) (u v : Text) : Nat :=
  s.edges.findIdx fun e => e.source = u ∧ e.target = v

/-- A node feeds another one if an edge of the snapshot leads to it. -/
theorem feeds_flow_iff :
    s.flow.Feeds u v ↔ u ∈ s.ids ∧ v ∈ s.ids ∧ u ≠ v ∧ ∃ e ∈ s.edges, e.source = u ∧ e.target = v := by
  constructor
  · intro h
    have hsnapshot := h
    obtain ⟨hne, e, he, hsource, htarget⟩ := hsnapshot
    exact ⟨h.source_mem, h.target_mem, hne, e, (List.mem_filter.1 he).1, hsource, htarget⟩
  · rintro ⟨hu, hv, hne, e, he, rfl, rfl⟩
    exact ⟨hne, e, List.mem_filter.2 ⟨he, decide_eq_true ⟨hu, hv⟩⟩, rfl, rfl⟩

/-- Between nodes the first edge is the first one that does not dangle. -/
theorem findIdx_of_feeds (h : s.flow.Feeds u v) {p : Edge → Bool}
    (hp : ∀ e, p e = true ↔ s.connects e = true ∧ e.source = u ∧ e.target = v) :
    s.edges.findIdx p = s.firstEdge u v := by
  obtain ⟨hu, hv, -⟩ := feeds_flow_iff.1 h
  refine congrArg (s.edges.findIdx ·) (funext fun e => Bool.eq_iff_iff.2 ?_)
  rw [hp, decide_eq_true_iff]
  refine and_iff_right_of_imp ?_
  rintro ⟨rfl, rfl⟩
  exact decide_eq_true ⟨hu, hv⟩

/-- Consumers stand in the order of the first edges to them. -/
theorem consumers_ordered (s : Snapshot) (u : Text) :
    (s.flow.consumers u).Pairwise fun v w => s.firstEdge u v < s.firstEdge u w := by
  refine (neighbours_ordered Edge.source Edge.target s.connects s.edges u).imp_of_mem fun hv hw h => ?_
  rwa [findIdx_of_feeds (FlowGraph.mem_consumers.1 hv) (by simp),
    findIdx_of_feeds (FlowGraph.mem_consumers.1 hw) (by simp)] at h

/-- Producers stand in the order of the first edges from them. -/
theorem producers_ordered (s : Snapshot) (v : Text) :
    (s.flow.producers v).Pairwise fun u w => s.firstEdge u v < s.firstEdge w v := by
  refine (neighbours_ordered Edge.target Edge.source s.connects s.edges v).imp_of_mem fun hu hw h => ?_
  rwa [findIdx_of_feeds (FlowGraph.mem_producers.1 hu) (by simp [and_comm]),
    findIdx_of_feeds (FlowGraph.mem_producers.1 hw) (by simp [and_comm])] at h

/-- The edges that leave a node are the edges of the snapshot from it to nodes. -/
theorem outgoing_eq (s : Snapshot) (u : Text) :
    s.flow.outgoing u = s.edges.filter fun e => e.source = u ∧ u ∈ s.ids ∧ e.target ∈ s.ids := by
  rw [FlowGraph.outgoing, flow, List.filter_filter]
  refine List.filter_congr fun e _ => ?_
  rw [connects, Bool.and_eq_decide]
  refine decide_eq_decide.2 ?_
  simp only [decide_eq_true_eq]
  refine and_congr_right fun hsource => ?_
  rw [hsource]

/--
The tables of a snapshot, made in one pass over its edges, have a list under each node and agree with the
edges and with each other. One node is a consumer of another exactly if the other is a producer of it, that
is if the two differ and an edge leads from the one to the other; consumers and producers are listed once
each, in the order of their first edges. The edges that leave a node are those of the snapshot that lead
from it to a node, all of them in their order, and the consumers are their other ends without repetition.
From node to node, these are all edges between nodes.
-/
theorem tables_agree (s : Snapshot) :
    let t := s.flow.tables
    (t.outgoing.map Prod.fst = s.ids ∧ t.producers.map Prod.fst = s.ids ∧
      t.consumers.map Prod.fst = s.ids) ∧
    (∀ id, s.flow.outgoing id = t.outgoing.of id ∧ s.flow.producers id = t.producers.of id ∧
      s.flow.consumers id = t.consumers.of id) ∧
    (∀ u v, (v ∈ t.consumers.of u ↔ u ∈ t.producers.of v) ∧
      (v ∈ t.consumers.of u ↔
        u ∈ s.ids ∧ v ∈ s.ids ∧ u ≠ v ∧ ∃ e ∈ s.edges, e.source = u ∧ e.target = v)) ∧
    (∀ u, (t.consumers.of u).Nodup ∧
      (t.consumers.of u).Pairwise fun v w => s.firstEdge u v < s.firstEdge u w) ∧
    (∀ v, (t.producers.of v).Nodup ∧
      (t.producers.of v).Pairwise fun u w => s.firstEdge u v < s.firstEdge w v) ∧
    (∀ u, t.outgoing.of u = s.edges.filter fun e => e.source = u ∧ u ∈ s.ids ∧ e.target ∈ s.ids) ∧
    (∀ u, t.consumers.of u = firstOccurrences (((t.outgoing.of u).map (·.target)).filter (· ≠ u))) ∧
    (s.ids.flatMap t.outgoing.of).Perm
      (s.edges.filter fun e => e.source ∈ s.ids ∧ e.target ∈ s.ids) := by
  intro t
  have hold : t.Hold s.ids s.flow.edges := s.flow.tables_hold
  have houtgoing : t.outgoing.of = s.flow.outgoing := funext hold.outgoing
  have hproducers : t.producers.of = s.flow.producers := funext hold.producers
  have hconsumers : t.consumers.of = s.flow.consumers := funext hold.consumers
  rw [houtgoing, hproducers, hconsumers]
  refine ⟨⟨hold.outgoing_keys, hold.producers_keys, hold.consumers_keys⟩, fun _ => ⟨rfl, rfl, rfl⟩,
    fun u v => ⟨?_, FlowGraph.mem_consumers.trans feeds_flow_iff⟩,
    fun u => ⟨s.flow.nodup_consumers u, s.consumers_ordered u⟩,
    fun v => ⟨s.flow.nodup_producers v, s.producers_ordered v⟩, s.outgoing_eq, fun _ => rfl, ?_⟩
  · exact FlowGraph.mem_consumers.trans FlowGraph.mem_producers.symm
  · have hedges : s.flow.edges.filter (·.source ∈ s.ids) = s.flow.edges :=
      List.filter_eq_self.2 fun e he => decide_eq_true (s.flow.closed e he).1
    have hperm := flatMap_outgoing_perm s.distinct s.flow.edges
    rw [← ids, hedges] at hperm
    exact hperm

end Snapshot

end PipelineGraph
