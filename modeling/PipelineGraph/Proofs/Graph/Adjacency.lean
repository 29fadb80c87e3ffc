import PipelineGraph.Graph.Flow
import Mathlib.Data.List.Nodup

/-!
# Who feeds whom

A node feeds another one if an edge of the flow graph leads from the first to the second and the
two differ. The lists of consumers and of producers hold exactly these nodes, once each.
-/

namespace PipelineGraph

section FirstOccurrences

variable {A : Type} [DecidableEq A]

/-- Leaving out repetitions loses no element. -/
@[simp] theorem mem_firstOccurrences {a : A} {l : List A} : a ∈ firstOccurrences l ↔ a ∈ l := by
  induction l with
  | nil => simp [firstOccurrences]
  | cons b rest ih =>
    by_cases hab : a = b
    · simp [firstOccurrences, hab]
    · simp [firstOccurrences, hab, ih]

/-- Every element is kept once. -/
theorem nodup_firstOccurrences (l : List A) : (firstOccurrences l).Nodup := by
  induction l with
  | nil => simp [firstOccurrences]
  | cons b rest ih =>
    rw [firstOccurrences, List.nodup_cons]
    exact ⟨by simp, ih.filter _⟩

end FirstOccurrences

namespace FlowGraph

variable {g : FlowGraph} {u v : Text}

/-- An edge leads from the first node to the second, and the two differ. -/
def Feeds (g : FlowGraph) (u v : Text) : Prop :=
  u ≠ v ∧ ∃ e ∈ g.edges, e.source = u ∧ e.target = v

/-- The consumers of a node are the nodes that it feeds. -/
@[simp] theorem mem_consumers : v ∈ g.consumers u ↔ g.Feeds u v := by
  simp only [consumers, targets, outgoing, mem_firstOccurrences, List.mem_filter, List.mem_map,
    decide_eq_true_eq, Feeds]
  constructor
  · rintro ⟨⟨e, ⟨he, hsource⟩, htarget⟩, hne⟩
    exact ⟨fun h => hne h.symm, e, he, hsource, htarget⟩
  · rintro ⟨hne, e, he, hsource, htarget⟩
    exact ⟨⟨e, ⟨he, hsource⟩, htarget⟩, fun h => hne h.symm⟩

/-- The producers of a node are the nodes that feed it. -/
@[simp] theorem mem_producers : u ∈ g.producers v ↔ g.Feeds u v := by
  simp only [producers, mem_firstOccurrences, List.mem_filter, List.mem_map, decide_eq_true_eq,
    Feeds]
  constructor
  · rintro ⟨⟨e, ⟨he, htarget⟩, hsource⟩, hne⟩
    exact ⟨hne, e, he, hsource, htarget⟩
  · rintro ⟨hne, e, he, hsource, htarget⟩
    exact ⟨⟨e, ⟨he, htarget⟩, hsource⟩, hne⟩

/-- No consumer is listed twice. -/
theorem nodup_consumers (g : FlowGraph) (u : Text) : (g.consumers u).Nodup :=
  nodup_firstOccurrences _

/-- No producer is listed twice. -/
theorem nodup_producers (g : FlowGraph) (v : Text) : (g.producers v).Nodup :=
  nodup_firstOccurrences _

/-- What feeds a node is a node. -/
theorem Feeds.source_mem (h : g.Feeds u v) : u ∈ g.ids := by
  obtain ⟨-, e, he, rfl, -⟩ := h
  exact (g.closed e he).1

/-- What a node feeds is a node. -/
theorem Feeds.target_mem (h : g.Feeds u v) : v ∈ g.ids := by
  obtain ⟨-, e, he, -, rfl⟩ := h
  exact (g.closed e he).2

/-- The ids of the nodes are distinct. -/
theorem nodup_ids (g : FlowGraph) : g.ids.Nodup :=
  g.distinct

/-! ## Nodes by their ids -/

section Nodes

variable {n : Node} {id : Text}

/-- A node that is found has the id that was asked for. -/
theorem id_of_node? (h : g.node? id = some n) : n.id = id :=
  of_decide_eq_true (List.find?_some (p := fun n : Node => decide (n.id = id)) h)

/-- The node of an id. -/
theorem exists_node? (h : id ∈ g.ids) : ∃ n, g.node? id = some n := by
  obtain ⟨n, hn, hid⟩ := List.mem_map.1 h
  exact Option.isSome_iff_exists.1 (List.find?_isSome.2 ⟨n, hn, decide_eq_true hid⟩)

/-- A node is found by its id. -/
theorem node?_of_mem (h : n ∈ g.nodes) : g.node? n.id = some n := by
  obtain ⟨m, hm⟩ := exists_node? (List.mem_map_of_mem h : n.id ∈ g.ids)
  have hmem : m ∈ g.nodes := List.mem_of_find?_eq_some hm
  rw [hm, List.inj_on_of_nodup_map g.distinct hmem h (id_of_node? hm)]

/-- A simulation starts at a node. -/
theorem mem_of_start? (h : g.start? = some n) : n ∈ g.nodes := by
  unfold start? at h
  cases hfind : g.nodes.find? fun n => n.kind = .trigger with
  | some m =>
    rw [hfind] at h
    cases h
    exact List.mem_of_find?_eq_some hfind
  | none =>
    rw [hfind] at h
    exact List.mem_of_head? h

/-- A simulation has nowhere to start only if there are no nodes. -/
theorem start?_eq_none_iff : g.start? = none ↔ g.nodes = [] := by
  constructor
  · intro h
    cases hnodes : g.nodes with
    | nil => rfl
    | cons n rest =>
      unfold start? at h
      rw [hnodes] at h
      cases hfind : (n :: rest).find? fun n => n.kind = .trigger with
      | some m =>
        rw [hfind] at h
        cases h
      | none =>
        rw [hfind] at h
        cases h
  · intro h
    unfold start?
    rw [h]
    rfl

end Nodes

end FlowGraph

end PipelineGraph
