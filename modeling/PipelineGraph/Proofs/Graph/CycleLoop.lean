import PipelineGraph.Graph.CycleLoop
import PipelineGraph.Proofs.Graph.CycleSearch
import Mathlib.Data.Finset.Dedup

/-!
# The search for a cycle as a loop

The search with a stack of its own always returns, and what it returns is what the search by recursion
finds, so the facts about the one hold of the other.
-/

namespace PipelineGraph

open Relation

namespace CycleLoop

variable {g : FlowGraph} {s : CycleLoop} {result : Option (List Text)} {roots path finished : List Text}
  {stack : List (Text × List Edge)} {id : Text}

/-- The loop returns no more than one result. -/
theorem Returns.unique (h : Returns g s result) {result' : Option (List Text)} (h' : Returns g s result') :
    result = result' := by
  induction h with
  | stop hstop =>
    cases h' with
    | stop hstop' => exact Sum.inr.inj (hstop.symm.trans hstop')
    | next _ hnext => cases hstop.symm.trans hnext
  | next _ hnext _ ih =>
    cases h' with
    | stop hstop => cases hnext.symm.trans hstop
    | next _ hnext' hrest' => exact ih (Sum.inl.inj (hnext.symm.trans hnext') ▸ hrest')

/-! ## The loop and the recursion -/

/-- The state that a search by recursion stands for: the nodes of a path are open, and some nodes are
finished. -/
def ofLists (roots : List Text) (stack : List (Text × List Edge)) (path finished : List Text) : CycleLoop :=
  ⟨roots, stack, path, path.toFinset, finished.toFinset⟩

/-- A part of a search by recursion tells what the loop returns: a cycle at once, or what it returns
from where it goes on. -/
def Resumes (result : Option (List Text)) (goesOn : List Text → Prop) : Except (List Text) (List Text) → Prop
  | .error cycle => result = some cycle
  | .ok finished => goesOn finished

/-- The part of a list from an element on. -/
theorem drop_idxOf (l : List Text) (a : Text) : l.drop (l.idxOf a) = l.dropWhile (· ≠ a) := by
  induction l with
  | nil => rfl
  | cons b rest ih =>
    by_cases h : b = a
    · subst h
      simp
    · rw [List.idxOf_cons_ne _ h, List.drop_succ_cons, ih]
      exact (List.dropWhile_cons_of_pos (p := fun x => decide (x ≠ a)) (decide_eq_true h)).symm

/-- The loop follows the edges of the innermost node one by one, and comes back from it. -/
theorem returns_edges (room : Nat) (hnodup : (path ++ [id]).Nodup)
    (hsearch : ∀ {target : Text} {stack : List (Text × List Edge)} {finished : List Text},
      g.Leads id target → target ∉ path ++ [id] →
      Resumes result (fun finished => Returns g (ofLists roots stack (path ++ [id]) finished) result)
        (FlowGraph.searchFrom g.targets room (path ++ [id]) finished target) →
      Returns g (ofLists roots ((target, g.outgoing target) :: stack) (path ++ [id] ++ [target]) finished) result)
    {edges : List Edge} (hedges : ∀ e ∈ edges, g.Leads id e.target)
    (h : Resumes result (fun finished => Returns g (ofLists roots stack path (id :: finished)) result)
      ((edges.map (·.target)).foldlM (FlowGraph.searchTarget g.targets room (path ++ [id])) finished)) :
    Returns g (ofLists roots ((id, edges) :: stack) (path ++ [id]) finished) result := by
  induction edges generalizing finished with
  | nil =>
    have hid : id ∉ path := fun hmem =>
      (List.nodup_append.1 hnodup).2.2 id hmem id (List.mem_singleton_self id) rfl
    have herase : (path ++ [id]).toFinset.erase id = path.toFinset := by
      rw [List.toFinset_append, List.toFinset_cons, List.toFinset_nil, Finset.erase_union_distrib]
      simp [hid]
    refine .next (ofLists roots stack path (id :: finished)) ?_ h
    simp only [step, ofLists, List.dropLast_concat, herase, List.toFinset_cons]
  | cons e edges ih =>
    have hleads := hedges e List.mem_cons_self
    have hrest := fun e he => hedges e (List.mem_cons_of_mem _ he)
    rw [List.map_cons, List.foldlM_cons, FlowGraph.searchTarget] at h
    by_cases hback : e.target ∈ path ++ [id]
    · rw [if_pos hback] at h
      obtain rfl : result = some _ := h
      refine .stop ?_
      simp only [step, ofLists, List.mem_toFinset, if_pos hback, drop_idxOf]
    · rw [if_neg hback] at h
      by_cases hknown : e.target ∈ finished
      · rw [if_pos hknown] at h
        refine .next (ofLists roots ((id, edges) :: stack) (path ++ [id]) finished) ?_ (ih hrest h)
        simp only [step, ofLists, List.mem_toFinset, if_neg hback, if_pos hknown]
      · rw [if_neg hknown] at h
        refine .next (ofLists roots ((e.target, g.outgoing e.target) :: (id, edges) :: stack)
          (path ++ [id] ++ [e.target]) finished) ?_ (hsearch hleads hback ?_)
        · have hinsert : insert e.target (path ++ [id]).toFinset = (path ++ [id] ++ [e.target]).toFinset := by
            ext x
            simp [or_left_comm]
          simp only [step, ofLists, List.mem_toFinset, if_neg hback, if_neg hknown, hinsert]
        · cases hsub : FlowGraph.searchFrom g.targets room (path ++ [id]) finished e.target with
          | error cycle =>
            rw [hsub] at h
            exact h
          | ok settled =>
            rw [hsub] at h
            exact ih hrest h

/-- What the loop returns from a node that has just been opened, by the search by recursion. -/
theorem returns_node (room : Nat) (hnodup : (path ++ [id]).Nodup) (hsub : path ++ [id] ⊆ g.ids)
    (hroom : g.nodes.length ≤ room + path.length)
    (h : Resumes result (fun finished => Returns g (ofLists roots stack path finished) result)
      (FlowGraph.searchFrom g.targets room path finished id)) :
    Returns g (ofLists roots ((id, g.outgoing id) :: stack) (path ++ [id]) finished) result := by
  induction room generalizing path finished id stack with
  | zero =>
    have hle := (hnodup.subperm hsub).length_le
    rw [List.length_append, List.length_singleton, FlowGraph.ids, List.length_map] at hle
    omega
  | succ room ih =>
    refine returns_edges room hnodup (fun {target stack finished} hleads hnew hresumes => ?_)
      (fun e he => List.mem_map_of_mem he) ?_
    · refine ih ?_ ?_ ?_ hresumes
      · refine List.nodup_append.2 ⟨hnodup, List.nodup_singleton _, fun a ha b hb => ?_⟩
        rintro rfl
        exact hnew (List.mem_singleton.1 hb ▸ ha)
      · exact List.append_subset.2 ⟨hsub, by simpa using hleads.target_mem⟩
      · rw [List.length_append, List.length_singleton]
        omega
    · rw [FlowGraph.searchFrom_succ, FlowGraph.targets] at h
      cases hfold : ((g.outgoing id).map (·.target)).foldlM
          (FlowGraph.searchTarget g.targets room (path ++ [id])) finished with
      | error cycle =>
        rw [hfold] at h
        exact h
      | ok settled =>
        rw [hfold] at h
        exact h

/-- What the loop returns from a root that is still to be tried. -/
theorem returns_roots (h : Resumes result (fun _ => result = none) (roots.foldlM (fun finished root =>
      if root ∈ finished ∨ root ∉ g.ids then .ok finished
      else FlowGraph.searchFrom g.targets g.nodes.length [] finished root) finished)) :
    Returns g (ofLists roots [] [] finished) result := by
  induction roots generalizing finished with
  | nil =>
    obtain rfl : result = none := h
    exact .stop rfl
  | cons root roots ih =>
    rw [List.foldlM_cons] at h
    by_cases hskip : root ∈ finished ∨ root ∉ g.ids
    · rw [if_pos hskip] at h
      refine .next (ofLists roots [] [] finished) ?_ (ih h)
      simp only [step, ofLists, List.mem_toFinset, if_pos hskip]
    · rw [if_neg hskip] at h
      refine .next (ofLists roots [(root, g.outgoing root)] ([] ++ [root]) finished) ?_
        (returns_node g.nodes.length (List.nodup_singleton root) ?_ (Nat.le_add_right _ _) ?_)
      · simp only [step, ofLists, List.mem_toFinset, if_neg hskip]
        rfl
      · simpa using not_not.1 (not_or.1 hskip).2
      · cases hsub : FlowGraph.searchFrom g.targets g.nodes.length [] finished root with
        | error cycle =>
          rw [hsub] at h
          exact h
        | ok settled =>
          rw [hsub] at h
          exact ih h

/-- The loop returns what the search by recursion finds. -/
theorem returns_iff (g : FlowGraph) (start : Option Text) :
    Returns g (ofStart g start) result ↔ result = g.findCycle? start := by
  have hreturns : ∀ roots, Returns g (ofLists roots [] [] []) (match g.searchRoots roots with
      | .error cycle => some cycle
      | .ok _ => none) := by
    intro roots
    refine returns_roots ?_
    unfold FlowGraph.searchRoots
    split
    · next cycle hsearch =>
      rw [hsearch]
      rfl
    · next finished hsearch =>
      rw [hsearch]
      rfl
  have hstart : Returns g (ofStart g start) (g.findCycle? start) := by
    cases start with
    | none => exact hreturns g.ids
    | some id => exact hreturns [id]
  exact ⟨fun h => h.unique hstart, fun h => h ▸ hstart⟩

end CycleLoop

/-! ## What is found -/

namespace FlowGraph

variable {g : FlowGraph} {start id x y : Text}

/-- An id that leads somewhere is that of a node. -/
theorem Leads.source_mem (h : g.Leads x y) : x ∈ g.ids := by
  obtain ⟨i, rfl, -⟩ := leads_iff.1 h
  exact (g.closed _ (List.getElem_mem i.isLt)).1

/-- No cycle can be reached from an id that is no node. -/
theorem not_transGen_of_not_mem (hid : id ∉ g.ids) (hreach : ReflTransGen g.Leads id x) :
    ¬ TransGen g.Leads x x := by
  intro hcycle
  obtain ⟨y, hlead, -⟩ := TransGen.head'_iff.1 (TransGen.trans_right hreach hcycle)
  exact hid hlead.source_mem

/-- Nothing is found from an id that is no node. -/
theorem findCycle?_of_not_mem (hid : id ∉ g.ids) : g.findCycle? (some id) = none := by
  have hskip : g.searchRoots [id] = .ok [] := by
    rw [searchRoots, List.foldlM_cons, if_pos (Or.inr hid)]
    rfl
  simp only [findCycle?, hskip]

/-- What is found from a start, or from anywhere, is a cycle in reach. -/
theorem findCycle?_sound {start : Option Text} {cycle : List Text} (h : g.findCycle? start = some cycle) :
    IsCycle g.targets cycle ∧ ∀ id, start = some id → ∀ x ∈ cycle, ReflTransGen g.Leads id x := by
  cases start with
  | none =>
    have hspec := g.searchRoots_spec (List.Subset.refl g.ids) (fun _ _ _ _ => trivial) fun _ _ => trivial
    refine ⟨(hspec.error cycle ?_).1, fun id hid => by cases hid⟩
    simp only [findCycle?] at h
    split at h
    · next hresult => rw [hresult, Option.some.inj h]
    · cases h
  | some id =>
    by_cases hid : id ∈ g.ids
    · obtain ⟨hcycle, hreach⟩ := isCycle_of_findCycle? hid h
      refine ⟨hcycle, fun id' hid' => ?_⟩
      cases hid'
      exact hreach
    · rw [findCycle?_of_not_mem hid] at h
      cases h

/-- Where nothing is found, there is no cycle in reach. -/
theorem findCycle?_complete {start : Option Text} (h : g.findCycle? start = none)
    (hreach : ∀ id, start = some id → ReflTransGen g.Leads id x) : ¬ TransGen g.Leads x x := by
  cases start with
  | none =>
    intro hcycle
    obtain ⟨y, -, hlead⟩ := TransGen.tail'_iff.1 hcycle
    have hspec := g.searchRoots_spec (List.Subset.refl g.ids) (fun _ _ _ _ => trivial) fun _ _ => trivial
    simp only [findCycle?] at h
    split at h
    · cases h
    · next settled hresult =>
      obtain ⟨hsettled, -, hall⟩ := hspec.ok settled hresult
      exact hsettled.acyclic (hall hlead.target_mem) ReflTransGen.refl hcycle
  | some id =>
    by_cases hid : id ∈ g.ids
    · intro hcycle
      exact (findCycle?_eq_none_iff hid).1 h (isCyclicFrom_iff.2 ⟨x, hreach id rfl, hcycle⟩)
    · exact not_transGen_of_not_mem hid (hreach id rfl)

end FlowGraph

namespace Snapshot

/-- An edge whose ends are both nodes leads from one id to another. -/
def Joins (graph : Snapshot) (u v : Text) : Prop :=
  ∃ e ∈ graph.edges, graph.connects e ∧ e.source = u ∧ e.target = v

/-- The flow graph of a snapshot leads along the edges that connect nodes. -/
theorem flow_leads (graph : Snapshot) : graph.flow.Leads = graph.Joins := by
  funext u v
  simp only [FlowGraph.Leads, FlowGraph.targets, FlowGraph.outgoing, flow, Joins, List.mem_map, List.mem_filter,
    decide_eq_true_eq, and_assoc]

/-- The search for a cycle, from a node or from all nodes, comes to an end; it finds only cycles in reach,
and finds one whenever there is one in reach. -/
theorem findCycle?_correct (graph : Snapshot) (start : Option Text) :
    (∀ result, CycleLoop.Returns graph.flow (.ofStart graph.flow start) result ↔
      result = graph.flow.findCycle? start) ∧
    (∀ cycle, graph.flow.findCycle? start = some cycle →
      (∃ first rest, cycle = first :: rest ++ [first] ∧ (first :: rest).Nodup ∧ cycle.IsChain graph.Joins) ∧
      ∀ id, start = some id → ∀ x ∈ cycle, ReflTransGen graph.Joins id x) ∧
    (graph.flow.findCycle? start = none ↔
      ¬ ∃ x, TransGen graph.Joins x x ∧ ∀ id, start = some id → ReflTransGen graph.Joins id x) ∧
    ∀ id, start = some id → id ∉ graph.ids → graph.flow.findCycle? start = none := by
  rw [← flow_leads]
  refine ⟨fun result => CycleLoop.returns_iff graph.flow start, fun cycle h => FlowGraph.findCycle?_sound h,
    ⟨?_, fun hnone => ?_⟩, ?_⟩
  · rintro h ⟨x, hcycle, hreach⟩
    exact FlowGraph.findCycle?_complete h hreach hcycle
  · by_contra hne
    obtain ⟨cycle, hfound⟩ := Option.ne_none_iff_exists'.1 hne
    obtain ⟨hcycle, hreach⟩ := FlowGraph.findCycle?_sound hfound
    obtain ⟨x, hx, htrans⟩ := hcycle.transGen
    exact hnone ⟨x, htrans, fun id hid => hreach id hid x hx⟩
  · rintro id rfl hid
    exact FlowGraph.findCycle?_of_not_mem hid

end Snapshot

end PipelineGraph
