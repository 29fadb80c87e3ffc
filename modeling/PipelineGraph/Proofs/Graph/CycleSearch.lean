import PipelineGraph.Graph.Cycle
import PipelineGraph.Proofs.Graph.Walks
import Mathlib.Data.List.Perm.Subperm

/-!
# What the search for a cycle finds

The search finds a cycle exactly if one is in reach. What it finishes is settled: the edges of a
finished node lead to nodes that were finished before it, so no cycle is in reach of it. The path
holds different nodes, which is why the room for further ones never runs out.
-/

namespace PipelineGraph.FlowGraph

open Relation

/-- Finished nodes, the last one first: each leads only to nodes finished before it. -/
def Settled (targets : Text → List Text) : List Text → Prop
  | [] => True
  | x :: rest => (∀ y ∈ targets x, y ∈ rest) ∧ Settled targets rest

/-- Different nodes that lead from one to the next and back to the first, which is repeated. -/
def IsCycle (targets : Text → List Text) (cycle : List Text) : Prop :=
  ∃ x rest, cycle = x :: rest ++ [x] ∧ (x :: rest).Nodup ∧ cycle.IsChain fun y z => z ∈ targets y

section Search

variable {targets : Text → List Text} {nodes path finished settled : List Text} {x y : Text}
  {reach : Text → Prop}

/-- Whatever a settled node leads to was settled before. -/
theorem Settled.mem_of_transGen (h : Settled targets (x :: settled)) (hy : y ∈ x :: settled)
    {z : Text} (hyz : TransGen (fun u v => v ∈ targets u) y z) : z ∈ settled := by
  induction settled generalizing x y z with
  | nil =>
    obtain rfl : y = x := by simpa using hy
    obtain ⟨w, hw, -⟩ := TransGen.head'_iff.1 hyz
    exact absurd (h.1 w hw) List.not_mem_nil
  | cons x' rest ih =>
    have hrest : ∀ {w}, w ∈ x' :: rest → TransGen (fun u v => v ∈ targets u) w z → z ∈ x' :: rest :=
      fun hw hwz => List.mem_cons_of_mem _ (ih h.2 hw hwz)
    rcases List.mem_cons.1 hy with rfl | hy
    · obtain ⟨w, hw, hwz⟩ := TransGen.head'_iff.1 hyz
      rcases reflTransGen_iff_eq_or_transGen.1 hwz with rfl | hwz
      · exact h.1 _ hw
      · exact hrest (h.1 w hw) hwz
    · exact hrest hy hyz

/-- No cycle can be reached from a settled node. -/
theorem Settled.acyclic (h : Settled targets settled) (hx : x ∈ settled)
    (hxy : ReflTransGen (fun u v => v ∈ targets u) x y) :
    ¬ TransGen (fun u v => v ∈ targets u) y y := by
  intro hcycle
  induction settled generalizing x y with
  | nil => exact absurd hx List.not_mem_nil
  | cons z rest ih =>
    have hy : y ∈ rest := by
      rcases reflTransGen_iff_eq_or_transGen.1 hxy with rfl | hxy
      · exact h.mem_of_transGen hx hcycle
      · exact h.mem_of_transGen hx hxy
    exact ih h.2 hy ReflTransGen.refl hcycle

/-- A cycle leads from its first node back to it. -/
theorem IsCycle.transGen {cycle : List Text} (h : IsCycle targets cycle) :
    ∃ x ∈ cycle, TransGen (fun u v => v ∈ targets u) x x := by
  obtain ⟨x, rest, rfl, -, hchain⟩ := h
  refine ⟨x, List.mem_cons_self, ?_⟩
  cases rest with
  | nil => exact TransGen.single (by simpa using hchain)
  | cons y rest =>
    rw [List.cons_append, List.cons_append, List.isChain_cons_cons] at hchain
    refine TransGen.head' hchain.1 ?_
    exact List.relationReflTransGen_of_exists_isChain_cons (rest ++ [x]) hchain.2 (by simp)

/-- An edge back to a path closes a cycle. -/
theorem isCycle_dropWhile (hchain : path.IsChain fun y z => z ∈ targets y) (hnodup : path.Nodup)
    (hlast : ∀ z ∈ path.getLast?, y ∈ targets z) (hy : y ∈ path) :
    IsCycle targets (path.dropWhile (· ≠ y) ++ [y]) := by
  obtain ⟨a, b, hab, ha⟩ := List.eq_append_cons_of_mem hy
  have hdrop : path.dropWhile (· ≠ y) = y :: b := by
    have hskip : ∀ z ∈ a, decide (z ≠ y) = true := fun z hz => decide_eq_true fun h => ha (h ▸ hz)
    rw [hab, List.dropWhile_append_of_pos hskip]
    simp
  have hsuffix : y :: b <:+ path := ⟨a, hab.symm⟩
  refine ⟨y, b, by rw [hdrop], hsuffix.sublist.nodup hnodup, ?_⟩
  rw [hdrop, List.isChain_append]
  refine ⟨hchain.suffix hsuffix, List.isChain_singleton y, fun z hz w hw => ?_⟩
  obtain rfl : y = w := by simpa using hw
  refine hlast z ?_
  rw [hab, List.getLast?_append_of_ne_nil _ (List.cons_ne_nil y b)]
  exact hz

/-- What a search for some nodes may give: these settled besides others, or a cycle in reach. -/
structure SearchSpec (targets : Text → List Text) (reach : Text → Prop)
    (finished sought : List Text) (result : Except (List Text) (List Text)) : Prop where
  ok : ∀ settled, result = .ok settled →
    Settled targets settled ∧ finished ⊆ settled ∧ sought ⊆ settled
  error : ∀ cycle, result = .error cycle → IsCycle targets cycle ∧ ∀ x ∈ cycle, reach x

/-- Searches one after another make a search for all that they seek. -/
theorem foldlM_searchSpec {search : List Text → Text → Except (List Text) (List Text)}
    {todo : List Text} (hsearch : ∀ finished, Settled targets finished → ∀ y ∈ todo,
      SearchSpec targets reach finished [y] (search finished y))
    (hfinished : Settled targets finished) :
    SearchSpec targets reach finished todo (todo.foldlM search finished) := by
  induction todo generalizing finished with
  | nil =>
    refine ⟨fun settled h => ?_, fun cycle h => by cases h⟩
    obtain rfl : finished = settled := by simpa [pure, Except.pure] using h
    exact ⟨hfinished, List.Subset.refl _, List.nil_subset _⟩
  | cons y rest ih =>
    have hspec := hsearch finished hfinished y List.mem_cons_self
    rw [List.foldlM_cons]
    cases hy : search finished y with
    | error cycle =>
      refine ⟨fun settled h => (by cases h), fun cycle' h => ?_⟩
      cases h
      exact hspec.error cycle hy
    | ok settled =>
      obtain ⟨hsettled, hsubset, hmem⟩ := hspec.ok settled hy
      have hrest := ih (fun finished h z hz => hsearch finished h z (List.mem_cons_of_mem _ hz)) hsettled
      refine ⟨fun settled' h => ?_, hrest.error⟩
      obtain ⟨hsettled', hsubset', hdone⟩ := hrest.ok settled' h
      exact ⟨hsettled', List.Subset.trans hsubset hsubset',
        List.cons_subset.2 ⟨hsubset' (hmem List.mem_cons_self), hdone⟩⟩

/-- What a search does at a target of the last node of its path. -/
def searchTarget (targets : Text → List Text) (room : Nat) (path finished : List Text)
    (target : Text) : Except (List Text) (List Text) :=
  if target ∈ path then .error (path.dropWhile (· ≠ target) ++ [target])
  else if target ∈ finished then .ok finished
  else searchFrom targets room path finished target

/-- A search goes to one target after another and then settles its node. -/
theorem searchFrom_succ (room : Nat) (id : Text) :
    searchFrom targets (room + 1) path finished id =
      ((targets id).foldlM (searchTarget targets room (path ++ [id])) finished).map (id :: ·) := by
  rw [searchFrom]
  rfl

/-- A search from a node behind a path settles the node or finds a cycle. -/
theorem searchFrom_spec (hclosed : ∀ x ∈ nodes, ∀ y ∈ targets x, y ∈ nodes)
    (hreach : ∀ x, reach x → ∀ y ∈ targets x, reach y) (room : Nat) {id : Text}
    (hchain : (path ++ [id]).IsChain fun y z => z ∈ targets y) (hnodup : (path ++ [id]).Nodup)
    (hsub : path ++ [id] ⊆ nodes) (hroom : nodes.length ≤ room + path.length)
    (hpath : ∀ x ∈ path ++ [id], reach x) (hfinished : Settled targets finished) :
    SearchSpec targets reach finished [id] (searchFrom targets room path finished id) := by
  induction room generalizing path finished id with
  | zero =>
    have hle := (hnodup.subperm hsub).length_le
    rw [List.length_append, List.length_singleton] at hle
    omega
  | succ room ih =>
    have hid : id ∈ path ++ [id] := List.mem_append_right _ (List.mem_singleton_self id)
    have htarget : ∀ finished, Settled targets finished → ∀ y ∈ targets id,
        SearchSpec targets reach finished [y] (searchTarget targets room (path ++ [id]) finished y) := by
      intro finished hfinished y hy
      have hnext : reach y := hreach id (hpath id hid) y hy
      unfold searchTarget
      split
      · next hback =>
        refine ⟨fun settled h => (by cases h), fun cycle h => ?_⟩
        cases h
        refine ⟨isCycle_dropWhile hchain hnodup (by simpa using hy) hback, fun x hx => ?_⟩
        rcases List.mem_append.1 hx with hx | hx
        · exact hpath x ((List.dropWhile_suffix _).subset hx)
        · rwa [List.mem_singleton.1 hx]
      · next hnew =>
        split
        · next hknown =>
          refine ⟨fun settled h => ?_, fun cycle h => by cases h⟩
          cases h
          exact ⟨hfinished, List.Subset.refl _, by simpa using hknown⟩
        · refine ih ?_ ?_ ?_ ?_ ?_ hfinished
          · refine List.isChain_append.2 ⟨hchain, List.isChain_singleton _, fun z hz w hw => ?_⟩
            obtain rfl : id = z := by simpa using hz
            obtain rfl : y = w := by simpa using hw
            exact hy
          · refine List.nodup_append.2 ⟨hnodup, List.nodup_singleton _, fun a ha b hb => ?_⟩
            rintro rfl
            exact hnew (List.mem_singleton.1 hb ▸ ha)
          · exact List.append_subset.2 ⟨hsub, by simpa using hclosed id (hsub hid) y hy⟩
          · rw [List.length_append, List.length_singleton]
            omega
          · intro x hx
            rcases List.mem_append.1 hx with hx | hx
            · exact hpath x hx
            · rwa [List.mem_singleton.1 hx]
    have hfold := foldlM_searchSpec htarget hfinished
    rw [searchFrom_succ]
    cases hresult : (targets id).foldlM (searchTarget targets room (path ++ [id])) finished with
    | error cycle =>
      refine ⟨fun settled h => (by cases h), fun cycle' h => ?_⟩
      cases h
      exact hfold.error cycle hresult
    | ok settled =>
      refine ⟨fun settled' h => ?_, fun cycle h => by cases h⟩
      cases h
      obtain ⟨hsettled, hsubset, hdone⟩ := hfold.ok settled hresult
      exact ⟨⟨hdone, hsettled⟩, List.subset_cons_of_subset id hsubset, by simp⟩

end Search

variable {g : FlowGraph} {start : Text}

/-- The search of a graph from some roots settles these, or finds a cycle in reach. -/
theorem searchRoots_spec (g : FlowGraph) {reach : Text → Prop} {roots : List Text}
    (hroots : roots ⊆ g.ids) (hreach : ∀ x, reach x → ∀ y ∈ g.targets x, reach y)
    (hstart : ∀ x ∈ roots, reach x) :
    SearchSpec g.targets reach [] roots (g.searchRoots roots) := by
  refine foldlM_searchSpec (fun finished hfinished y hy => ?_) trivial
  by_cases hknown : y ∈ finished
  · simp only [hknown, true_or, if_true]
    refine ⟨fun settled h => ?_, fun cycle h => by cases h⟩
    cases h
    exact ⟨hfinished, List.Subset.refl _, by simpa using hknown⟩
  · have hid : y ∈ g.ids := hroots hy
    simp only [hknown, hid, not_true_eq_false, or_self, if_false]
    have hclosed : ∀ x ∈ g.ids, ∀ z ∈ g.targets x, z ∈ g.ids := fun x _ z hz => Leads.target_mem hz
    refine searchFrom_spec hclosed hreach _ ?_ ?_ ?_ ?_ ?_ hfinished
    · exact List.isChain_singleton y
    · exact List.nodup_singleton y
    · simpa using hid
    · simp [ids]
    · simpa using hstart y hy

/-- What a search from a node gives, by what the node leads to. -/
theorem searchRoots_start_spec (hstart : start ∈ g.ids) :
    SearchSpec g.targets (ReflTransGen g.Leads start) [] [start] (g.searchRoots [start]) := by
  refine g.searchRoots_spec (by simpa using hstart) (fun x hx y hy => hx.tail hy) fun x hx => ?_
  rw [List.mem_singleton.1 hx]

/-- A cycle that is found from a node is one, and the node leads to it. -/
theorem isCycle_of_findCycle? (hstart : start ∈ g.ids) {cycle : List Text}
    (h : g.findCycle? (some start) = some cycle) :
    IsCycle g.targets cycle ∧ ∀ x ∈ cycle, ReflTransGen g.Leads start x := by
  refine (searchRoots_start_spec hstart).error cycle ?_
  simp only [findCycle?] at h
  split at h
  · next hresult => rw [hresult, Option.some.inj h]
  · cases h

/-- No cycle is found from a node exactly if none is in its reach. -/
theorem findCycle?_eq_none_iff (hstart : start ∈ g.ids) :
    g.findCycle? (some start) = none ↔ ¬ g.IsCyclicFrom start := by
  rw [isCyclicFrom_iff]
  constructor
  · intro h
    rintro ⟨v, hreach, hcycle⟩
    simp only [findCycle?] at h
    split at h
    · cases h
    · next settled hresult =>
      obtain ⟨hsettled, -, hmem⟩ := (searchRoots_start_spec hstart).ok settled hresult
      exact hsettled.acyclic (hmem List.mem_cons_self) hreach hcycle
  · intro h
    by_contra hne
    obtain ⟨cycle, hcycle⟩ := Option.ne_none_iff_exists'.1 hne
    obtain ⟨hiscycle, hreach⟩ := isCycle_of_findCycle? hstart hcycle
    obtain ⟨x, hx, htrans⟩ := hiscycle.transGen
    exact h ⟨x, hreach x hx, htrans⟩

end PipelineGraph.FlowGraph
