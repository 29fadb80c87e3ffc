import PipelineGraph.Graph.Order
import PipelineGraph.Proofs.Graph.Adjacency
import Mathlib.Data.List.Induction
import Mathlib.Data.List.Perm.Subperm

/-!
# Placing nodes in rounds

What the rounds of a placing keep: each count is the number of producers that are not placed, the
ready positions are those of the nodes with nothing to wait for, and every node was placed as the
first one that could be. A placing ends only when nothing can be placed any more.
-/

namespace PipelineGraph

/-! ## Lists by what comes before -/

section Splits

variable {A : Type} {l : List A} {v : A}

/-- A rule about each element and those before it stays true if the next element keeps it. -/
theorem forall_split_append {rule : List A → A → Prop} (hl : ∀ a x b, l = a ++ x :: b → rule a x)
    (hv : rule l v) : ∀ a x b, l ++ [v] = a ++ x :: b → rule a x := by
  intro a x b h
  rcases List.eq_nil_or_concat b with rfl | ⟨b, last, rfl⟩
  · obtain ⟨rfl, hx⟩ := List.append_inj' h rfl
    exact List.singleton_inj.1 hx ▸ hv
  · have h : l ++ [v] = (a ++ x :: b) ++ [last] := by simpa using h
    exact hl a x b (List.append_inj' h rfl).1

/-- A list has no repetition if no element is one of those before it. -/
theorem nodup_of_forall_split (h : ∀ a x b, l = a ++ x :: b → x ∉ a) : l.Nodup := by
  induction l using List.reverseRecOn with
  | nil => exact List.nodup_nil
  | append_singleton l v ih =>
    have hl : l.Nodup := ih fun a x b hab => h a x (b ++ [v]) (by simp [hab])
    rw [← List.concat_eq_append, List.nodup_concat]
    exact ⟨h l v [] rfl, hl⟩

end Splits

/-! ## Positions -/

/-- Inserting a position adds that position and nothing else. -/
@[simp] theorem mem_insertPosition {i position : Nat} {positions : List Nat} :
    i ∈ insertPosition position positions ↔ i = position ∨ i ∈ positions := by
  induction positions with
  | nil => simp [insertPosition]
  | cons first rest ih =>
    by_cases h : position < first
    · simp [insertPosition, h]
    · simp only [insertPosition, h, if_false, List.mem_cons, ih]
      exact or_left_comm

/-- Inserting a new position keeps the positions increasing. -/
theorem insertPosition_increasing {position : Nat} {positions : List Nat}
    (hsorted : positions.Pairwise (· < ·)) (hnew : position ∉ positions) :
    (insertPosition position positions).Pairwise (· < ·) := by
  induction positions with
  | nil => simp [insertPosition]
  | cons first rest ih =>
    obtain ⟨hfirst, hrest⟩ := List.pairwise_cons.1 hsorted
    simp only [List.mem_cons, not_or] at hnew
    by_cases h : position < first
    · simp only [insertPosition, h, if_true, List.pairwise_cons]
      refine ⟨?_, hfirst, hrest⟩
      rintro i (_ | ⟨_, hi⟩)
      · exact h
      · exact Nat.lt_trans h (hfirst i hi)
    · simp only [insertPosition, h, if_false, List.pairwise_cons]
      refine ⟨?_, ih hrest hnew.2⟩
      intro i hi
      rcases mem_insertPosition.1 hi with rfl | hi
      · omega
      · exact hfirst i hi

namespace Placing

variable {ids : List Text} {p : Placing} {id c : Text}

/-- Changing the values of a table changes what is looked up in the same way. -/
theorem lookup_map_value {V : Type} (f : Text → V → V) (table : List (Text × V)) (id : Text) :
    (table.map fun (key, value) => (key, f key value)).lookup id = (table.lookup id).map (f id) := by
  induction table with
  | nil => rfl
  | cons entry rest ih =>
    obtain ⟨key, value⟩ := entry
    by_cases h : id = key
    · subst h
      simp
    · have hkey : (id == key) = false := beq_eq_false_iff_ne.2 h
      simp [List.lookup_cons, hkey, ih]

/-- Lowering the count of a node changes no other count. -/
theorem count_lower : (p.lower c).count id = if id = c then p.count id - 1 else p.count id := by
  simp only [count, lower]
  rw [lookup_map_value fun key n => if key = c then n - 1 else n]
  cases p.waiting.lookup id <;> by_cases h : id = c <;> simp [h]

/-- Placing a producer of a node lowers the count of that node alone. -/
theorem count_release : (release ids p c).count id = if id = c then p.count id - 1 else p.count id := by
  rw [← count_lower]
  simp only [release]
  split <;> rfl

/-- A node becomes ready when its last producer is placed. -/
theorem ready_release : (release ids p c).ready =
    if p.count c - 1 = 0 then insertPosition (ids.idxOf c) p.ready else p.ready := by
  have hcount : (p.lower c).count c = p.count c - 1 := by rw [count_lower, if_pos rfl]
  simp only [release, hcount]
  split <;> rfl

/-- The nodes placed stay as they are when counts are lowered. -/
@[simp] theorem placed_release : (release ids p c).placed = p.placed := by
  simp only [release]
  split <;> rfl

/-- Lowering counts keeps the nodes that are counted for. -/
@[simp] theorem keys_release :
    (release ids p c).waiting.map (·.1) = p.waiting.map (·.1) := by
  have hlower : (p.lower c).waiting.map (·.1) = p.waiting.map (·.1) := by
    simp [lower, Function.comp_def]
  simp only [release]
  split <;> exact hlower

variable {cs : List Text}

/-- Releasing places nothing. -/
@[simp] theorem placed_releaseAll : (cs.foldl (release ids) p).placed = p.placed := by
  induction cs generalizing p with
  | nil => rfl
  | cons c rest ih => simp [ih]

/-- Each of several nodes has its count lowered by one. -/
theorem count_releaseAll (hcs : cs.Nodup) :
    (cs.foldl (release ids) p).count id = if id ∈ cs then p.count id - 1 else p.count id := by
  induction cs generalizing p with
  | nil => simp
  | cons c rest ih =>
    obtain ⟨hc, hrest⟩ := List.nodup_cons.1 hcs
    rw [List.foldl_cons, ih hrest, count_release]
    by_cases h : id = c
    · subst h
      simp [hc]
    · simp [h]

/-- Of several nodes, those become ready whose count reaches zero. -/
theorem mem_ready_releaseAll (hcs : cs.Nodup) {i : Nat} :
    i ∈ (cs.foldl (release ids) p).ready ↔
      i ∈ p.ready ∨ ∃ c ∈ cs, ids.idxOf c = i ∧ p.count c - 1 = 0 := by
  induction cs generalizing p with
  | nil => simp
  | cons c rest ih =>
    obtain ⟨hc, hrest⟩ := List.nodup_cons.1 hcs
    have hcount : ∀ c' ∈ rest, (release ids p c).count c' = p.count c' := by
      intro c' hc'
      have hne : c' ≠ c := fun h => hc (h ▸ hc')
      rw [count_release, if_neg hne]
    have htail : (∃ c' ∈ rest, ids.idxOf c' = i ∧ (release ids p c).count c' - 1 = 0) ↔
        ∃ c' ∈ rest, ids.idxOf c' = i ∧ p.count c' - 1 = 0 :=
      exists_congr fun c' => and_congr_right fun hc' => by rw [hcount c' hc']
    rw [List.foldl_cons, ih hrest, htail, ready_release]
    simp only [List.mem_cons, exists_eq_or_imp]
    by_cases h : p.count c - 1 = 0
    · simp only [h, if_true, mem_insertPosition, and_true, eq_comm (a := i)]
      tauto
    · simp [h]

/-- The ready positions stay increasing when nodes become ready that were not. -/
theorem releaseAll_increasing (hcs : cs.Nodup) (hids : ∀ c ∈ cs, c ∈ ids)
    (hsorted : p.ready.Pairwise (· < ·)) (hnew : ∀ c ∈ cs, ids.idxOf c ∉ p.ready) :
    (cs.foldl (release ids) p).ready.Pairwise (· < ·) := by
  induction cs generalizing p with
  | nil => exact hsorted
  | cons c rest ih =>
    obtain ⟨hc, hrest⟩ := List.nodup_cons.1 hcs
    rw [List.foldl_cons]
    refine ih hrest (fun c' h => hids c' (List.mem_cons_of_mem _ h)) ?_ ?_
    · rw [ready_release]
      split
      · exact insertPosition_increasing hsorted (hnew c List.mem_cons_self)
      · exact hsorted
    · intro c' hc' hmem
      have hold : ids.idxOf c' ∉ p.ready := hnew c' (List.mem_cons_of_mem _ hc')
      have hne : ids.idxOf c' ≠ ids.idxOf c := fun h =>
        hc ((List.idxOf_inj (hids c' (List.mem_cons_of_mem _ hc'))).1 h ▸ hc')
      rw [ready_release] at hmem
      split at hmem
      · exact (mem_insertPosition.1 hmem).elim hne hold
      · exact hold hmem

end Placing

/-! ## Rounds -/

namespace FlowGraph

variable {g : FlowGraph} {placed : List Text} {id u v : Text}

/-- A node can be placed behind some nodes: it is none of them, and whatever feeds it is one. -/
def Admits (g : FlowGraph) (placed : List Text) (v : Text) : Prop :=
  v ∈ g.ids ∧ v ∉ placed ∧ ∀ u, g.Feeds u v → u ∈ placed

/-- Of the nodes that can be placed behind some nodes, the one that stands first in the snapshot. -/
def IsNext (g : FlowGraph) (placed : List Text) (v : Text) : Prop :=
  g.Admits placed v ∧ ∀ u, g.Admits placed u → g.ids.idxOf v ≤ g.ids.idxOf u

/-- Every node of a list is the next one behind the nodes before it. -/
def IsGreedy (g : FlowGraph) (l : List Text) : Prop :=
  ∀ a v b, l = a ++ v :: b → g.IsNext a v

/-- A list of nodes grows by the next one. -/
theorem IsGreedy.append_next {l : List Text} (hl : g.IsGreedy l) (hv : g.IsNext l v) :
    g.IsGreedy (l ++ [v]) :=
  forall_split_append hl hv

/-- Whatever feeds a node of the list stands before it. -/
theorem IsGreedy.feeds_before {a b : List Text} (h : g.IsGreedy (a ++ v :: b)) (huv : g.Feeds u v) :
    u ∈ a :=
  (h a v b rfl).1.2.2 u huv

/-- Whatever feeds a node of the list is in the list. -/
theorem IsGreedy.closed {l : List Text} (h : g.IsGreedy l) (hv : v ∈ l) (huv : g.Feeds u v) :
    u ∈ l := by
  obtain ⟨a, b, rfl⟩ := List.append_of_mem hv
  exact List.mem_append_left _ (h.feeds_before huv)

/-- The list holds nodes of the graph. -/
theorem IsGreedy.subset {l : List Text} (h : g.IsGreedy l) : l ⊆ g.ids := by
  intro v hv
  obtain ⟨a, b, rfl⟩ := List.append_of_mem hv
  exact (h a v b rfl).1.1

/-- The list holds no node twice. -/
theorem IsGreedy.nodup {l : List Text} (h : g.IsGreedy l) : l.Nodup :=
  nodup_of_forall_split fun a v b hab => (h a v b hab).1.2.1

/-- What holds of a placing between two rounds. -/
structure Sound (g : FlowGraph) (p : Placing) : Prop where
  /-- A count is the number of producers that are not placed. -/
  counts : ∀ id ∈ g.ids, p.count id = ((g.producers id).filter (· ∉ p.placed)).length
  increasing : p.ready.Pairwise (· < ·)
  /-- The ready positions are those of the nodes that can be placed. -/
  mem_ready : ∀ i, i ∈ p.ready ↔ ∃ id, g.ids[i]? = some id ∧ g.Admits p.placed id
  greedy : g.IsGreedy p.placed

/-- The position of a node leads to the node. -/
theorem getElem?_idxOf_ids (hid : id ∈ g.ids) : g.ids[g.ids.idxOf id]? = some id :=
  List.getElem?_idxOf hid

/-- A node stands at one position only. -/
theorem idxOf_of_getElem? {i : Nat} (h : g.ids[i]? = some id) : g.ids.idxOf id = i := by
  obtain ⟨hi, rfl⟩ := List.getElem?_eq_some_iff.1 h
  exact g.nodup_ids.idxOf_getElem i hi

/-- A node that is not placed can be placed when its count is zero. -/
theorem admits_iff_of_counts {p : Placing} (hid : id ∈ g.ids)
    (hcount : p.count id = ((g.producers id).filter (· ∉ p.placed)).length) :
    g.Admits p.placed id ↔ id ∉ p.placed ∧ p.count id = 0 := by
  simp [Admits, hid, hcount, List.filter_eq_nil_iff]

/-- Placing one more node lowers by one the number of what a node waits for, if it waits for that. -/
theorem length_waiting_append (hnew : id ∉ placed) :
    ((g.producers v).filter (· ∉ placed ++ [id])).length =
      if v ∈ g.consumers id then ((g.producers v).filter (· ∉ placed)).length - 1
      else ((g.producers v).filter (· ∉ placed)).length := by
  have hsplit : (g.producers v).filter (· ∉ placed ++ [id]) =
      ((g.producers v).filter (· ∉ placed)).filter (· != id) := by
    rw [List.filter_filter]
    refine List.filter_congr fun u _ => ?_
    by_cases hu : u = id <;> simp [hu, hnew]
  rw [hsplit, ← ((g.nodup_producers v).filter _).erase_eq_filter]
  split
  · next h =>
    exact List.length_erase_of_mem (List.mem_filter.2 ⟨by simpa using h, by simpa using hnew⟩)
  · next h =>
    rw [List.erase_of_not_mem]
    exact fun hmem => h (by simpa using (List.mem_filter.1 hmem).1)

/-- Among several lists without repetitions, an element is counted once for each list with it. -/
theorem count_flatMap_of_nodup (f : Text → List Text) (hf : ∀ u, (f u).Nodup) (l : List Text) :
    (l.flatMap f).count v = (l.filter fun u => v ∈ f u).length := by
  induction l with
  | nil => rfl
  | cons u rest ih =>
    rw [List.flatMap_cons, List.count_append, ih, (hf u).count, List.filter_cons]
    by_cases h : v ∈ f u <;> simp [h, Nat.add_comm]

/-- Before the first round, the count of a node is the number of its producers. -/
theorem count_consumed : (g.ids.flatMap g.consumers).count v = (g.producers v).length := by
  rw [count_flatMap_of_nodup g.consumers g.nodup_consumers]
  refine List.Perm.length_eq ((List.perm_ext_iff_of_nodup (g.nodup_ids.filter _)
    (g.nodup_producers v)).2 fun u => ?_)
  simp only [List.mem_filter, decide_eq_true_eq, mem_consumers, mem_producers]
  exact and_iff_right_of_imp Feeds.source_mem

/-- In a table of nodes with their values, the value of a node is found. -/
theorem lookup_map_pair (f : Text → Nat) {ids : List Text} (hid : id ∈ ids) :
    (ids.map fun id => (id, f id)).lookup id = some (f id) := by
  induction ids with
  | nil => simp at hid
  | cons w rest ih =>
    by_cases h : id = w
    · subst h
      simp
    · have hkey : (id == w) = false := beq_eq_false_iff_ne.2 h
      simp [List.lookup_cons, hkey, ih (List.mem_of_ne_of_mem h hid)]

/-- The placing before the first round is sound. -/
theorem sound_unplaced (g : FlowGraph) : g.Sound g.unplaced := by
  have hcount : ∀ id ∈ g.ids, g.unplaced.count id = (g.producers id).length := by
    intro id hid
    simp only [unplaced, Placing.count]
    rw [lookup_map_pair (fun id => (g.ids.flatMap g.consumers).count id) hid, Option.getD_some,
      count_consumed]
  have hcounts : ∀ id ∈ g.ids,
      g.unplaced.count id = ((g.producers id).filter (· ∉ g.unplaced.placed)).length := by
    intro id hid
    rw [hcount id hid]
    simp [unplaced]
  refine ⟨hcounts, ?_, ?_, ?_⟩
  · have hall : (g.ids.zipIdx.map (·.2)).Pairwise (· < ·) := by
      rw [List.zipIdx_map_snd]
      exact List.pairwise_lt_range'
    exact hall.sublist (List.filter_sublist.map _)
  · intro i
    constructor
    · intro hi
      obtain ⟨⟨id, j⟩, hmem, rfl⟩ := List.mem_map.1 hi
      obtain ⟨hpair, hzero⟩ := List.mem_filter.1 hmem
      have hid : g.ids[j]? = some id := List.mem_zipIdx_iff_getElem?.1 hpair
      have hmem : id ∈ g.ids := List.mem_of_getElem? hid
      refine ⟨id, hid, (admits_iff_of_counts hmem (hcounts id hmem)).2 ⟨by simp [unplaced], ?_⟩⟩
      rw [hcount id hmem, ← count_consumed]
      simpa using hzero
    · rintro ⟨id, hid, hadmits⟩
      have hmem : id ∈ g.ids := List.mem_of_getElem? hid
      have hzero := ((admits_iff_of_counts hmem (hcounts id hmem)).1 hadmits).2
      rw [hcount id hmem, ← count_consumed] at hzero
      refine List.mem_map.2 ⟨(id, i), List.mem_filter.2 ⟨?_, by simpa using hzero⟩, rfl⟩
      exact List.mem_zipIdx_iff_getElem?.2 hid
  · intro a v b h
    simp [unplaced] at h

/-- The placing after one more node is placed. -/
def placeNext (g : FlowGraph) (p : Placing) (rest : List Nat) (id : Text) : Placing :=
  (g.consumers id).foldl (Placing.release g.ids) { p with ready := rest, placed := p.placed ++ [id] }

/-- A round keeps a placing sound: the first ready position is that of the next node. -/
theorem Sound.next {p : Placing} (h : g.Sound p) {i : Nat} {rest : List Nat}
    (hready : p.ready = i :: rest) (hi : g.ids[i]? = some id) : g.Sound (g.placeNext p rest id) := by
  obtain ⟨id', hid', hadmits⟩ := (h.mem_ready i).1 (by simp [hready])
  obtain rfl : id = id' := by simpa [hi] using hid'
  have hsorted := h.increasing
  rw [hready, List.pairwise_cons] at hsorted
  obtain ⟨hfirst, hrest⟩ := hsorted
  have hplaced : (g.placeNext p rest id).placed = p.placed ++ [id] := by simp [placeNext]
  have hcount : ∀ v, (g.placeNext p rest id).count v =
      if v ∈ g.consumers id then p.count v - 1 else p.count v := fun v =>
    Placing.count_releaseAll (g.nodup_consumers id)
  have hcounts : ∀ v ∈ g.ids, (g.placeNext p rest id).count v =
      ((g.producers v).filter (· ∉ (g.placeNext p rest id).placed)).length := by
    intro v hv
    rw [hcount, hplaced, length_waiting_append hadmits.2.1, h.counts v hv]
  -- A consumer of the node waited for it, so it was not ready before.
  have hwaited : ∀ c ∈ g.consumers id, ¬ g.Admits p.placed c := fun c hc hadm =>
    hadmits.2.1 (hadm.2.2 id (mem_consumers.1 hc))
  have hids : ∀ c ∈ g.consumers id, c ∈ g.ids := fun c hc => (mem_consumers.1 hc).target_mem
  have hnew : ∀ c ∈ g.consumers id, g.ids.idxOf c ∉ rest := by
    intro c hc hmem
    obtain ⟨c', hc', hadm⟩ := (h.mem_ready _).1 (by simp [hready, hmem] : g.ids.idxOf c ∈ p.ready)
    rw [getElem?_idxOf_ids (hids c hc), Option.some.injEq] at hc'
    exact hwaited c hc (hc' ▸ hadm)
  refine ⟨hcounts, ?_, ?_, ?_⟩
  · exact Placing.releaseAll_increasing (g.nodup_consumers id) hids hrest hnew
  · intro j
    have hmem : j ∈ (g.placeNext p rest id).ready ↔
        j ∈ rest ∨ ∃ c ∈ g.consumers id, g.ids.idxOf c = j ∧ p.count c - 1 = 0 :=
      Placing.mem_ready_releaseAll (g.nodup_consumers id)
    rw [hmem]
    constructor
    · rintro (hj | ⟨c, hc, rfl, hzero⟩)
      · obtain ⟨v, hv, hadm⟩ := (h.mem_ready j).1 (by simp [hready, hj])
        have hne : v ≠ id := by
          rintro rfl
          have := hfirst j hj
          have := idxOf_of_getElem? hi
          have := idxOf_of_getElem? hv
          omega
        refine ⟨v, hv, hadm.1, by simp [hplaced, hadm.2.1, hne], fun u hu => ?_⟩
        rw [hplaced]
        exact List.mem_append_left _ (hadm.2.2 u hu)
      · refine ⟨c, getElem?_idxOf_ids (hids c hc), ?_⟩
        rw [admits_iff_of_counts (hids c hc) (hcounts c (hids c hc)), hplaced, hcount, if_pos hc]
        refine ⟨?_, hzero⟩
        have hne : c ≠ id := (mem_consumers.1 hc).1.symm
        have hold : c ∉ p.placed := fun hmem =>
          hadmits.2.1 (h.greedy.closed hmem (mem_consumers.1 hc))
        simp [hne, hold]
    · rintro ⟨v, hv, hadm⟩
      have hvids : v ∈ g.ids := hadm.1
      obtain ⟨hvnew, hzero⟩ := (admits_iff_of_counts hvids (hcounts v hvids)).1 hadm
      simp only [hplaced, List.mem_append, List.mem_singleton, not_or] at hvnew
      rw [hcount] at hzero
      by_cases hc : v ∈ g.consumers id
      · rw [if_pos hc] at hzero
        exact Or.inr ⟨v, hc, idxOf_of_getElem? hv, hzero⟩
      · rw [if_neg hc] at hzero
        have hold : g.Admits p.placed v :=
          (admits_iff_of_counts hvids (h.counts v hvids)).2 ⟨hvnew.1, hzero⟩
        have hj : j ∈ p.ready := (h.mem_ready j).2 ⟨v, hv, hold⟩
        rw [hready, List.mem_cons] at hj
        refine Or.inl (hj.resolve_left ?_)
        rintro rfl
        exact hvnew.2 (by simpa [hi] using hv.symm)
  · rw [hplaced]
    refine h.greedy.append_next ⟨hadmits, fun u hu => ?_⟩
    rw [idxOf_of_getElem? hi]
    have hmem : g.ids.idxOf u ∈ i :: rest :=
      hready ▸ (h.mem_ready _).2 ⟨u, getElem?_idxOf_ids hu.1, hu⟩
    rcases List.mem_cons.1 hmem with heq | hmem
    · exact Nat.le_of_eq heq.symm
    · exact Nat.le_of_lt (hfirst _ hmem)

/-- With a round for every node that is not placed, the rounds end when no node is ready. -/
theorem Sound.place {p : Placing} (h : g.Sound p) {rounds : Nat}
    (hrounds : g.ids.length ≤ rounds + p.placed.length) :
    g.Sound (g.place rounds p) ∧ (g.place rounds p).ready = [] := by
  induction rounds generalizing p with
  | zero =>
    refine ⟨h, List.eq_nil_iff_forall_not_mem.2 fun i hi => ?_⟩
    obtain ⟨id, -, hid, hnew, -⟩ := (h.mem_ready i).1 hi
    have hsub : p.placed.Subperm g.ids := h.greedy.nodup.subperm h.greedy.subset
    have hall : p.placed.Perm g.ids := hsub.perm_of_length_le (by omega)
    exact hnew (hall.mem_iff.2 hid)
  | succ rounds ih =>
    cases hready : p.ready with
    | nil => simpa [FlowGraph.place, hready] using h
    | cons i rest =>
      obtain ⟨id, hid, -⟩ := (h.mem_ready i).1 (by simp [hready])
      have hplaced : (g.placeNext p rest id).placed = p.placed ++ [id] := by simp [placeNext]
      simp only [FlowGraph.place, hready, hid]
      refine ih (h.next hready hid) ?_
      change g.ids.length ≤ rounds + (g.placeNext p rest id).placed.length
      rw [hplaced, List.length_append, List.length_singleton]
      omega

/-- The last placing is sound and has nothing ready. -/
theorem sound_placing (g : FlowGraph) : g.Sound g.placing ∧ g.placing.ready = [] :=
  g.sound_unplaced.place (by simp [ids])

/-- Every node of the order is the next one behind the nodes before it. -/
theorem order_isGreedy (g : FlowGraph) : g.IsGreedy g.order :=
  g.sound_placing.1.greedy

/-- Behind the order nothing more can be placed. -/
theorem not_admits_order (g : FlowGraph) (v : Text) : ¬ g.Admits g.order v := by
  intro h
  have hmem : g.ids.idxOf v ∈ g.placing.ready :=
    (g.sound_placing.1.mem_ready _).2 ⟨v, getElem?_idxOf_ids h.1, h⟩
  simp [g.sound_placing.2] at hmem

/-- The nodes left over are those that are not placed, in snapshot order. -/
theorem leftover_eq (g : FlowGraph) : g.leftover = g.ids.filter (· ∉ g.order) := by
  refine List.filter_congr fun v hv => ?_
  have hcount := g.sound_placing.1.counts v hv
  rw [decide_eq_decide]
  constructor
  · intro hpos hplaced
    have hall : (g.producers v).filter (· ∉ g.placing.placed) = [] := by
      simp only [List.filter_eq_nil_iff, decide_eq_true_eq, not_not, mem_producers]
      exact fun u hu => g.order_isGreedy.closed hplaced hu
    rw [hcount, hall] at hpos
    exact absurd hpos (Nat.lt_irrefl 0)
  · intro hnew
    refine Nat.pos_of_ne_zero fun hzero => g.not_admits_order v ?_
    exact (admits_iff_of_counts hv hcount).2 ⟨hnew, hzero⟩

end FlowGraph

end PipelineGraph
