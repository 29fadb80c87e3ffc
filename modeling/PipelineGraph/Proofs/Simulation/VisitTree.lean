import PipelineGraph.Proofs.Graph.Adjacency
import PipelineGraph.Proofs.Graph.Walks
import PipelineGraph.Proofs.Simulation.Turns

/-!
# The tree of visits

The tasks of a run are the caller and a tree of visits: the root visits the start node, and the
children of a visit visit the targets of its node, edge by edge. A visit is at the end of a walk
from the start that is as long as the visit is deep. What each of them waits for is told by its
program: a visit that is over its delay waits for a sleep, and one that has branched for the
gathering of its children.
-/

namespace PipelineGraph.Simulation

/-- A run of a simulation: how it goes, what it walks and from where, and the number of its caller and
of the caller's task. -/
structure Run where
  plan : Plan
  graph : FlowGraph
  start : Node
  caller : Nat
  base : FutureId

/-- The task of the first visit. -/
def Run.root (r : Run) : FutureId :=
  r.base + 1

/-- The root comes behind the caller. -/
theorem Run.base_lt_root (r : Run) : r.base < r.root :=
  Nat.lt_succ_self _

/-- A visit that a run may come to. -/
structure Visit.Fits (r : Run) (v : Visit) : Prop where
  graph : v.graph = r.graph
  node : r.graph.node? v.node.id = some v.node
  walk : ∃ w, r.graph.IsWalk r.start.id w v.node.id ∧ w.length = v.depth
  /-- A visit is at most one step too deep. -/
  depth : v.depth = 0 ∨ (v.depth : Int) ≤ r.plan.maxDepth + 1

namespace Program

/-- The visit that a program makes. -/
def visit? : Program → Option Visit
  | enter v => some v
  | leave v => some v
  | fanOut v => some v
  | join v _ => some v
  | _ => none

/-- Whether a program has the turns of a visit ahead that do something. -/
def isActive : Program → Bool
  | enter _ => true
  | leave _ => true
  | fanOut _ => true
  | _ => false

/-- A program that a visit of a run may have. -/
def Fits (r : Run) : Program → Prop
  | enter v => v.Fits r
  | leave v => v.Fits r ∧ ¬ r.plan.maxDepth < v.depth
  | fanOut v => v.Fits r ∧ ¬ r.plan.maxDepth < v.depth ∧ v.graph.targets v.node.id ≠ []
  | join v _ => v.Fits r ∧ ¬ r.plan.maxDepth < v.depth ∧ v.graph.targets v.node.id ≠ []
  | _ => False

/-- How a visit goes on without branching, and the delay before that. -/
inductive Continues (p : Plan) : Program → Program → Delay → Prop
  | enter {v : Visit} (hdepth : ¬ p.maxDepth < v.depth) : Continues p (.enter v) (.leave v) p.dwell
  | leave {v : Visit} (hinner : v.graph.targets v.node.id ≠ []) :
    Continues p (.leave v) (.fanOut v) p.edgeDelay

variable {r : Run} {pr next : Program} {d : Delay}

/-- A program that fits makes a visit that does. -/
theorem Fits.exists_visit (h : pr.Fits r) : ∃ v, pr.visit? = some v ∧ v.Fits r := by
  cases pr with
  | enter v => exact ⟨v, rfl, h⟩
  | leave v | fanOut v | join v => exact ⟨v, rfl, h.1⟩
  | call | conclude => exact h.elim

/-- A visit goes on as a program that fits. -/
theorem Continues.fits (h : pr.Continues r.plan next d) (hfits : pr.Fits r) : next.Fits r := by
  cases h with
  | enter hdepth => exact ⟨hfits, hdepth⟩
  | leave hinner => exact ⟨hfits.1, hfits.2, hinner⟩

/-- A visit goes on as the same visit. -/
theorem Continues.visit?_eq {p : Plan} (h : pr.Continues p next d) : next.visit? = pr.visit? := by
  cases h <;> rfl

end Program

namespace Engine

variable {v v' : Visit} {r : Run}

/-- There is one visit for each outgoing edge. -/
theorem map_id_followers (v : Visit) :
    (followers v).map (·.node.id) = v.graph.targets v.node.id := by
  have hnodes : ∀ ids ⊆ v.graph.ids, (ids.filterMap v.graph.node?).map (·.id) = ids := by
    intro ids hids
    induction ids with
    | nil => rfl
    | cons id rest ih =>
      obtain ⟨hid, hrest⟩ := List.cons_subset.1 hids
      obtain ⟨n, hn⟩ := FlowGraph.exists_node? hid
      rw [List.filterMap_cons_some hn, List.map_cons, ih hrest, FlowGraph.id_of_node? hn]
  simp only [followers, List.map_map]
  exact hnodes _ fun id hid => FlowGraph.Leads.target_mem hid

/-- What follows a visit that is not too deep fits the run. -/
theorem fits_of_mem_followers (h : v.Fits r) (hdepth : ¬ r.plan.maxDepth < v.depth)
    (hv' : v' ∈ followers v) : v'.Fits r := by
  obtain ⟨n, hn, rfl⟩ := List.mem_map.1 hv'
  obtain ⟨id, hid, hnode⟩ := List.mem_filterMap.1 hn
  have hsame := FlowGraph.id_of_node? hnode
  subst hsame
  obtain ⟨w, hw, hlength⟩ := h.walk
  rw [h.graph] at hid hnode
  obtain ⟨i, hi⟩ := hw.extend hid
  refine ⟨h.graph, hnode, ⟨_, hi, by simp [hlength]⟩, Or.inr ?_⟩
  dsimp only
  omega

/-- What follows a visit is one step deeper. -/
theorem depth_of_mem_followers (hv' : v' ∈ followers v) : v'.depth = v.depth + 1 := by
  obtain ⟨n, -, rfl⟩ := List.mem_map.1 hv'
  rfl

end Engine

/-! ## Moves of the scheduler -/

/-- A task takes its turn from the queue of a scheduler. -/
def Scheduler.Takes (s : Scheduler Program Action) (id : FutureId)
    (awake : Scheduler Program Action) : Prop :=
  ∃ job rest, s.ready = job :: rest ∧ job.task? = some id ∧ awake = (s.drop rest).awaken id

/-- A move makes no futures, or a visit goes on behind a delay, or a visit branches. -/
theorem Move.shrinks_or {p : Plan} {s s' : Session} (h : Move p s s') :
    s.scheduler.Shrinks s'.scheduler ∨
    (∃ id awake pr next d, s.scheduler.Takes id awake ∧ s.scheduler.program? id = some pr ∧
      pr.Continues p next d ∧ awake.Goes id next d s'.scheduler) ∨
    ∃ id awake v, s.scheduler.Takes id awake ∧ s.scheduler.program? id = some (.fanOut v) ∧
      s'.scheduler = awake.branch id ((Engine.followers v).map .enter) (.join v) := by
  cases h with
  | advance _ hadvance => exact Or.inl (Scheduler.keeps_advance hadvance).shrinks
  | elapse hready =>
    exact Or.inl ((Scheduler.shrinks_drop hready rfl).trans (Scheduler.keeps_complete _ _).shrinks)
  | count hready =>
    exact Or.inl ((Scheduler.shrinks_drop hready rfl).trans (Scheduler.keeps_countChild _ _).shrinks)
  | enter hready htask hprogram _ hdepth hgoes =>
    exact Or.inr (Or.inl ⟨_, _, _, _, _, ⟨_, _, hready, htask, rfl⟩, hprogram, .enter hdepth, hgoes⟩)
  | leave hready htask hprogram _ hinner hgoes =>
    exact Or.inr (Or.inl ⟨_, _, _, _, _, ⟨_, _, hready, htask, rfl⟩, hprogram, .leave hinner, hgoes⟩)
  | fork hready htask hprogram =>
    exact Or.inr (Or.inr ⟨_, _, _, ⟨_, _, hready, htask, rfl⟩, hprogram, rfl⟩)
  | leaf hready htask | join hready htask | deep hready htask | halt hready htask | abandon hready htask
  | conclude hready htask =>
    exact Or.inl ((Scheduler.shrinks_awaken hready htask).trans (Scheduler.keeps_complete _ _).shrinks)

namespace Scheduler

variable {r : Run} {s s' : Scheduler Program Action} {a c i j id : FutureId}

/-- A task that goes on behind a delay is the only one whose program changes. -/
theorem Goes.program? {pr next : Program} {d : Delay} (hgoes : s.Goes id next d s')
    (hpr : s.program? id = some pr) (j : FutureId) :
    s'.program? j = if j = id then some next else s.program? j := by
  cases hgoes with
  | pause => exact program?_instruct hpr next
  | sleep => exact program?_doze hpr

/-- No future ends when a task goes on behind a delay. -/
theorem Goes.ending? {next : Program} {d : Delay} (hgoes : s.Goes id next d s')
    (hcalm : s.mustCancel id = false) (hlt : id < s.futures.length) : s'.ending? j = s.ending? j := by
  cases hgoes with
  | pause => exact ending?_modifyTask _
  | sleep => exact ending?_doze hcalm hlt

/-- A task that goes on behind a delay makes no gathering. -/
theorem Goes.gathering {pr next : Program} {d : Delay} {children : List FutureId}
    (hgoes : s.Goes id next d s') (hpr : s.program? id = some pr)
    (hg : s'.bareKind? j = some (.gathering children)) :
    s.bareKind? j = some (.gathering children) := by
  cases hgoes with
  | pause =>
    have hbare := (bareKind?_instruct (j := j) hpr next).symm.trans hg
    split at hbare
    · cases hbare
    · exact hbare
  | sleep =>
    rw [bareKind?_doze hpr] at hg
    split at hg
    · cases hg
    · split at hg
      · cases hg
      · exact hg

/-- The visit of a task. -/
def visit? (s : Scheduler Program Action) (id : FutureId) : Option Visit :=
  (s.program? id).bind (·.visit?)

/-- A visit waits for the end of another one that it has branched into. -/
def Parent (r : Run) (s : Scheduler Program Action) (a c : FutureId) : Prop :=
  r.base < a ∧ ∃ v children, s.program? a = some (.join v children) ∧ c ∈ children

/-- The tasks of a run are its caller and a tree of visits. -/
structure Tree (r : Run) (s : Scheduler Program Action) : Prop where
  caller : s.program? r.base = some (.conclude r.caller)
  fits : ∀ {id pr}, r.base < id → s.program? id = some pr → pr.Fits r
  root : s.visit? r.root = some ⟨r.graph, r.start, 0⟩
  children : ∀ {id v children}, r.base < id → s.program? id = some (.join v children) →
    (∀ c ∈ children, id < c) ∧ children.map s.visit? = (Engine.followers v).map some
  parent : ∀ {id pr}, r.root < id → s.program? id = some pr → ∃ a, s.Parent r a id
  unique : ∀ {a a' c}, s.Parent r a c → s.Parent r a' c → a = a'
  gathered : ∀ {id children}, r.base < id → s.bareKind? id = some (.gathering children) →
    ∀ c ∈ children, r.base < c ∧ ∃ v, s.visit? c = some v

/-- What has a visit has its program. -/
theorem visit?_eq_some_iff {v : Visit} :
    s.visit? id = some v ↔ ∃ pr, s.program? id = some pr ∧ pr.visit? = some v := by
  simp only [visit?, Option.bind_eq_some_iff]

/-- The visit of a task of a run fits the run, and the task is not the caller. -/
theorem Tree.visit_fits (h : s.Tree r) (hb : r.base ≤ id) {v : Visit} (hv : s.visit? id = some v) :
    r.base < id ∧ v.Fits r := by
  obtain ⟨pr, hpr, hvisit⟩ := visit?_eq_some_iff.1 hv
  rcases Nat.eq_or_lt_of_le hb with rfl | hid
  · cases h.caller.symm.trans hpr
    cases hvisit
  · obtain ⟨v', hvisit', hfits⟩ := (h.fits hid hpr).exists_visit
    cases hvisit.symm.trans hvisit'
    exact ⟨hid, hfits⟩

/-- A child of a visit is one that follows it. -/
theorem Tree.visit_of_child (h : s.Tree r) {v : Visit} {children : List FutureId} (hid : r.base < id)
    (hpr : s.program? id = some (.join v children)) (hc : c ∈ children) :
    id < c ∧ ∃ v' ∈ Engine.followers v, s.visit? c = some v' := by
  obtain ⟨hlt, hvisits⟩ := h.children hid hpr
  have hmem : s.visit? c ∈ (Engine.followers v).map some := hvisits ▸ List.mem_map_of_mem hc
  obtain ⟨v', hv', heq⟩ := List.mem_map.1 hmem
  exact ⟨hlt c hc, v', hv', heq.symm⟩

/-- Each visit that follows another one is made by a child. -/
theorem Tree.child_of_follower (h : s.Tree r) {v v' : Visit} {children : List FutureId}
    (hid : r.base < id) (hpr : s.program? id = some (.join v children))
    (hv' : v' ∈ Engine.followers v) : ∃ c ∈ children, s.visit? c = some v' := by
  have hmem : some v' ∈ children.map s.visit? := (h.children hid hpr).2 ▸ List.mem_map_of_mem hv'
  obtain ⟨c, hc, heq⟩ := List.mem_map.1 hmem
  exact ⟨c, hc, heq⟩

/-- The tree is told by the bare kinds. -/
theorem Tree.congr (h : s.Tree r) (hbare : ∀ id, s'.bareKind? id = s.bareKind? id) : s'.Tree r := by
  have hprogram : s'.program? = s.program? := by
    funext id
    exact program?_congr (hbare id)
  have hvisit : s'.visit? = s.visit? := by
    funext id
    rw [visit?, visit?, hprogram]
  refine ⟨?_, ?_, ?_, ?_, ?_, ?_, ?_⟩
  · rw [hprogram]
    exact h.caller
  · rw [hprogram]
    exact h.fits
  · rw [hvisit]
    exact h.root
  · rw [hprogram, hvisit]
    exact h.children
  · simp only [Parent, hprogram]
    exact h.parent
  · simp only [Parent, hprogram]
    exact h.unique
  · intro id children hid hg
    rw [hbare] at hg
    rw [hvisit]
    exact h.gathered hid hg

/-- A visit that goes on without branching keeps the tree. -/
theorem Tree.goes (h : s.Tree r) {pr next : Program} {d : Delay} (hid : r.base < id)
    (hpr : s.program? id = some pr) (hnext : pr.Continues r.plan next d)
    (hprogram : ∀ j, s'.program? j = if j = id then some next else s.program? j)
    (hgathering : ∀ j children, s'.bareKind? j = some (.gathering children) →
      s.bareKind? j = some (.gathering children)) : s'.Tree r := by
  have hvisit : s'.visit? = s.visit? := by
    funext j
    rw [visit?, visit?, hprogram]
    split
    · next heq =>
      rw [heq, hpr]
      exact hnext.visit?_eq
    · rfl
  have hjoins : ∀ {j v children}, s'.program? j = some (.join v children) ↔
      s.program? j = some (.join v children) := by
    intro j v children
    rw [hprogram]
    split
    · next heq =>
      rw [heq, hpr]
      constructor
      all_goals
        intro heq
        cases heq
        cases hnext
    · exact Iff.rfl
  have hparent : s'.Parent r = s.Parent r := by
    funext a c
    simp only [Parent, hjoins]
  refine ⟨?_, ?_, ?_, ?_, ?_, ?_, ?_⟩
  · rw [hprogram, if_neg (Nat.ne_of_lt hid)]
    exact h.caller
  · intro j pr' hj hpr'
    rw [hprogram] at hpr'
    split at hpr'
    · cases hpr'
      exact hnext.fits (h.fits hid hpr)
    · exact h.fits hj hpr'
  · rw [hvisit]
    exact h.root
  · intro j v children hj hpr'
    rw [hvisit]
    exact h.children hj (hjoins.1 hpr')
  · intro j pr' hj hpr'
    rw [hparent]
    rw [hprogram] at hpr'
    split at hpr'
    · next heq => exact h.parent hj (heq ▸ hpr)
    · exact h.parent hj hpr'
  · rw [hparent]
    exact h.unique
  · intro j children hj hg
    rw [hvisit]
    exact h.gathered hj (hgathering j children hg)

section Branch

variable {v v' : Visit} {children : List FutureId} (hpr : s.program? id = some (.fanOut v))
  (hbranch : s' = s.branch id ((Engine.followers v).map .enter) (.join v))

include hpr hbranch

/-- A visit that branches waits for its children, which have the visits that follow ahead of them. -/
theorem program?_of_branch (j : FutureId) : s'.program? j =
    if j = id then some (.join v (s.fresh (Engine.followers v).length))
    else if j < s.futures.length then s.program? j
    else ((Engine.followers v)[j - s.futures.length]?).map .enter := by
  rw [hbranch, program?_branch _ _ hpr, List.getElem?_map, List.length_map]

/-- The children of a visit that branches are behind all other tasks. -/
theorem visit?_of_branch (j : FutureId) : s'.visit? j =
    if j < s.futures.length then s.visit? j else (Engine.followers v)[j - s.futures.length]? := by
  rw [visit?, visit?, program?_of_branch hpr hbranch]
  split
  · next heq =>
    rw [heq, if_pos (lt_of_program? hpr), hpr]
    rfl
  · split
    · rfl
    · cases (Engine.followers v)[j - s.futures.length]? <;> rfl

/-- A task that has a visit keeps it as another one branches. -/
theorem visit?_of_branch_of_some (hj : s.visit? j = some v') : s'.visit? j = some v' := by
  obtain ⟨pr, hpr', -⟩ := visit?_eq_some_iff.1 hj
  rw [visit?_of_branch hpr hbranch, if_pos (lt_of_program? hpr'), hj]

/-- The children of a visit that branches make the visits that follow it, in their order. -/
theorem map_visit?_fresh :
    (s.fresh (Engine.followers v).length).map s'.visit? = (Engine.followers v).map some := by
  refine List.ext_getElem (by simp [fresh]) fun i hi hi' => ?_
  have hlt : i < (s.fresh (Engine.followers v).length).length := by simpa using hi
  have hget : (s.fresh (Engine.followers v).length)[i] = s.futures.length + i := by
    simp [fresh]
  rw [List.getElem_map, List.getElem_map, hget, visit?_of_branch hpr hbranch, if_neg (by lia),
    Nat.add_sub_cancel_left]
  exact List.getElem?_eq_getElem _

/-- What waits for children has branched just now, or before. -/
theorem join_of_branch (hj : s'.program? j = some (.join v' children)) :
    j = id ∧ v' = v ∧ children = s.fresh (Engine.followers v).length ∨
      s.program? j = some (.join v' children) := by
  rw [program?_of_branch hpr hbranch] at hj
  split at hj
  · next heq =>
    cases hj
    exact Or.inl ⟨heq, rfl, rfl⟩
  · split at hj
    · exact Or.inr hj
    · obtain ⟨v'', -, hcontra⟩ := Option.map_eq_some_iff.1 hj
      cases hcontra

/-- A visit that branches becomes the parent of its children. -/
theorem parent_branch_iff (hid : r.base < id) :
    s'.Parent r a c ↔ a = id ∧ c ∈ s.fresh (Engine.followers v).length ∨ s.Parent r a c := by
  constructor
  · rintro ⟨ha, v', children, hj, hc⟩
    rcases join_of_branch hpr hbranch hj with ⟨rfl, rfl, rfl⟩ | hj
    · exact Or.inl ⟨rfl, hc⟩
    · exact Or.inr ⟨ha, v', children, hj, hc⟩
  · rintro (⟨rfl, hc⟩ | ⟨ha, v', children, hj, hc⟩)
    · exact ⟨hid, v, _, (program?_of_branch hpr hbranch a).trans (if_pos rfl), hc⟩
    · refine ⟨ha, v', children, ?_, hc⟩
      rw [program?_of_branch hpr hbranch, if_neg, if_pos (lt_of_program? hj), hj]
      rintro rfl
      cases hpr.symm.trans hj

/-- A visit that branches, and its children, have programs that fit. -/
theorem Tree.fits_branch (h : s.Tree r) (hid : r.base < id) {pr : Program} (hj : r.base < j)
    (hpr' : s'.program? j = some pr) : pr.Fits r := by
  obtain ⟨hfits, hdepth, hinner⟩ := h.fits hid hpr
  rw [program?_of_branch hpr hbranch] at hpr'
  split at hpr'
  · cases hpr'
    exact ⟨hfits, hdepth, hinner⟩
  · split at hpr'
    · exact h.fits hj hpr'
    · obtain ⟨v', hv', rfl⟩ := Option.map_eq_some_iff.1 hpr'
      exact Engine.fits_of_mem_followers hfits hdepth (List.mem_of_getElem? hv')

/-- All tasks behind the root still have parents when a visit branches. -/
theorem Tree.parent_branch (h : s.Tree r) (hid : r.base < id) {pr : Program} (hj : r.root < j)
    (hpr' : s'.program? j = some pr) : ∃ a, s'.Parent r a j := by
  by_cases hold : j < s.futures.length
  · obtain ⟨pr', hpr''⟩ : ∃ pr', s.program? j = some pr' := by
      by_cases heq : j = id
      · exact ⟨_, heq ▸ hpr⟩
      · rw [program?_of_branch hpr hbranch, if_neg heq, if_pos hold] at hpr'
        exact ⟨pr, hpr'⟩
    obtain ⟨a, ha⟩ := h.parent hj hpr''
    exact ⟨a, (parent_branch_iff hpr hbranch hid).2 (Or.inr ha)⟩
  · have hlt := lt_of_program? hpr
    rw [program?_of_branch hpr hbranch, if_neg (by lia), if_neg hold] at hpr'
    obtain ⟨v', hv', -⟩ := Option.map_eq_some_iff.1 hpr'
    obtain ⟨hi, -⟩ := List.getElem?_eq_some_iff.1 hv'
    exact ⟨id, (parent_branch_iff hpr hbranch hid).2 (Or.inl ⟨rfl, mem_fresh.2 ⟨Nat.le_of_not_lt hold, by lia⟩⟩)⟩

/-- What is gathered when a visit branches are visits. -/
theorem Tree.gathered_branch (h : s.Tree r) (hid : r.base < id) (hj : r.base < j)
    (hg : s'.bareKind? j = some (.gathering children)) (hc : c ∈ children) :
    r.base < c ∧ ∃ v, s'.visit? c = some v := by
  rw [hbranch, bareKind?_branch hpr, List.length_map] at hg
  split at hg
  · cases hg
  · split at hg
    · obtain ⟨hlt, v', hv'⟩ := h.gathered hj hg c hc
      exact ⟨hlt, v', visit?_of_branch_of_some hpr hbranch hv'⟩
    · split at hg
      · cases hg
        obtain ⟨hge, hlt⟩ := mem_fresh.1 hc
        have hi : c - s.futures.length < (Engine.followers v).length := by lia
        refine ⟨Nat.lt_trans hid (Nat.lt_of_lt_of_le (lt_of_program? hpr) hge),
          (Engine.followers v)[c - s.futures.length], ?_⟩
        rw [visit?_of_branch hpr hbranch, if_neg (Nat.not_lt_of_le hge), List.getElem?_eq_getElem hi]
      · obtain ⟨v', -, hcontra⟩ := Option.map_eq_some_iff.1 hg
        cases hcontra

end Branch

/-- A visit that branches adds its children to the tree. -/
theorem Tree.branch (h : s.Tree r) {v : Visit} (hid : r.base < id)
    (hpr : s.program? id = some (.fanOut v)) :
    (s.branch id ((Engine.followers v).map .enter) (.join v)).Tree r := by
  generalize hs' : s.branch id ((Engine.followers v).map .enter) (.join v) = s'
  have hbranch := hs'.symm
  have hlt := lt_of_program? hpr
  have hold : ∀ {j v'}, s.visit? j = some v' → s'.visit? j = some v' := visit?_of_branch_of_some hpr hbranch
  refine ⟨?_, h.fits_branch hpr hbranch hid, hold h.root, fun {j v' children} hj hpr' => ?_,
    h.parent_branch hpr hbranch hid, fun {a a' c} ha ha' => ?_, fun hj hg c => h.gathered_branch hpr hbranch hid hj hg⟩
  · rw [program?_of_branch hpr hbranch, if_neg (Nat.ne_of_lt hid), if_pos (lt_of_program? h.caller)]
    exact h.caller
  · rcases join_of_branch hpr hbranch hpr' with ⟨rfl, rfl, rfl⟩ | hpr'
    · exact ⟨fun c hc => Nat.lt_of_lt_of_le hlt (mem_fresh.1 hc).1, map_visit?_fresh hpr hbranch⟩
    · obtain ⟨hgreater, hvisits⟩ := h.children hj hpr'
      refine ⟨hgreater, Eq.trans (List.map_congr_left fun c hc => ?_) hvisits⟩
      obtain ⟨-, v'', -, hv''⟩ := h.visit_of_child hj hpr' hc
      rw [hv'', hold hv'']
  · -- A child that is new has no parent of old.
    have hnew : ∀ {a}, c ∈ s.fresh (Engine.followers v).length → ¬ s.Parent r a c := by
      rintro a hc ⟨ha, v', children, hj, hc'⟩
      obtain ⟨-, v'', -, hv''⟩ := h.visit_of_child ha hj hc'
      obtain ⟨pr, hpr', -⟩ := visit?_eq_some_iff.1 hv''
      exact absurd (lt_of_program? hpr') (Nat.not_lt_of_le (mem_fresh.1 hc).1)
    rcases (parent_branch_iff hpr hbranch hid).1 ha with ⟨rfl, hc⟩ | ha <;>
      rcases (parent_branch_iff hpr hbranch hid).1 ha' with ⟨rfl, hc'⟩ | ha'
    · rfl
    · exact absurd ha' (hnew hc)
    · exact absurd ha (hnew hc')
    · exact h.unique ha ha'

end Scheduler

end PipelineGraph.Simulation
