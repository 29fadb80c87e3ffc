import PipelineGraph.Proofs.Simulation.Endings

/-!
# What the end of a visit tells

A visit that has ended well is one of a node without outgoing edges, or all visits that follow it
have ended well. So a root that has ended well has all walks from the start behind it. A fault of a
run names the end of a walk that is one edge too long.
-/

namespace PipelineGraph.Simulation

/-- A fault that a run may come to: it names the end of a walk that is one edge too long. -/
def Run.Blames (r : Run) (f : Fault) : Prop :=
  ∃ node w, f = .depth node r.plan.maxDepth ∧ r.graph.IsWalk r.start.id w node ∧
    w.length = (r.plan.maxDepth + 1).toNat

namespace Scheduler

/-- A program with nothing left to visit. -/
def Done (s : Scheduler Program Action) (pr : Program) : Prop :=
  (∃ v, pr = .leave v ∧ v.graph.targets v.node.id = []) ∨
    ∃ v children, pr = .join v children ∧ ∀ c ∈ children, s.ending? c = some (.ok ())

/-- Visits that have ended well have nothing left to visit, and faults blame a walk. -/
structure Outcome (r : Run) (s : Scheduler Program Action) : Prop where
  ok : ∀ {id pr}, r.base < id → s.program? id = some pr → s.ending? id = some (.ok ()) → s.Done pr
  fault : ∀ {id f}, r.base < id → s.ending? id = some (.error (.fault f)) → r.Blames f

end Scheduler

open Scheduler

variable {r : Run} {s s' : Session} {id : FutureId} {e : Ending}

/-- A future that has ended has the same program after a move. -/
theorem Move.program?_of_ended {p : Plan} (h : Move p s s') {b : FutureId}
    (hs : s.scheduler.Sound b fun _ => False) (he : s.scheduler.ending? id = some e) :
    s'.scheduler.program? id = s.scheduler.program? id := by
  have hlt : id < s.scheduler.futures.length := by
    obtain ⟨f, hf, -⟩ := ending?_eq_some_iff.1 he
    exact lt_of_future? hf
  have hne : ∀ {i awake}, s.scheduler.Takes i awake → id ≠ i := by
    rintro i awake htakes rfl
    rw [(htakes.live hs).2] at he
    cases he
  rcases h.shrinks_or with hshrinks | ⟨i, awake, pr, next, d, htakes, hpr, -, hgoes⟩ |
    ⟨i, awake, v, htakes, hpr, heq⟩
  · exact program?_congr (hshrinks.bareKind id)
  · rw [hgoes.program? ((htakes.program? i).trans hpr), if_neg (hne htakes)]
    exact htakes.program? id
  · rw [heq, program?_branch _ _ ((htakes.program? i).trans hpr), if_neg (hne htakes),
      if_pos (Nat.lt_of_lt_of_eq hlt htakes.shrinks.length.symm)]
    exact htakes.program? id

/-- A visit that is too deep is at the end of a walk that is one edge too long. -/
theorem Visit.Fits.blames {v : Visit} (h : v.Fits r) (hdepth : r.plan.maxDepth < v.depth) :
    r.Blames (.depth v.node.id r.plan.maxDepth) := by
  obtain ⟨w, hw, hlength⟩ := h.walk
  refine ⟨v.node.id, w, rfl, hw, ?_⟩
  have hle := h.depth
  omega

namespace Scheduler

variable {σ : Scheduler Program Action} {pr : Program} {v : Visit} {job : Job Action} {source : FutureId}

/-- A child that is counted for a gathering of the run belongs to the run. -/
theorem Orderly.base_lt_of_count (hs : σ.Orderly r) {g c : FutureId} (hg : r.base < g)
    (hcount : .count g c ∈ σ.jobs) : r.base < c := by
  obtain ⟨-, g', hg', hc⟩ := hs.sound.count_child hcount
  exact (hs.tree.gathered hg (bareKind?_eq_gathering_iff.2 ⟨g', hg', rfl⟩) c hc).1

/-- What a visit is woken by is what it waits for, and belongs to the run. -/
theorem Orderly.awaits_of_source (hs : σ.Orderly r) (hjob : job ∈ σ.ready) (htask : job.task? = some id)
    (hsource : job.source? = some source) (hpr : σ.program? id = some pr) (hvisit : pr.visit? = some v) :
    pr.Awaits r σ source ∧ r.base < source := by
  obtain rfl := Job.eq_wake htask hsource
  obtain ⟨pr', hpr', hawaits⟩ := hs.waiting.suits (List.mem_append_left _ (List.mem_append_left _ hjob))
  cases hpr'.symm.trans hpr
  refine ⟨hawaits, ?_⟩
  cases pr with
  | leave | fanOut | join => exact hawaits.1
  | enter => exact hawaits.elim
  | call | conclude => cases hvisit

/-- A visit that joins without an interrupt has all its children ended well. -/
theorem Orderly.children_ok_of_join (hs : σ.Orderly r) {children : List FutureId} (hjob : job ∈ σ.ready)
    (htask : job.task? = some id) (hpr : σ.program? id = some (.join v children))
    (hcalm : σ.interrupt? id job = none) {c : FutureId} (hc : c ∈ children) :
    σ.ending? c = some (.ok ()) := by
  obtain ⟨-, hnot⟩ := uninterrupted_of_interrupt? hcalm
  cases job with
  | resume =>
    cases htask
    obtain ⟨pr, hpr', hactive⟩ := hs.waiting.suits (List.mem_append_left _ (List.mem_append_left _ hjob))
    cases hpr'.symm.trans hpr
    cases hactive
  | wake t source =>
    cases htask
    obtain ⟨⟨-, hgathering⟩, hlt⟩ := hs.awaits_of_source hjob rfl rfl hpr rfl
    obtain ⟨e, he⟩ := Option.ne_none_iff_exists'.1 (hs.sound.ready_source hjob rfl)
    obtain ⟨g, hg, hchildren⟩ := bareKind?_eq_gathering_iff.1 hgathering
    obtain ⟨f, hf, hk⟩ := kind?_eq_some_iff.1 hg
    have hend : f.ending = some (.ok ()) := by
      rw [ending?, hf, Option.bind_some] at he
      cases e with
      | ok => exact he
      | error x => exact absurd (by rw [ending?, hf, Option.bind_some, he]) (hnot source x rfl)
    exact hs.sound.children_ok (Nat.le_of_lt hlt) hf hk hend c (hchildren ▸ hc)
  | count | elapse | act => cases htask

/-- A visit that ends well has nothing left to visit. -/
theorem Orderly.done_of_ends (hs : σ.Orderly r) (hid : r.base < id) (hpr : σ.program? id = some pr)
    (hends : Ends r.plan σ id (.ok ())) : σ.Done pr := by
  have hnone : ∀ o, σ.bareKind? id = some o → o = .task pr := fun o ho =>
    Option.some.inj (ho.symm.trans (bareKind?_eq_task_iff.2 hpr))
  cases hends with
  | slept hsleep => cases hnone _ hsleep
  | gathered hcount =>
    obtain ⟨-, g, hg, -⟩ := hs.sound.count_child hcount
    cases hnone _ (bareKind?_eq_gathering_iff.2 ⟨g, hg, rfl⟩)
  | leaf hpr' hleaf =>
    cases hpr'.symm.trans hpr
    exact Or.inl ⟨_, rfl, hleaf⟩
  | @join job v children hjob htask hpr' hcalm =>
    cases hpr'.symm.trans hpr
    exact Or.inr ⟨v, children, rfl, fun c hc => hs.children_ok_of_join hjob htask hpr' hcalm hc⟩
  | caller _ _ hpr' =>
    cases hpr'.symm.trans hpr
    exact (hs.tree.fits hid hpr).elim

/-- A visit that ends with a fault blames a walk, as every fault that is there already does. -/
theorem Orderly.blames_of_ends (hs : σ.Orderly r) (ho : σ.Outcome r) (hid : r.base < id) {f : Fault}
    (hends : Ends r.plan σ id (.error (.fault f))) : r.Blames f := by
  cases hends with
  | child hcount hc => exact ho.fault (hs.base_lt_of_count hid hcount) hc
  | deep _ _ hpr hdepth => exact (hs.tree.fits hid hpr : Visit.Fits r _).blames hdepth
  | interruption hjob htask hpr hvisit hinterrupt =>
    rcases interruption_of_interrupt? hinterrupt with ⟨-, heq⟩ | ⟨source, hsource, hend⟩
    · cases heq
    · exact ho.fault (hs.awaits_of_source hjob htask hsource hpr hvisit).2 hend

end Scheduler

/-- Every move keeps what the ends of visits tell. -/
theorem Move.outcome (h : Move r.plan s s') (hs : s.scheduler.Orderly r)
    (ho : s.scheduler.Outcome r) : s'.scheduler.Outcome r := by
  have hdone : ∀ {pr}, s.scheduler.Done pr → s'.scheduler.Done pr := by
    intro pr hdone
    refine hdone.imp id fun ⟨v, children, hpr, hchildren⟩ => ?_
    exact ⟨v, children, hpr, fun c hc => h.ending?_stays hs.sound (hchildren c hc)⟩
  refine ⟨fun {id pr} hid hpr hok => ?_, fun {id f} hid hfault => ?_⟩
  · rcases h.ending?_cases hs.sound id with hsame | ⟨-, hsame, e, he, hends⟩
    · rw [hsame] at hok
      rw [h.program?_of_ended hs.sound hok] at hpr
      exact hdone (ho.ok hid hpr hok)
    · rw [hsame] at hpr
      cases he.symm.trans hok
      exact hdone (hs.done_of_ends hid hpr hends)
  · rcases h.ending?_cases hs.sound id with hsame | ⟨-, -, e, he, hends⟩
    · exact ho.fault hid (hsame.symm.trans hfault)
    · cases he.symm.trans hfault
      exact hs.blames_of_ends ho hid hends

namespace Scheduler

variable {σ : Scheduler Program Action}

/-- If the root has ended well then so have all visits. -/
theorem Outcome.all_ok (ho : σ.Outcome r) (ht : σ.Tree r) (hroot : σ.ending? r.root = some (.ok ()))
    {id : FutureId} {pr : Program} (hid : r.base < id) (hpr : σ.program? id = some pr) :
    σ.ending? id = some (.ok ()) := by
  induction id using Nat.strongRecOn generalizing pr with
  | ind id ih =>
    by_cases heq : id = r.root
    · rw [heq, hroot]
    · have hlt : r.root < id := by
        unfold Run.root at heq ⊢
        lia
      obtain ⟨a, ha, v, children, hjoin, hc⟩ := ht.parent hlt hpr
      have hlt' := (ht.children ha hjoin).1 id hc
      rcases ho.ok ha hjoin (ih a hlt' ha hjoin) with ⟨v', heq, -⟩ | ⟨v', children', heq, hchildren⟩
      · cases heq
      · cases heq
        exact hchildren id hc

/-- A visit that has ended well has walks ahead that are not too long. -/
theorem Outcome.walk_le (ho : σ.Outcome r) (ht : σ.Tree r) {id : FutureId} {v : Visit}
    (hid : r.base < id) (hv : σ.visit? id = some v) (hok : σ.ending? id = some (.ok ()))
    {w : r.graph.Walk} {x : Text} (hw : r.graph.IsWalk v.node.id w x) :
    ((v.depth + w.length : Nat) : Int) ≤ r.plan.maxDepth := by
  obtain ⟨pr, hpr, hvisit⟩ := visit?_eq_some_iff.1 hv
  have hfits := ht.fits hid hpr
  induction w generalizing id v pr with
  | nil =>
    rcases ho.ok hid hpr hok with ⟨v', rfl, -⟩ | ⟨v', children, rfl, -⟩
    all_goals
      cases hvisit
      have hdepth := hfits.2
      simp_all
  | cons i rest ih =>
    obtain ⟨hsource, hrest⟩ := hw
    have hlead : r.graph.edges[i].target ∈ r.graph.targets v.node.id :=
      FlowGraph.leads_iff.2 ⟨i, hsource, rfl⟩
    rcases ho.ok hid hpr hok with ⟨v', rfl, hleaf⟩ | ⟨v', children, rfl, hchildren⟩
    · cases hvisit
      rw [hfits.1.graph] at hleaf
      rw [hleaf] at hlead
      cases hlead
    · cases hvisit
      have hids : v.graph.targets v.node.id = r.graph.targets v.node.id := by rw [hfits.1.graph]
      rw [← hids, ← Engine.map_id_followers] at hlead
      obtain ⟨v'', hv'', hnode⟩ := List.mem_map.1 hlead
      obtain ⟨c, hc, hvc⟩ := ht.child_of_follower hid hpr hv''
      have hlt := (ht.children hid hpr).1 c hc
      obtain ⟨pr', hpr', hvisit'⟩ := visit?_eq_some_iff.1 hvc
      have hle := ih (Nat.lt_trans hid hlt) hvc (hchildren c hc) (hnode ▸ hrest) pr' hpr' hvisit'
        (ht.fits (Nat.lt_trans hid hlt) hpr')
      rw [Engine.depth_of_mem_followers hv''] at hle
      rw [List.length_cons]
      omega

end Scheduler

end PipelineGraph.Simulation
