import PipelineGraph.Proofs.Simulation.ToldEvents

/-!
# Simulations that walk every path

A simulation that meets neither a cycle nor a walk that is too long makes one visit for each walk from
its start. Each visit makes its node active, clears it, and tells once where it branches, if it does;
the run is finished when all of them are over.
-/

namespace PipelineGraph.Simulation

open Scheduler Finset

/-! ## What a visit reports -/

namespace Event

/-- Whether a node becomes active. -/
def activates (id : Text) : Event → Bool
  | nodeActive node _ => node.id = id
  | _ => false

/-- Whether a node is cleared. -/
def clears (id : Text) : Event → Bool
  | nodeCleared id' => id' = id
  | _ => false

end Event

/-- All events of which a visit tells. -/
def Visit.report (v : Visit) : List Event :=
  [.nodeActive v.node v.depth, .nodeCleared v.node.id] ++
    if v.graph.targets v.node.id = [] then [] else [.fanOut v.node.id (v.graph.targets v.node.id)]

namespace Visit

variable {v : Visit} {x : Text}

/-- A visit makes its own node active, and no other one. -/
theorem count_activates : v.report.countP (Event.activates x) = if v.node.id = x then 1 else 0 := by
  by_cases hleaf : v.graph.targets v.node.id = []
  · rw [report, if_pos hleaf]
    simp [Event.activates, List.countP_cons]
  · rw [report, if_neg hleaf]
    simp [Event.activates, List.countP_cons]

/-- A visit clears its own node, and no other one. -/
theorem count_clears : v.report.countP (Event.clears x) = if v.node.id = x then 1 else 0 := by
  by_cases hleaf : v.graph.targets v.node.id = []
  · rw [report, if_pos hleaf]
    simp [Event.clears, List.countP_cons]
  · rw [report, if_neg hleaf]
    simp [Event.clears, List.countP_cons]

end Visit

section Done

variable {r : Run} {σ : Scheduler Program Action} {pr : Program} {v : Visit}

/-- A visit that is done has told all. -/
theorem Program.told_of_done (hfits : pr.Fits r) (hdone : σ.Done pr) (hv : pr.visit? = some v) :
    pr.told true = v.report := by
  rcases hdone with ⟨v', rfl, hleaf⟩ | ⟨v', children, rfl, -⟩
  · cases hv
    rw [Visit.report, if_pos hleaf]
    rfl
  · cases hv
    rw [Visit.report, if_neg hfits.2.2]
    rfl

/-- A visit that is done has nothing ahead. -/
theorem Program.tour_of_done (hdone : σ.Done pr) (hv : pr.visit? = some v) (f : Text → Nat) :
    pr.tour r f = f v.node.id := by
  rcases hdone with ⟨v', rfl, hleaf⟩ | ⟨v', children, rfl, -⟩
  · cases hv
    rw [tour, Visit.ahead, hleaf]
    rfl
  · cases hv
    rfl

end Done

namespace Engine

variable {r : Run} {before : List (Nat × Entry)} {s : Session}

/-- In a run whose root has ended well, the visits are those that were ahead. -/
theorem sum_visits (hc : Course r before s) (hroot : s.scheduler.ending? r.root = some (.ok ())) (f : Text → Nat) :
    ∑ id ∈ Ico r.root s.scheduler.futures.length, (s.scheduler.visit? id).elim 0 (fun v => f v.node.id) =
      s.scheduler.load r fun pr _ => pr.tour r f := by
  have hlt : r.base < s.scheduler.futures.length := lt_of_program? hc.orderly.tree.caller
  unfold Scheduler.load
  rw [Finset.sum_eq_sum_Ico_succ_bot hlt, hc.orderly.tree.caller]
  refine Eq.trans (Finset.sum_congr rfl fun id hid => ?_) (Nat.zero_add _).symm
  have hbase : r.base < id := (mem_Ico.1 hid).1
  unfold visit?
  cases hpr : s.scheduler.program? id with
  | none => rfl
  | some pr =>
    obtain ⟨v, hv, -⟩ := (hc.orderly.tree.fits hbase hpr).exists_visit
    have hok := hc.outcome.all_ok hc.orderly.tree hroot hbase hpr
    rw [Option.bind_some, hv]
    exact (Program.tour_of_done (hc.outcome.ok hbase hpr hok) hv f).symm

/-- In a run whose root has ended well, every visit has told all. -/
theorem told_visit (hc : Course r before s) (hroot : s.scheduler.ending? r.root = some (.ok ())) {id : FutureId}
    (hid : r.base < id) {v : Visit} (hv : s.scheduler.visit? id = some v) :
    s.scheduler.told id = v.report := by
  obtain ⟨pr, hpr, hv⟩ := visit?_eq_some_iff.1 hv
  have hok := hc.outcome.all_ok hc.orderly.tree hroot hid hpr
  rw [told_of_program? hpr, hasEnded, hok]
  exact Program.told_of_done (hc.orderly.tree.fits hid hpr) (hc.outcome.ok hid hpr hok) hv

/-- What is no visit of a run has told nothing. -/
theorem told_of_visit?_none (hc : Course r before s) {id : FutureId} (hid : r.base < id)
    (hv : s.scheduler.visit? id = none) : s.scheduler.told id = [] := by
  rw [told]
  cases hpr : s.scheduler.program? id with
  | none => rfl
  | some pr =>
    obtain ⟨v, hv', -⟩ := (hc.orderly.tree.fits hid hpr).exists_visit
    rw [visit?, hpr, Option.bind_some, hv'] at hv
    cases hv

section Uninterrupted

variable (hhooks : r.plan.hooks = []) (hdwell : ∀ e, r.plan.dwell ≠ .unusable e)
  (hedge : ∀ e, r.plan.edgeDelay ≠ .unusable e)
  (hwalks : ∀ w x, r.graph.IsWalk r.start.id w x → (w.length : Int) ≤ r.plan.maxDepth)

include hhooks hdwell hedge hwalks

/-- A run without a walk that is too long keeps to its course and stays uninterrupted. -/
theorem uninterrupted_run (n : Nat) (hc : Course r before s) (hcalm : s.scheduler.Uninterrupted r) :
    Course r before (run r.plan n s) ∧ (run r.plan n s).scheduler.Uninterrupted r := by
  induction n generalizing s with
  | zero => exact ⟨hc, hcalm⟩
  | succ n ih =>
    cases hstep : step? r.plan s with
    | none =>
      rw [run_of_step?_none hstep]
      exact ⟨hc, hcalm⟩
    | some s' =>
      obtain ⟨hc', hcalm'⟩ := uninterrupted_of_step hhooks hdwell hedge hwalks hc hcalm hstep
      rw [run_succ hstep]
      exact ih hc' hcalm'

/-- A run from its beginning to its end writes what its visits report. -/
theorem written_run (hlistens : r.plan.listens = true) (hbegun : s.scheduler.Begun r) (hc : Course r before s) (n : Nat)
    (hroot : (run r.plan n s).scheduler.ending? r.root = some (.ok ())) {id : FutureId} (hid : r.base < id) :
    observe Entry.event? (written r.plan id n s) =
      ((run r.plan n s).scheduler.visit? id).elim [] Visit.report := by
  obtain ⟨hc', -⟩ := uninterrupted_run hhooks hdwell hedge hwalks n hc hbegun.uninterrupted
  have hnothing : s.scheduler.told id = [] := by
    rw [told]
    cases hpr : s.scheduler.program? id with
    | none => rfl
    | some pr =>
      obtain ⟨-, rfl⟩ := hbegun.program?_eq hid hpr
      rfl
  have htold := told_run hhooks hdwell hedge hwalks hlistens hid n hc hbegun.uninterrupted
  rw [hnothing, List.nil_append] at htold
  rw [← htold]
  cases hv : (run r.plan n s).scheduler.visit? id with
  | none => exact told_of_visit?_none hc' hid hv
  | some v => exact told_visit hc' hroot hid hv

/-- What a run writes of a kind of event is counted by the walks from its start, if each visit reports
as much of it as its node tells. -/
theorem count_visits (hr : r.IsFinite) (hnode : r.graph.node? r.start.id = some r.start)
    (hlistens : r.plan.listens = true) (hbegun : s.scheduler.Begun r) (hc : Course r before s) (n : Nat)
    (hroot : (run r.plan n s).scheduler.ending? r.root = some (.ok ())) {P : Event → Bool} {f : Text → Nat}
    (hP : ∀ verdict, P (.ended verdict) = false) (hf : ∀ v : Visit, v.report.countP P = f v.node.id) :
    ∃ entries, (run r.plan n s).trace = s.trace ++ entries ∧
      (observe Entry.event? entries).countP P = r.graph.walkSum f r.graph.nodes.length r.start.id := by
  obtain ⟨hc', -⟩ := uninterrupted_run hhooks hdwell hedge hwalks n hc hbegun.uninterrupted
  obtain ⟨entries, htrace, hcount⟩ := count_run hhooks hdwell hedge hP n hc
  have hfits : Visit.Fits r ⟨r.graph, r.start, 0⟩ := ⟨rfl, hnode, ⟨[], rfl, rfl⟩, Or.inl rfl⟩
  refine ⟨entries, htrace, ?_⟩
  calc (observe Entry.event? entries).countP P
      = ∑ id ∈ Ico r.root (run r.plan n s).scheduler.futures.length,
          ((run r.plan n s).scheduler.visit? id).elim 0 fun v => f v.node.id := by
        rw [hcount]
        refine Finset.sum_congr rfl fun id hid => ?_
        rw [written_run hhooks hdwell hedge hwalks hlistens hbegun hc n hroot (mem_Ico.1 hid).1]
        cases (run r.plan n s).scheduler.visit? id with
        | none => rfl
        | some v => exact hf v
    _ = s.scheduler.load r fun pr _ => pr.tour r f := by
        rw [sum_visits hc' hroot, load_tour_run hhooks hdwell hedge hr f n hc]
    _ = r.graph.walkSum f r.graph.nodes.length r.start.id := by
        rw [hbegun.load]
        exact (Nat.zero_add _).trans (hfits.walkSum_eq hr).symm

/-- A run without a cycle and without a walk that is too long is finished. -/
theorem finished_run (hr : r.IsFinite) (hc : Course r before s) (hcalm : s.scheduler.Uninterrupted r) {n : Nat}
    (hn : s.scheduler.remaining r ≤ n) :
    Concluded r before (run r.plan n s) (.ok ()) ∧ (run r.plan n s).IsAtRest := by
  obtain ⟨⟨e, hconcluded⟩, -, hrest⟩ := concluded_run hhooks hdwell hedge hr hc hn
  obtain ⟨-, hcalm'⟩ := uninterrupted_run hhooks hdwell hedge hwalks n hc hcalm
  cases e with
  | ok => exact ⟨hconcluded, hrest⟩
  | error i => exact absurd hconcluded.root.1 (hcalm'.ending (Nat.le_of_lt r.base_lt_root))

end Uninterrupted

end Engine

/-! ## Simulations -/

namespace Engine

variable {p : Plan} {s : Session} {graph : Snapshot} {start : Node}

/-- The step after a simulation was asked for in a session at rest is the turn of the caller. -/
theorem turn?_simulate (hrest : s.IsAtRest) :
    (act s (.simulate (.ok graph))).turn? = some s.scheduler.futures.length := by
  have hready := (nil_of_jobs hrest).1
  simp [Session.turn?, act, spawn, make, push, hready, Job.task?]

/-- A simulation of a graph without a cycle and without a walk that is too long begins its course in its
first step, and comes to rest after its root has ended well. -/
theorem exists_finished_run (hhooks : p.hooks = []) (hrest : s.IsAtRest) (hstatus : s.machine.status ≠ .running)
    (hdwell : ∀ e, p.dwell ≠ .unusable e) (hedge : ∀ e, p.edgeDelay ≠ .unusable e)
    (hstart : graph.flow.start? = some start) (hacyclic : ¬ graph.flow.IsCyclicFrom start.id)
    (hwalks : ∀ w x, graph.flow.IsWalk start.id w x → (w.length : Int) ≤ p.maxDepth) :
    let r : Run := ⟨p, graph.flow, start, s.callers.length, s.scheduler.futures.length⟩
    let before := s.trace ++ p.opening s.scheduler.now s.machine.status graph
    let n := (Action.simulate (.ok graph)).stepBound - 1
    r.IsFinite ∧ r.graph.node? r.start.id = some r.start ∧
      ∃ s₁, step? p (act s (.simulate (.ok graph))) = some s₁ ∧ s₁.scheduler.Begun r ∧ s₁.trace = before ∧
        Course r before s₁ ∧ Concluded r before (run p n s₁) (.ok ()) ∧ (run p n s₁).IsAtRest := by
  intro r before n
  have hmem := FlowGraph.mem_of_start? hstart
  have hnode := FlowGraph.node?_of_mem hmem
  have hid : start.id ∈ graph.flow.ids := List.mem_map_of_mem hmem
  obtain ⟨s₁, hstep, hbegun, htrace, hcourse⟩ := step?_simulate_acyclic hhooks hrest hstatus hstart hnode
    ((FlowGraph.findCycle?_eq_none_iff hid).2 hacyclic)
  have hfinite : r.IsFinite := ⟨hid, hacyclic⟩
  obtain ⟨hconcluded, hrest'⟩ := finished_run hhooks hdwell hedge hwalks hfinite hcourse hbegun.uninterrupted
    (remaining_le rfl hfinite hnode hbegun)
  exact ⟨hfinite, hnode, s₁, hstep, hbegun, htrace, hcourse, hconcluded, hrest'⟩

/-- A simulation of a graph without a cycle and without a walk that is too long is finished. It makes each
node active, and clears it, as often as there are walks from the start to the node; each visit of a node
with outgoing edges tells once of their ends; and the status moves to finished when all this is over. -/
theorem simulate_visits_walks (hhooks : p.hooks = []) (hrest : s.IsAtRest) (hstatus : s.machine.status ≠ .running)
    (hdwell : ∀ e, p.dwell ≠ .unusable e) (hedge : ∀ e, p.edgeDelay ≠ .unusable e) (hlistens : p.listens = true)
    (hstart : graph.flow.start? = some start) (hacyclic : ¬ graph.flow.IsCyclicFrom start.id)
    (hwalks : ∀ w x, graph.flow.IsWalk start.id w x → (w.length : Int) ≤ p.maxDepth) :
    let n := (Action.simulate (.ok graph)).stepBound
    let s₀ := act s (.simulate (.ok graph))
    let s' := run p n s₀
    ∃ entries, s.Answers p s' entries .returned ∧ s'.machine.status = .finished ∧
      (∀ x, ((observe Entry.event? entries).countP (Event.activates x) : ℕ∞) =
          {w | graph.flow.IsWalk start.id w x}.encard ∧
        ((observe Entry.event? entries).countP (Event.clears x) : ℕ∞) = {w | graph.flow.IsWalk start.id w x}.encard) ∧
      (∀ id v, s.scheduler.futures.length < id → s'.scheduler.visit? id = some v →
        observe Entry.event? (written p id n s₀) = [.nodeActive v.node v.depth, .nodeCleared v.node.id] ++
          if graph.flow.targets v.node.id = [] then []
          else [.fanOut v.node.id (graph.flow.targets v.node.id)]) ∧
      ∃ early late now, entries = early ++
          (now, .state ⟨.status, some RunStatus.running.name, some RunStatus.finished.name⟩) :: late ∧
        observe Entry.event? late = [.ended .finished] ∧ observe (Entry.change? .active) late = [] := by
  intro n s₀ s'
  have hmem := FlowGraph.mem_of_start? hstart
  have hnode := FlowGraph.node?_of_mem hmem
  have hid : start.id ∈ graph.flow.ids := List.mem_map_of_mem hmem
  obtain ⟨s₁, hstep, hbegun, htrace₁, hcourse⟩ := step?_simulate_acyclic hhooks hrest hstatus hstart hnode
    ((FlowGraph.findCycle?_eq_none_iff hid).2 hacyclic)
  have hfinite : Run.IsFinite ⟨p, graph.flow, start, s.callers.length, s.scheduler.futures.length⟩ :=
    ⟨hid, hacyclic⟩
  have hrun : s' = run p ((Action.simulate (.ok graph)).stepBound - 1) s₁ := run_succ hstep _
  obtain ⟨hconcluded, hrest'⟩ := finished_run hhooks hdwell hedge hwalks hfinite hcourse hbegun.uninterrupted
    (remaining_le rfl hfinite hnode hbegun)
  have hroot := hconcluded.root.1
  obtain ⟨middle, now, active, htrace, hwrites⟩ := hconcluded.trace
  obtain ⟨entries, hanswers⟩ := answers_of_concluded hconcluded hrest'
  -- What is written begins with the opening of the run and ends with its closing.
  have hentries : entries = p.opening s.scheduler.now s.machine.status graph ++ middle ++
      (p.closing now active .finished ++ [(now, .result s.callers.length .returned)]) := by
    refine (List.append_cancel_left_eq s.trace _ _).mp ?_
    rw [← hanswers.trace, htrace]
    simp only [List.append_assoc]
    rfl
  have hcount : ∀ {P : Event → Bool} {f : Text → Nat}, (∀ verdict, P (.ended verdict) = false) →
      P (.started graph.summary) = false → (∀ v : Visit, v.report.countP P = f v.node.id) →
      (observe Entry.event? entries).countP P = graph.flow.walkSum f graph.flow.nodes.length start.id := by
    intro P f hended hstarted hreport
    obtain ⟨later, hlater, hsum⟩ := count_visits hhooks hdwell hedge hwalks hfinite hnode hlistens hbegun hcourse _
      hroot hended hreport
    have hsplit : entries = p.opening s.scheduler.now s.machine.status graph ++ later := by
      refine (List.append_cancel_left_eq s.trace _ _).mp ?_
      rw [← hanswers.trace, hlater, htrace₁, List.append_assoc]
    rw [hsplit, observe_append, List.countP_append, hsum]
    simp [Plan.opening, Entry.event?, hlistens, hstarted]
  have hends : ∀ x, {w | graph.flow.IsWalk start.id w x}.encard =
      graph.flow.walkSum (fun y => if y = x then 1 else 0) graph.flow.nodes.length start.id := fun x =>
    FlowGraph.encard_isWalk fun w hw => hw.length_lt hid hacyclic
  have hfinal := hconcluded.status
  rw [← hrun] at hanswers hroot hfinal
  refine ⟨entries, hanswers, hfinal, fun x => ?_, fun id v hnew hv => ?_, ?_⟩
  · have hactive := hcount (f := fun y => if y = x then 1 else 0) (fun _ => rfl) rfl fun v =>
      Visit.count_activates (x := x)
    have hcleared := hcount (f := fun y => if y = x then 1 else 0) (fun _ => rfl) rfl fun v =>
      Visit.count_clears (x := x)
    rw [hends, hactive, hcleared]
    exact ⟨rfl, rfl⟩
  · have hfirst : s₀.writtenBy id s₁ = [] := Session.writtenBy_of_ne (turn?_simulate hrest) (Nat.ne_of_gt hnew)
    rw [hrun] at hv hroot
    have hwritten := written_run hhooks hdwell hedge hwalks hlistens hbegun hcourse _ hroot hnew
    obtain ⟨hfinal', -⟩ := uninterrupted_run hhooks hdwell hedge hwalks _ hcourse hbegun.uninterrupted
    obtain ⟨pr, hpr, hvisit⟩ := visit?_eq_some_iff.1 hv
    obtain ⟨v', hv', hfits⟩ := (hfinal'.orderly.tree.fits hnew hpr).exists_visit
    cases hvisit.symm.trans hv'
    rw [hv] at hwritten
    have hsteps : written p id n s₀ = written p id ((Action.simulate (.ok graph)).stepBound - 1) s₁ := by
      change written p id ((Action.simulate (.ok graph)).stepBound - 1 + 1) s₀ = _
      rw [written, hstep]
      exact (congrArg (· ++ _) hfirst).trans (List.nil_append _)
    refine (congrArg (observe Entry.event?) hsteps).trans (hwritten.trans ?_)
    rw [Option.elim_some, Visit.report, hfits.graph]
  · refine ⟨p.opening s.scheduler.now s.machine.status graph ++ middle ++
      (if active.isSome then [(now, .state ⟨.active, active, none⟩)] else []),
      p.heard now (.ended .finished) ++ [(now, .result s.callers.length .returned)], now, ?_, ?_, ?_⟩
    · rw [hentries, Plan.closing]
      simp only [List.append_assoc, List.cons_append]
      rfl
    · simp [hlistens, Entry.event?]
    · simp [hlistens, Entry.change?]

/-- The demo graph is walked to its end. -/
theorem simulate_visits_walks_demo : ∃ entries, Session.Answers ⟨.pause, .timer 5, 4, [], true⟩ {}
      (run ⟨.pause, .timer 5, 4, [], true⟩ (Action.simulate (.ok .demo)).stepBound
        (act {} (.simulate (.ok .demo)))) entries .returned ∧
    ((observe Entry.event? entries).countP (Event.activates "5") : ℕ∞) =
      {w | Snapshot.demo.flow.IsWalk "1" w "5"}.encard := by
  have hacyclic : ¬ Snapshot.demo.flow.IsCyclicFrom "1" :=
    (FlowGraph.findCycle?_eq_none_iff (by decide)).1 (by decide)
  obtain ⟨entries, hanswers, -, hcounts, -⟩ := @simulate_visits_walks ⟨.pause, .timer 5, 4, [], true⟩ {} .demo
    (Snapshot.demoNode "1" .trigger "User Input" [] 100 100) rfl rfl (fun h => by cases h) (fun e h => by cases h)
    (fun e h => by cases h) rfl rfl hacyclic fun w x hw => by
      have hlt := hw.length_lt (by decide) hacyclic
      exact Int.ofNat_le.2 (Nat.le_of_lt_succ hlt)
  exact ⟨entries, hanswers, (hcounts "5").1⟩

end Engine

end PipelineGraph.Simulation
