import PipelineGraph.Proofs.Graph.CycleSearch
import PipelineGraph.Proofs.Simulation.Course

/-!
# The beginning of a run

In the first turn of a caller the machine moves to its running status, and then the graph decides: without
nodes the run is finished at once, with a cycle in reach it has failed, and otherwise the visit of the start
node begins and the caller waits for it.
-/

namespace PipelineGraph.Simulation

/-! ## What the first turn writes -/

/-- What the beginning of a run writes in a session with some status. -/
def Plan.opening (p : Plan) (now : Nat) (status : RunStatus) (graph : Snapshot) : List (Nat × Entry) :=
  (now, .state ⟨.status, some status.name, some RunStatus.running.name⟩) ::
    p.heard now (.started graph.summary)

namespace Session

/-- What the beginning of a run does to a session. -/
def launch (p : Plan) (graph : Snapshot) (s : Session) : Session :=
  let s := s.log graph.danglingReports
  let c : Change := ⟨.status, some s.machine.status.name, some RunStatus.running.name⟩
  let s := s.change c { s.machine with status := .running, history := s.machine.history ++ [c] }
  (({ s with cancelRequested := false } : Session).tell p (.started graph.summary)).log
    [⟨.info, "[Engine] Simulation started. " ++ graph.summary⟩]

/-- What the refusal of a cycle does to a session, apart from the end of the run. -/
def refuse (p : Plan) (start : Text) (cycle : List Text) (s : Session) : Session :=
  (s.log [⟨.error, "[Engine] Cycle reachable from start node " ++ start ++ ": " ++ walkText cycle⟩]).tell p
    (.cycleDetected cycle)

variable {p : Plan} {graph : Snapshot} {s : Session}

/-- Launching a run schedules nothing by itself. -/
theorem scheduler_launch : (s.launch p graph).scheduler = s.scheduler := by
  simp [launch, log, change, note]

/-- Launching a run adds its opening to the trace. -/
theorem trace_launch : (s.launch p graph).trace =
    s.trace ++ p.opening s.scheduler.now s.machine.status graph := by
  unfold launch log Plan.opening
  rw [trace_tell]
  simp [change, note, log]

/-- Launching a run changes the status alone. -/
theorem machine_launch : (s.launch p graph).machine.status = .running ∧
    (s.launch p graph).machine.active = s.machine.active := by
  simp [launch, log, change, note]

/-- A run begins without a request to cancel it. -/
theorem cancelRequested_launch : (s.launch p graph).cancelRequested = false := by
  simp [launch, log]

/-- The beginning of a run moves the status. -/
theorem history_launch : (s.launch p graph).machine.history =
    s.machine.history ++ [⟨.status, some s.machine.status.name, some RunStatus.running.name⟩] := by
  simp [launch, log, change, note]

end Session

namespace Engine

open Act

variable {p : Plan} {graph : Snapshot} {s : Session} {start : Node}

/-- A machine that is not running may start to run. -/
theorem allows_running {m : Machine} (h : m.status ≠ .running) : m.allows .running = true := by
  unfold Machine.allows
  cases hstatus : m.status with
  | running => exact absurd hstatus h
  | idle | finished | cancelled | failed => rfl

/-- A run begins in a session in which no other one is under way. -/
theorem run_launch {α : Type} (hhooks : p.hooks = []) (hstatus : s.machine.status ≠ .running)
    (act : Act α) :
    (do
      modify fun s => s.log graph.danglingReports
      transition .running
      modify fun s => { s with cancelRequested := false }
      emit p (.started graph.summary)
      log .info ("[Engine] Simulation started. " ++ graph.summary)
      act : Act α).run s = act.run (s.launch p graph) := by
  have htransition := run_transition (s := s.log graph.danglingReports) (allows_running hstatus)
  simp only [run_bind, run_modify, htransition, run_emit hhooks, run_log]
  rfl

/-- A run of a graph without nodes is finished at once. -/
theorem run_begin_empty (hhooks : p.hooks = []) (hstatus : s.machine.status ≠ .running)
    (hstart : graph.flow.start? = none) :
    (begin p (.ok graph)).run s = (.ok none, ((s.launch p graph).log
      [⟨.info, "[Engine] Empty graph, nothing to simulate"⟩]).close p .finished) := by
  unfold begin
  simp only [hstart]
  rw [run_launch hhooks hstatus]
  simp only [run_bind, run_log]
  have hrunning : ((s.launch p graph).log [⟨.info, "[Engine] Empty graph, nothing to simulate"⟩]).machine.status =
      .running := Session.machine_launch.1
  rw [run_finish hhooks hrunning]
  rfl

/-- A run with a cycle in reach of its start fails at once. -/
theorem run_begin_cyclic (hhooks : p.hooks = []) (hstatus : s.machine.status ≠ .running)
    (hstart : graph.flow.start? = some start) {cycle : List Text}
    (hcycle : graph.flow.findCycle? (some start.id) = some cycle) :
    (begin p (.ok graph)).run s = (.error (.fault (.cycle cycle)),
      ((s.launch p graph).refuse p start.id cycle).close p (.failed "cycle")) := by
  have hrunning : ((s.launch p graph).refuse p start.id cycle).machine.status = .running := by
    unfold Session.refuse
    rw [Session.machine_tell]
    exact Session.machine_launch.1
  unfold begin
  simp only [hstart, hcycle]
  rw [run_launch hhooks hstatus]
  simp only [run_bind, run_log, run_emit hhooks]
  have hfinish := run_finish hhooks hrunning (.failed "cycle")
  unfold Session.refuse at hfinish
  rw [hfinish]
  rfl

/-- Any other run begins with the visit of its start. -/
theorem run_begin_acyclic (hhooks : p.hooks = []) (hstatus : s.machine.status ≠ .running)
    (hstart : graph.flow.start? = some start)
    (hcycle : graph.flow.findCycle? (some start.id) = none) :
    (begin p (.ok graph)).run s = (.ok (some s.scheduler.futures.length),
      { s.launch p graph with
        scheduler := (s.scheduler.spawn (.enter ⟨graph.flow, start, 0⟩)).2
        run := some s.scheduler.futures.length }) := by
  unfold begin
  simp only [hstart, hcycle]
  rw [run_launch hhooks hstatus]
  simp only [run_bind, run_schedule, run_modify, run_pure, Session.scheduler_launch]
  rfl

end Engine

/-! ## A run that has begun -/

namespace Scheduler

/-- The scheduler of a run that has just begun: the caller waits for the root, which has its first turn
ahead. -/
structure Begun (r : Run) (s : Scheduler Program Action) : Prop where
  sound : s.Sound r.base fun _ => False
  jobs : s.jobs.Perm [.wake r.base r.root, .resume r.root]
  ready : s.ready = [.resume r.root]
  timers : s.timers = []
  length : s.futures.length = r.base + 2
  caller : s.future? r.base = some ⟨.task ⟨.conclude r.caller, false, some r.root⟩, none, []⟩
  root : s.future? r.root =
    some ⟨.task ⟨.enter ⟨r.graph, r.start, 0⟩, false, none⟩, none, [.wake r.base r.root]⟩

variable {r : Run} {s : Scheduler Program Action} {id : FutureId}

namespace Begun

variable (h : s.Begun r)

include h

/-- The caller waits to conclude the run. -/
theorem program?_caller : s.program? r.base = some (.conclude r.caller) := by
  simp [program?, task?, kind?, h.caller]

/-- The root is to enter the visit of the start. -/
theorem program?_root : s.program? r.root = some (.enter ⟨r.graph, r.start, 0⟩) := by
  simp [program?, task?, kind?, h.root]

/-- The futures of the run are the tasks of the caller and of the root. -/
theorem eq_of_le (hb : r.base ≤ id) (hlt : id < s.futures.length) : id = r.base ∨ id = r.root := by
  rw [h.length] at hlt
  unfold Run.root
  lia

/-- Nothing has ended. -/
theorem ending? (hb : r.base ≤ id) : s.ending? id = none := by
  by_cases hlt : id < s.futures.length
  · rcases h.eq_of_le hb hlt with rfl | rfl
    · simp [Scheduler.ending?, h.caller]
    · simp [Scheduler.ending?, h.root]
  · exact ending?_of_length_le (Nat.le_of_not_lt hlt)

/-- Nothing is asked to cancel. -/
theorem mustCancel (hb : r.base ≤ id) : s.mustCancel id = false := by
  by_cases hlt : id < s.futures.length
  · rcases h.eq_of_le hb hlt with rfl | rfl
    · simp [Scheduler.mustCancel, task?, kind?, h.caller]
    · simp [Scheduler.mustCancel, task?, kind?, h.root]
  · simp [Scheduler.mustCancel, task?, kind?, future?_eq_none_iff.2 (Nat.le_of_not_lt hlt)]

/-- The only visit is that of the start. -/
theorem program?_eq (hid : r.base < id) {pr : Program} (hpr : s.program? id = some pr) :
    id = r.root ∧ pr = .enter ⟨r.graph, r.start, 0⟩ := by
  rcases h.eq_of_le (Nat.le_of_lt hid) (lt_of_program? hpr) with rfl | rfl
  · exact absurd hid (Nat.lt_irrefl _)
  · exact ⟨rfl, Option.some.inj (hpr.symm.trans h.program?_root)⟩

/-- Nothing is gathered. -/
theorem not_gathering (hb : r.base ≤ id) {children : List FutureId} :
    s.bareKind? id ≠ some (.gathering children) := by
  intro hg
  rcases h.eq_of_le hb (lt_of_bareKind? hg) with rfl | rfl
  · cases (bareKind?_eq_task_iff.2 h.program?_caller).symm.trans hg
  · cases (bareKind?_eq_task_iff.2 h.program?_root).symm.trans hg

/-- No future has a child yet. -/
theorem not_parent {a c : FutureId} : ¬ s.Parent r a c := by
  rintro ⟨ha, v, children, hpr, -⟩
  cases (h.program?_eq ha hpr).2

/-- The jobs are to wake the caller and to resume the root. -/
theorem mem_jobs {job : Job Action} (hjob : job ∈ s.jobs) :
    job = .wake r.base r.root ∨ job = .resume r.root := by
  simpa using h.jobs.subset hjob

/-- A run that has just begun is orderly. -/
theorem orderly (hstart : r.graph.node? r.start.id = some r.start) : s.Orderly r where
  sound := h.sound
  tree := {
    caller := h.program?_caller
    fits := fun hid hpr => by
      rw [(h.program?_eq hid hpr).2]
      exact ⟨rfl, hstart, ⟨[], rfl, rfl⟩, Or.inl rfl⟩
    root := by
      rw [visit?, h.program?_root]
      rfl
    children := fun hid hpr => by cases (h.program?_eq hid hpr).2
    parent := fun hid hpr => by
      obtain ⟨rfl, -⟩ := h.program?_eq (Nat.lt_trans r.base_lt_root hid) hpr
      exact absurd hid (Nat.lt_irrefl _)
    unique := fun ha => absurd ha h.not_parent
    gathered := fun hid hg => absurd hg (h.not_gathering (Nat.le_of_lt hid)) }
  waiting := {
    suits := fun hjob => by
      rcases h.mem_jobs hjob with rfl | rfl
      · exact ⟨_, h.program?_caller, rfl⟩
      · exact ⟨_, h.program?_root, rfl⟩
    unique := fun ht ht' => by
      rcases h.mem_jobs ht with heq | heq
      · rcases h.mem_jobs ht' with heq' | heq'
        · cases heq
          cases heq'
          rfl
        · cases heq'
      · cases heq
    waiter := fun {t source} ht hsource => by
      refine h.jobs.symm.subset (List.mem_cons.2 (Or.inl ?_))
      have hlt : t < s.futures.length := by
        unfold waiter? at hsource
        cases hf : s.future? t with
        | some f => exact lt_of_future? hf
        | none => simp [task?, kind?, hf] at hsource
      rcases h.eq_of_le ht hlt with rfl | rfl
      · have heq : r.root = source := by simpa [waiter?, task?, kind?, h.caller] using hsource
        rw [heq]
      · simp [waiter?, task?, kind?, h.root] at hsource }

/-- Nothing of the run has ended, well or with a fault. -/
theorem outcome : s.Outcome r where
  ok hid _ hok := by
    rw [h.ending? (Nat.le_of_lt hid)] at hok
    cases hok
  fault hid hfault := by
    rw [h.ending? (Nat.le_of_lt hid)] at hfault
    cases hfault

/-- Nothing of the run is asked to cancel. -/
theorem uninterrupted : s.Uninterrupted r where
  ending hb hend := by
    rw [h.ending? hb] at hend
    cases hend
  mustCancel hb := h.mustCancel hb
  asked hb hasked := by
    obtain ⟨g, hg, -⟩ := hasked
    exact h.not_gathering hb (bareKind?_eq_gathering_iff.2 ⟨g, hg, rfl⟩)

/-- A run begins in step. -/
theorem inStep : s.InStep r.plan 0 1 (s.now + (r.plan.wait? 1).getD 0) where
  queue := by
    refine ⟨s.ready, [], (List.append_nil _).symm, fun job hjob k hk => ?_, fun job hjob => by cases hjob⟩
    rw [h.ready, List.mem_singleton] at hjob
    subst hjob
    cases hk with
    | turn _ htask hpr hstage =>
      cases htask
      cases h.program?_root.symm.trans hpr
      cases hstage
      refine ⟨rfl, fun time htime => ?_⟩
      rw [htime]
      rfl
  timers t ht := by
    rw [h.timers] at ht
    cases ht

/-- The tasks of a run that has just begun are its caller and its root. -/
theorem load (w : Program → Bool → Nat) :
    s.load r w = w (.conclude r.caller) false + w (.enter ⟨r.graph, r.start, 0⟩) false := by
  have hroot := h.program?_root
  have hended : ∀ {id}, r.base ≤ id → s.hasEnded id = false := by
    intro id hid
    rw [hasEnded, h.ending? hid]
    rfl
  unfold Scheduler.load
  rw [h.length, Finset.sum_Ico_succ_top (by lia), Finset.sum_Ico_succ_top (Nat.le_refl _), Finset.Ico_self,
    Finset.sum_empty, h.program?_caller, ← Run.root, hroot, hended (Nat.le_refl _),
      hended (Nat.le_of_lt r.base_lt_root),
    Nat.zero_add]
  rfl

/-- What a run has ahead in the beginning are all walks from its start. -/
theorem remaining (hr : r.IsFinite) (hstart : r.graph.node? r.start.id = some r.start) :
    s.remaining r = 9 * r.graph.walkSum (fun _ => 1) r.graph.nodes.length r.start.id := by
  have hfits : Visit.Fits r ⟨r.graph, r.start, 0⟩ := ⟨rfl, hstart, ⟨[], rfl, rfl⟩, Or.inl rfl⟩
  have hsum := hfits.walkSum_eq (f := fun _ => 1) hr
  unfold Scheduler.remaining
  rw [h.load, h.timers, h.jobs.length_eq]
  simp only [List.length_cons, List.length_nil, Nat.sub_zero, Program.remaining] at hsum ⊢
  lia

end Begun

end Scheduler

end PipelineGraph.Simulation
