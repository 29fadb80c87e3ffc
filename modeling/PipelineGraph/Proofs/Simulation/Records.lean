import PipelineGraph.Proofs.Simulation.Unwinding

/-!
# What a run writes down

While a run is under way, its visits write down what they do. When the root has ended, the caller
writes down the verdict and the result. Nothing is written after that.
-/

namespace PipelineGraph.Simulation

namespace Plan

/-- What is written of an event: nothing if nobody listens. -/
def heard (p : Plan) (now : Nat) (e : Event) : List (Nat × Entry) :=
  if p.listens then [(now, .event e)] else []

/-- What a turn of a program writes while some node is shown as active. -/
def entries (p : Plan) (now : Nat) (active : Option Text) : Program → List (Nat × Entry)
  | .enter v => (now, .state ⟨.active, active, some v.node.id⟩) :: p.heard now (.nodeActive v.node v.depth)
  | .leave v => (now, .state ⟨.active, active, none⟩) :: p.heard now (.nodeCleared v.node.id)
  | .fanOut v => p.heard now (.fanOut v.node.id (v.graph.targets v.node.id))
  | _ => []

/-- What the end of a run with a verdict writes while some node is shown as active. -/
def closing (p : Plan) (now : Nat) (active : Option Text) (verdict : Verdict) : List (Nat × Entry) :=
  (if active.isSome then [(now, .state ⟨.active, active, none⟩)] else []) ++
    (now, .state ⟨.status, some RunStatus.running.name, some verdict.status.name⟩) ::
      p.heard now (.ended verdict)

end Plan

namespace Session

variable {p : Plan} {v : Visit} {s : Session}

/-- Who listens hears of an event. -/
theorem trace_tell (e : Event) : (s.tell p e).trace = s.trace ++ p.heard s.scheduler.now e := by
  unfold tell Plan.heard
  split
  · rfl
  · exact (List.append_nil _).symm

/-- To tell of an event does not change the machine. -/
@[simp] theorem machine_tell (e : Event) : (s.tell p e).machine = s.machine := by
  unfold tell
  split <;> rfl

/-- To tell of an event keeps the run under way. -/
@[simp] theorem run_tell (e : Event) : (s.tell p e).run = s.run := by
  unfold tell
  split <;> rfl

/-- A visit that begins writes that its node is active. -/
theorem trace_activate : (s.activate p v).trace =
    s.trace ++ p.entries s.scheduler.now s.machine.active (.enter v) := by
  have htell := trace_tell (p := p) (s := s.setActive (some v.node.id)) (.nodeActive v.node v.depth)
  have hset : (s.setActive (some v.node.id)).trace =
      s.trace ++ [(s.scheduler.now, .state ⟨.active, s.machine.active, some v.node.id⟩)] := rfl
  rw [hset, List.append_assoc] at htell
  exact htell

/-- A visit that has dwelled writes that no node is active. -/
theorem trace_clear : (s.clear p v).trace =
    s.trace ++ p.entries s.scheduler.now s.machine.active (.leave v) := by
  have htell := trace_tell (p := p) (s := s.setActive none) (.nodeCleared v.node.id)
  have hset : (s.setActive none).trace =
      s.trace ++ [(s.scheduler.now, .state ⟨.active, s.machine.active, none⟩)] := rfl
  rw [hset, List.append_assoc] at htell
  exact htell

/-- A visit that branches writes where to. -/
theorem trace_fork : (s.fork p v).trace =
    s.trace ++ p.entries s.scheduler.now s.machine.active (.fanOut v) :=
  trace_tell _

/-- A visit that begins keeps the status. -/
theorem status_activate : (s.activate p v).machine.status = s.machine.status := by
  unfold activate log
  rw [machine_tell]
  rfl

/-- A visit that has dwelled keeps the status. -/
theorem status_clear : (s.clear p v).machine.status = s.machine.status := by
  unfold clear
  rw [machine_tell]
  rfl

/-- A visit that branches keeps the status. -/
theorem status_fork : (s.fork p v).machine.status = s.machine.status := by
  unfold fork log
  rw [machine_tell]

/-- A visit that begins keeps the run under way. -/
theorem run_activate : (s.activate p v).run = s.run := by
  unfold activate log
  rw [run_tell]
  rfl

/-- A visit that has dwelled keeps the run under way. -/
theorem run_clear : (s.clear p v).run = s.run := by
  unfold clear
  rw [run_tell]
  rfl

/-- A visit that branches keeps the run under way. -/
theorem run_fork : (s.fork p v).run = s.run := by
  unfold fork log
  rw [run_tell]

/-- A run that ends leaves the machine with the status of its verdict and no active node. -/
theorem machine_close (verdict : Verdict) : (s.close p verdict).machine.status = verdict.status ∧
    (s.close p verdict).machine.active = none ∧ (s.close p verdict).run = s.run := by
  unfold close log
  by_cases hactive : s.machine.active.isSome = true
  · simp [hactive, setActive, Machine.setActive, change, note, log]
  · simp [hactive, change, note, log]
    simpa using hactive

/-- What a run under way writes when it ends. -/
theorem trace_close (hrunning : s.machine.status = .running) (verdict : Verdict) :
    (s.close p verdict).trace =
      s.trace ++ p.closing s.scheduler.now s.machine.active verdict := by
  have hnow : ∀ (c : Change) m, (s.change c m).scheduler.now = s.scheduler.now := fun _ _ => rfl
  unfold close Plan.closing
  by_cases hactive : s.machine.active.isSome = true
  · simp only [hactive, if_true, log, trace_tell]
    simp [setActive, Machine.setActive, change, note, log, hrunning]
  · simp only [hactive, log, trace_tell]
    simp [change, note, log, hrunning]

/-- What a run under way writes when it ends and its caller is answered. -/
theorem trace_close_note (hrunning : s.machine.status = .running) (verdict : Verdict) (entry : Entry) :
    ((s.close p verdict).note entry).trace = s.trace ++
      (p.closing s.scheduler.now s.machine.active verdict ++ [(s.scheduler.now, entry)]) := by
  change (s.close p verdict).trace ++ [((s.close p verdict).scheduler.now, entry)] = _
  rw [scheduler_close, trace_close hrunning, List.append_assoc]

end Session

/-- What a visit of a run may write. -/
def Run.Writes (r : Run) : Entry → Prop
  | .state c => c.field = .active
  | .event (.nodeActive _ depth) => ¬ r.plan.maxDepth < depth
  | .event (.nodeCleared _) => True
  | .event (.fanOut id targets) => targets = r.graph.targets id
  | _ => False

open Scheduler

variable {p : Plan} {r : Run} {s s' : Session}

/-- What is written of an event is the event. -/
theorem Plan.eq_of_mem_heard {now : Nat} {event : Event} {x : Nat × Entry} (hx : x ∈ p.heard now event) :
    x.2 = .event event := by
  unfold heard at hx
  split at hx
  · rw [List.mem_singleton.1 hx]
  · cases hx

/-- A turn of a visit that is not too deep writes what it may. -/
theorem Plan.writes_of_mem_entries {pr : Program} (hfits : pr.Fits r)
    (hdepth : ∀ v, pr = .enter v → ¬ r.plan.maxDepth < v.depth) {now : Nat} {active : Option Text}
    {e : Nat × Entry} (he : e ∈ r.plan.entries now active pr) : r.Writes e.2 := by
  cases pr with
  | enter v =>
    rcases List.mem_cons.1 he with rfl | he
    · rfl
    · rw [Plan.eq_of_mem_heard he]
      exact hdepth v rfl
  | leave v =>
    rcases List.mem_cons.1 he with rfl | he
    · rfl
    · rw [Plan.eq_of_mem_heard he]
      trivial
  | fanOut v =>
    rw [Plan.eq_of_mem_heard he]
    change _ = _
    rw [hfits.1.graph]
  | join | call | conclude => cases he

/-- A move writes nothing, or what the turn of a visit writes, or what the end of a run does. -/
theorem Move.writes_cases (h : Move p s s') :
    (s'.trace = s.trace ∧ s'.machine = s.machine ∧ s'.run = s.run ∧ ∀ job rest id caller,
      s.scheduler.ready = job :: rest → job.task? = some id →
      s.scheduler.program? id ≠ some (.conclude caller)) ∨
    (∃ job rest id pr, s.scheduler.ready = job :: rest ∧ job.task? = some id ∧
      s.scheduler.program? id = some pr ∧ pr.isActive = true ∧
      (∀ v, pr = .enter v → ¬ p.maxDepth < v.depth) ∧
      s'.trace = s.trace ++ p.entries s.scheduler.now s.machine.active pr ∧
      s'.machine.status = s.machine.status ∧ s'.run = s.run) ∨
    ∃ job rest id caller, s.scheduler.ready = job :: rest ∧ job.task? = some id ∧
      s.scheduler.program? id = some (.conclude caller) ∧
      (s'.trace = s.trace ++ (p.closing s.scheduler.now s.machine.active
        (.ofInterrupt (s.scheduler.interrupt? id job)) ++
        [(s.scheduler.now, .result caller (.ofInterrupt (s.scheduler.interrupt? id job)))])) ∧
      s'.machine.status = (Verdict.ofInterrupt (s.scheduler.interrupt? id job)).status ∧
      s'.machine.active = none ∧ s'.run = none ∧
      s'.scheduler = (s.awaken rest id).scheduler.complete id (.ok ()) := by
  have hvisit : ∀ {job rest id pr v}, s.scheduler.ready = job :: rest → job.task? = some id →
      s.scheduler.program? id = some pr → pr.visit? = some v → ∀ job rest id caller,
      s.scheduler.ready = job :: rest → job.task? = some id →
      s.scheduler.program? id ≠ some (.conclude caller) := by
    intro job rest id pr v hready htask hpr hv job' rest' id' caller hready' htask' hpr'
    obtain ⟨rfl, -⟩ := List.cons_eq_cons.1 (hready.symm.trans hready')
    cases htask.symm.trans htask'
    cases hpr.symm.trans hpr'
    cases hv
  cases h with
  | advance hready =>
    refine Or.inl ⟨rfl, rfl, rfl, fun job rest id caller hready' => ?_⟩
    cases hready.symm.trans hready'
  | elapse hready | count hready =>
    refine Or.inl ⟨rfl, rfl, rfl, fun job rest id caller hready' htask => ?_⟩
    cases hready.symm.trans hready'
    cases htask
  | join hready htask hpr | deep hready htask hpr | abandon hready htask hpr =>
    exact Or.inl ⟨rfl, rfl, rfl, hvisit hready htask hpr rfl⟩
  | @halt job rest id v pr i hready htask hpr hpr' =>
    refine Or.inl ⟨rfl, rfl, rfl, hvisit hready htask hpr (v := v) ?_⟩
    rcases hpr' with rfl | rfl | rfl <;> rfl
  | @enter job rest id v sch hready htask hpr _ hdepth =>
    refine Or.inr (Or.inl ⟨job, rest, id, _, hready, htask, hpr, rfl, fun v' heq => ?_, ?_, ?_, ?_⟩)
    · cases heq
      exact hdepth
    · exact Session.trace_activate (s := s.awaken rest id)
    · exact Session.status_activate (s := s.awaken rest id)
    · exact Session.run_activate (s := s.awaken rest id)
  | @leave job rest id v sch hready htask hpr | @leaf job rest id v hready htask hpr =>
    refine Or.inr (Or.inl ⟨job, rest, id, _, hready, htask, hpr, rfl, fun v' heq => (by cases heq), ?_, ?_, ?_⟩)
    · exact Session.trace_clear (s := s.awaken rest id)
    · exact Session.status_clear (s := s.awaken rest id)
    · exact Session.run_clear (s := s.awaken rest id)
  | @fork job rest id v hready htask hpr =>
    refine Or.inr (Or.inl ⟨job, rest, id, _, hready, htask, hpr, rfl, fun v' heq => (by cases heq), ?_, ?_, ?_⟩)
    · exact Session.trace_fork (s := s.awaken rest id)
    · exact Session.status_fork (s := s.awaken rest id)
    · exact Session.run_fork (s := s.awaken rest id)
  | @conclude job rest id caller hready htask hpr hrunning =>
    refine Or.inr (Or.inr ⟨job, rest, id, caller, hready, htask, hpr, ?_, ?_⟩)
    · exact Session.trace_close_note (s := { s.awaken rest id with run := none }) hrunning _ _
    · obtain ⟨hstatus, hactive, hrun⟩ := Session.machine_close (p := p)
        (s := { s.awaken rest id with run := none }) (.ofInterrupt (s.scheduler.interrupt? id job))
      exact ⟨hstatus, hactive, hrun, rfl⟩

end PipelineGraph.Simulation
