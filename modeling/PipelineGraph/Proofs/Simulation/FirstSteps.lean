import PipelineGraph.Proofs.Simulation.Beginning

/-!
# The first step of a simulation

A session at rest is asked for a simulation. Its first step is the first turn of the caller, which answers
or leaves a run that has begun.
-/

namespace PipelineGraph.Simulation

/-- A session at rest has no jobs. -/
def Session.IsAtRest (s : Session) : Prop :=
  s.scheduler.jobs = []

/-- The session as the caller of a simulation takes its first turn. -/
def Session.ask (graph : Snapshot) (s : Session) : Session :=
  (Engine.act s (.simulate (.ok graph))).awaken [] s.scheduler.futures.length

/-- A session whose simulation was answered in the first turn of its caller, with a verdict. -/
structure Session.Settled (graph : Snapshot) (verdict : Verdict) (s s' : Session) : Prop where
  scheduler : s'.scheduler = (s.ask graph).scheduler.complete s.scheduler.futures.length (.ok ())
  unasked : s'.cancelRequested = false
  status : s'.machine.status = verdict.status
  active : s'.machine.active = none

namespace Scheduler

variable {σ : Scheduler Program Action} {program : Program}

/-- A scheduler without jobs is sound from its next future on. -/
theorem sound_of_jobs (h : σ.jobs = []) : σ.Sound σ.futures.length fun _ => False := by
  have hnone : ∀ {job}, job ∉ σ.jobs := by
    intro job hjob
    rw [h] at hjob
    cases hjob
  have hcallback : ∀ {id f job}, σ.future? id = some f → job ∉ f.callbacks := by
    intro id f job hf hjob
    exact hnone (List.mem_append_right _ (List.mem_flatMap.2 ⟨f, List.mem_of_getElem? hf, hjob⟩))
  refine ⟨Nat.le_refl _, fun hf hjob => absurd hjob (hcallback hf), fun hf _ => ?_, fun hjob => ?_,
    fun ht => ?_, fun hjob => absurd hjob hnone, fun hjob => absurd hjob hnone,
    fun hjob => absurd hjob hnone, fun hb hf => ?_, fun _ hheld => hheld.elim, fun hb _ hf => ?_⟩
  · exact List.eq_nil_iff_forall_not_mem.2 fun job => hcallback hf
  · exact absurd (List.mem_append_left _ (List.mem_append_left _ hjob)) hnone
  · exact absurd (List.mem_append_left _ (List.mem_append_right _ (List.mem_map_of_mem ht))) hnone
  · exact absurd (lt_of_future? hf) (Nat.not_lt_of_le hb)
  · exact absurd (lt_of_future? hf) (Nat.not_lt_of_le hb)

/-- Without jobs there are neither queued jobs nor timers. -/
theorem nil_of_jobs (h : σ.jobs = []) : σ.ready = [] ∧ σ.timers = [] := by
  simp only [jobs, List.append_eq_nil_iff, List.map_eq_nil_iff] at h
  exact h.1

/-- A new task is the only one in an empty queue. -/
theorem ready_spawn (h : σ.ready = []) : (σ.spawn program).2.ready = [.resume σ.futures.length] := by
  change σ.ready ++ _ = _
  rw [h]
  rfl

/-- A new task that takes its first turn at once leaves the jobs that there were. -/
theorem jobs_awaken_spawn (h : σ.ready = []) :
    (((σ.spawn program).2.drop []).awaken σ.futures.length).jobs.Perm σ.jobs := by
  have hjobs : (σ.spawn program).2.jobs.Perm (.resume σ.futures.length :: σ.jobs) := jobs_spawn
  rw [jobs_drop (ready_spawn h)] at hjobs
  exact jobs_awaken.trans hjobs.cons_inv

/-- A new task that takes its first turn in a scheduler without jobs. -/
structure FirstTurn (b : FutureId) (program : Program) (s : Scheduler Program Action) : Prop where
  sound : s.Sound b fun j => j = b
  jobs : s.jobs = []
  length : s.futures.length = b + 1
  task : s.future? b = some ⟨.task ⟨program, false, none⟩, none, []⟩

/-- A new task in a scheduler without jobs takes its first turn at once. -/
theorem firstTurn_spawn (h : σ.jobs = []) (program : Program) : FirstTurn σ.futures.length program
    (((σ.spawn program).2.drop []).awaken σ.futures.length) := by
  have htakes : (σ.spawn program).2.Takes σ.futures.length
      (((σ.spawn program).2.drop []).awaken σ.futures.length) := ⟨_, _, ready_spawn (nil_of_jobs h).1, rfl, rfl⟩
  refine ⟨htakes.sound ((sound_of_jobs h).spawn (fun _ hheld => hheld.elim) program), ?_, ?_, ?_⟩
  · exact List.perm_nil.1 ((jobs_awaken_spawn (nil_of_jobs h).1).trans (List.Perm.of_eq h))
  · rw [htakes.shrinks.length]
    exact length_make _
  · rw [Scheduler.awaken, future?_modifyTask, if_pos rfl]
    change ((σ.make _).2.future? σ.futures.length).map _ = _
    rw [future?_make, if_pos rfl]
    rfl

/-- A caller that spawns the root and waits for it has begun a run. -/
theorem FirstTurn.begun {r : Run} (h : σ.FirstTurn r.base program) :
    ((σ.spawn (.enter ⟨r.graph, r.start, 0⟩)).2.defer r.base (.conclude r.caller) r.root).Begun r := by
  have hlength : (σ.spawn (.enter ⟨r.graph, r.start, 0⟩)).2.futures.length = r.base + 2 := by
    refine (length_make _).trans ?_
    rw [h.length]
  have hroot : σ.futures.length = r.root := h.length
  have hfuture : ∀ j, (σ.spawn (.enter ⟨r.graph, r.start, 0⟩)).2.future? j =
      if j = r.root then some { kind := .task { program := .enter ⟨r.graph, r.start, 0⟩ } }
      else σ.future? j := by
    intro j
    rw [← hroot]
    exact future?_make _
  have hne : r.base ≠ r.root := Nat.ne_of_lt r.base_lt_root
  have hcaller := hfuture r.base
  rw [if_neg hne, h.task] at hcaller
  have hcalm : (σ.spawn (.enter ⟨r.graph, r.start, 0⟩)).2.mustCancel r.base = false := by
    simp [Scheduler.mustCancel, task?, kind?, hcaller]
  have hlive : ∀ j, r.base ≤ j → (σ.spawn (.enter ⟨r.graph, r.start, 0⟩)).2.ending? j = none := by
    intro j hj
    rw [Scheduler.ending?, hfuture]
    split
    · rfl
    · rcases Nat.eq_or_lt_of_le hj with rfl | hlt
      · rw [h.task]
        rfl
      · rw [future?_eq_none_iff.2 (by rw [h.length]; exact hlt)]
        rfl
  have hspawned : (σ.spawn (.enter ⟨r.graph, r.start, 0⟩)).2.ready = [.resume r.root] :=
    hroot ▸ ready_spawn (nil_of_jobs h.jobs).1
  refine ⟨?_, ?_, ?_, ?_, ?_, ?_, ?_⟩
  · have hsound := h.sound.spawn (fun j hj => by rw [hj, h.length]; exact Nat.lt_succ_self _)
      (.enter ⟨r.graph, r.start, 0⟩)
    exact hsound.deferHeld (kind?_eq_some_iff.2 ⟨_, hcaller, rfl⟩) (Nat.le_refl _)
      (hlive _ (Nat.le_refl _)) _ (by rw [hlength]; exact Nat.lt_succ_self _)
  · refine (jobs_defer (by rw [hlength]; exact Nat.lt_succ_self _)).trans (List.Perm.cons _ ?_)
    have hspawn : (σ.spawn (.enter ⟨r.graph, r.start, 0⟩)).2.jobs.Perm
        (.resume σ.futures.length :: σ.jobs) := jobs_spawn
    rw [h.jobs, hroot] at hspawn
    exact hspawn
  · rw [ready_defer hcalm (hlive _ (Nat.le_of_lt r.base_lt_root)), hspawned]
  · exact timers_defer.1.trans (nil_of_jobs h.jobs).2
  · rw [length_defer, hlength]
  · rw [future?_defer hcalm hne, if_neg hne, if_pos rfl, hcaller]
    rfl
  · rw [future?_defer hcalm hne, if_pos rfl, hfuture, if_pos rfl]
    rfl

end Scheduler

namespace Engine

open Act Scheduler

variable {p : Plan} {graph : Snapshot} {s s' : Session} {start : Node}

/-- The task of a simulation that was asked for is that of its caller. -/
theorem task?_simulate : (act s (.simulate (.ok graph))).scheduler.task? s.scheduler.futures.length =
    some { program := .call s.callers.length (.ok graph) } := by
  change ((s.scheduler.make _).2.push _).task? _ = _
  rw [task?_push, task?_eq_some_iff, kind?_make, if_pos rfl]

/-- The task of the caller is the last future. -/
theorem length_ask : (s.ask graph).scheduler.futures.length = s.scheduler.futures.length + 1 :=
  (length_modifyFuture _).trans length_spawn

/-- The caller is the only future with another bare kind. -/
theorem bareKind?_ask {id : FutureId} : (s.ask graph).scheduler.bareKind? id =
    if id = s.scheduler.futures.length then some (.task (.call s.callers.length (.ok graph)))
    else s.scheduler.bareKind? id :=
  bareKind?_awaken.trans bareKind?_spawn

/-- Nothing ends as a caller begins its first turn. -/
theorem ending?_ask {id : FutureId} : (s.ask graph).scheduler.ending? id = s.scheduler.ending? id :=
  (ending?_modifyTask _).trans ending?_spawn

/-- A caller that takes its first turn at once leaves the jobs that there were. -/
theorem jobs_ask (hready : s.scheduler.ready = []) : (s.ask graph).scheduler.jobs.Perm s.scheduler.jobs :=
  jobs_awaken_spawn hready

/-- The first step after a simulation was asked for is the turn of its caller. -/
theorem step?_simulate (hready : s.scheduler.ready = []) : step? p (act s (.simulate (.ok graph))) =
    some (follow s.scheduler.futures.length ((settle s.callers.length (.conclude s.callers.length)
      (begin p (.ok graph))).run (s.ask graph))) := by
  have hasked : (act s (.simulate (.ok graph))).scheduler.ready = [.resume s.scheduler.futures.length] :=
    ready_spawn hready
  have hprogram : (act s (.simulate (.ok graph))).scheduler.program? s.scheduler.futures.length =
      some (.call s.callers.length (.ok graph)) := by
    rw [program?, task?_simulate]
    rfl
  have hcalm : (act s (.simulate (.ok graph))).scheduler.interrupt? s.scheduler.futures.length
      (.resume s.scheduler.futures.length) = none := by
    simp [interrupt?, mustCancel, task?_simulate, Job.source?]
  unfold step?
  rw [hasked]
  have hperform := perform_eq_follow (p := p) (.resume s.scheduler.futures.length) [] rfl hprogram
  rw [hcalm] at hperform
  exact congrArg some hperform

/-- A caller that is answered in its first turn leaves the session at rest. -/
theorem isAtRest_of_settled {verdict : Verdict} (h : s.Settled graph verdict s') (hrest : s.IsAtRest) :
    s'.IsAtRest := by
  have hjobs : (s.ask graph).scheduler.jobs.Perm s.scheduler.jobs := jobs_ask (nil_of_jobs hrest).1
  unfold Session.IsAtRest
  rw [h.scheduler]
  exact List.perm_nil.1 ((jobs_complete _).trans (hjobs.trans (List.Perm.of_eq hrest)))

/-- A caller whose turn answers it has its simulation settled. -/
theorem settled_follow_over {verdict : Verdict} {s₁ : Session} (hscheduler : s₁.scheduler = (s.ask graph).scheduler)
    (hunasked : s₁.cancelRequested = false) (hstatus : s₁.machine.status = verdict.status)
    (hactive : s₁.machine.active = none) :
    s.Settled graph verdict (follow s.scheduler.futures.length (.ok .over, s₁)) :=
  ⟨(congrArg (·.endTask s.scheduler.futures.length) hscheduler).trans (endTask_awaken _ _), hunasked, hstatus, hactive⟩

/-- A simulation without nodes is finished in its first step. -/
theorem step?_simulate_empty (hhooks : p.hooks = []) (hready : s.scheduler.ready = [])
    (hstatus : s.machine.status ≠ .running) (hstart : graph.flow.start? = none) :
    ∃ s', step? p (act s (.simulate (.ok graph))) = some s' ∧ s.Settled graph .finished s' ∧
      s'.trace = s.trace ++ (p.opening s.scheduler.now s.machine.status graph ++
        (p.closing s.scheduler.now s.machine.active .finished ++
          [(s.scheduler.now, .result s.callers.length .returned)])) := by
  have hrun := run_begin_empty (s := s.ask graph) hhooks hstatus hstart
  have hsettle : (settle s.callers.length (.conclude s.callers.length) (begin p (.ok graph))).run (s.ask graph) =
      (.ok .over, ((((s.ask graph).launch p graph).log
        [⟨.info, "[Engine] Empty graph, nothing to simulate"⟩]).close p .finished).note
          (.result s.callers.length .returned)) :=
    run_settle_done hrun
  refine ⟨_, (step?_simulate hready).trans (congrArg some (congrArg _ hsettle)), settled_follow_over ?_ ?_ ?_ ?_, ?_⟩
  · exact (Session.scheduler_close _).trans Session.scheduler_launch
  · exact Session.cancelRequested_close.trans Session.cancelRequested_launch
  · exact (Session.machine_close _).1
  · exact (Session.machine_close _).2.1
  · refine (Session.trace_close_note (p := p) (s := ((s.ask graph).launch p graph).log
      [⟨.info, "[Engine] Empty graph, nothing to simulate"⟩]) Session.machine_launch.1 .finished _).trans ?_
    change ((s.ask graph).launch p graph).trace ++ (p.closing ((s.ask graph).launch p graph).scheduler.now
      ((s.ask graph).launch p graph).machine.active .finished ++
        [(((s.ask graph).launch p graph).scheduler.now, _)]) = _
    rw [Session.trace_launch, Session.scheduler_launch, Session.machine_launch.2, List.append_assoc]
    rfl

/-- A simulation with a cycle in reach of its start fails in its first step. -/
theorem step?_simulate_cyclic (hhooks : p.hooks = []) (hready : s.scheduler.ready = [])
    (hstatus : s.machine.status ≠ .running) (hstart : graph.flow.start? = some start)
    {cycle : List Text} (hcycle : graph.flow.findCycle? (some start.id) = some cycle) :
    ∃ s', step? p (act s (.simulate (.ok graph))) = some s' ∧ s.Settled graph (.failed "cycle") s' ∧
      s'.trace = s.trace ++ (p.opening s.scheduler.now s.machine.status graph ++
        (p.heard s.scheduler.now (.cycleDetected cycle) ++
          (p.closing s.scheduler.now s.machine.active (.failed "cycle") ++
            [(s.scheduler.now, .result s.callers.length (.failed (.cycle cycle)))]))) := by
  have hrun := run_begin_cyclic (s := s.ask graph) hhooks hstatus hstart hcycle
  have hsettle : (settle s.callers.length (.conclude s.callers.length) (begin p (.ok graph))).run (s.ask graph) =
      (.ok .over, ((((s.ask graph).launch p graph).refuse p start.id cycle).close p (.failed "cycle")).note
        (.result s.callers.length (.failed (.cycle cycle)))) :=
    run_settle_error hrun
  have hrefuse : (((s.ask graph).launch p graph).refuse p start.id cycle).machine =
      ((s.ask graph).launch p graph).machine ∧
      (((s.ask graph).launch p graph).refuse p start.id cycle).scheduler =
        ((s.ask graph).launch p graph).scheduler ∧
      (((s.ask graph).launch p graph).refuse p start.id cycle).trace =
        ((s.ask graph).launch p graph).trace ++
          p.heard ((s.ask graph).launch p graph).scheduler.now (.cycleDetected cycle) := by
    unfold Session.refuse
    exact ⟨Session.machine_tell _, Session.scheduler_tell, Session.trace_tell _⟩
  refine ⟨_, (step?_simulate hready).trans (congrArg some (congrArg _ hsettle)), settled_follow_over ?_ ?_ ?_ ?_, ?_⟩
  · exact (Session.scheduler_close _).trans (hrefuse.2.1.trans Session.scheduler_launch)
  · exact Session.cancelRequested_close.trans (Session.cancelRequested_tell.trans Session.cancelRequested_launch)
  · exact (Session.machine_close _).1
  · exact (Session.machine_close _).2.1
  · refine (Session.trace_close_note (p := p) (hrefuse.1 ▸ Session.machine_launch.1) (.failed "cycle") _).trans ?_
    rw [hrefuse.1, hrefuse.2.1, hrefuse.2.2, Session.trace_launch, Session.scheduler_launch,
      Session.machine_launch.2, List.append_assoc, List.append_assoc]
    rfl

/-- In the first step of any other simulation the caller spawns the root and waits for it. -/
theorem step?_simulate_launch (hhooks : p.hooks = []) (hready : s.scheduler.ready = [])
    (hstatus : s.machine.status ≠ .running) (hstart : graph.flow.start? = some start)
    (hcycle : graph.flow.findCycle? (some start.id) = none) :
    let r : Run := ⟨p, graph.flow, start, s.callers.length, s.scheduler.futures.length⟩
    step? p (act s (.simulate (.ok graph))) = some { (s.ask graph).launch p graph with
      scheduler := ((s.ask graph).scheduler.spawn (.enter ⟨graph.flow, start, 0⟩)).2.defer r.base
        (.conclude r.caller) r.root
      run := some r.root } := by
  intro r
  have hrun := run_begin_acyclic (s := s.ask graph) hhooks hstatus hstart hcycle
  have hroot : (s.ask graph).scheduler.futures.length = r.root := length_ask
  have hsettle : (settle s.callers.length (.conclude s.callers.length) (begin p (.ok graph))).run (s.ask graph) =
      (.ok (.wait r.root (.conclude s.callers.length)), { (s.ask graph).launch p graph with
        scheduler := ((s.ask graph).scheduler.spawn (.enter ⟨graph.flow, start, 0⟩)).2
        run := some r.root }) := by
    rw [run_settle_begun hrun, hroot]
  exact (step?_simulate hready).trans (congrArg some (congrArg _ hsettle))

/-- Such a simulation begins its course in its first step. -/
theorem step?_simulate_acyclic (hhooks : p.hooks = []) (hrest : s.IsAtRest)
    (hstatus : s.machine.status ≠ .running) (hstart : graph.flow.start? = some start)
    (hnode : graph.flow.node? start.id = some start)
    (hcycle : graph.flow.findCycle? (some start.id) = none) :
    let r : Run := ⟨p, graph.flow, start, s.callers.length, s.scheduler.futures.length⟩
    ∃ s', step? p (act s (.simulate (.ok graph))) = some s' ∧ s'.scheduler.Begun r ∧
      s'.trace = s.trace ++ p.opening s.scheduler.now s.machine.status graph ∧
      Course r (s.trace ++ p.opening s.scheduler.now s.machine.status graph) s' := by
  intro r
  have hfirstTurn : (s.ask graph).scheduler.FirstTurn r.base (.call s.callers.length (.ok graph)) :=
    firstTurn_spawn hrest _
  have hbegun := hfirstTurn.begun
  refine ⟨_, step?_simulate_launch hhooks (nil_of_jobs hrest).1 hstatus hstart hcycle, hbegun, ?_, ?_⟩
  · exact Session.trace_launch (s := s.ask graph)
  · refine ⟨hbegun.orderly hnode, hbegun.outcome, hbegun.uninterrupted.unasked,
      Or.inl ⟨hbegun.uninterrupted, _, _, hbegun.inStep⟩,
      Or.inl ⟨hbegun.ending? (Nat.le_refl _), (Session.machine_launch (s := s.ask graph)).1, [], ?_, ?_⟩⟩
    · rw [List.append_nil]
      exact Session.trace_launch (s := s.ask graph)
    · exact fun x hx => by cases hx

end Engine

end PipelineGraph.Simulation
