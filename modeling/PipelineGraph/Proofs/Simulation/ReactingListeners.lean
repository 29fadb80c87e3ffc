import PipelineGraph.Proofs.Simulation.HeardEvents

/-!
# Listeners that react

The acts of the visits and callers, each with what it records: they go on as the listener hears of their
events and reacts. A listener that fails, or whose request goes too deep, interrupts the act in which it
hears of the event, and what was recorded up to then stays.
-/

namespace PipelineGraph.Simulation

/-! ## Acts with a listener -/

namespace Act

variable {p : Plan} {s : Session}

/-- A change of the session with a result is made. -/
theorem run_modifyGet {α : Type} (f : Session → α × Session) :
    (modifyGet f : Act α).run s = (.ok (f s).1, (f s).2) :=
  rfl

/-- A request that does not go too deep does not stop an act. -/
theorem run_checkReply (reply : Reply) (s : Session) : (checkReply reply).run s =
    (if reply = .tooDeep then .error (.fault .tooDeep) else .ok (), s) := by
  unfold checkReply
  split <;> rfl

/-- A listener hears of an event and reacts, and may interrupt the act by that. -/
theorem run_emit_eq (e : Event) : (emit p e).run s =
    (match s.fault? p e with
      | some f => .error (.fault f)
      | none => .ok (), s.hear p e) := by
  unfold emit Session.hear Session.fault? Session.tell
  by_cases hlistens : p.listens = true
  · simp only [hlistens, if_true, run_bind, run_get, run_modify]
    cases hlookup : p.hooks.lookup s.emitted with
    | none => rfl
    | some hook =>
      cases hook with
      | fail => rfl
      | cancel =>
        simp only [react, run_bind, run_modifyGet, run_checkReply]
        split <;> rfl
      | cancelCaller =>
        have hcallers : (s.note (.event e)).callers = s.callers := rfl
        simp only [react, run_bind, run_modifyGet, run_checkReply, hcallers]
        split <;> rfl
  · simp only [hlistens]
    rfl

/-- A listener that does not interrupt the act hears of an event and reacts. -/
theorem run_emit_hear {e : Event} (hcalm : s.fault? p e = none) : (emit p e).run s = (.ok (), s.hear p e) := by
  rw [run_emit_eq, hcalm]

/-- A listener that interrupts the act has heard of the event. -/
theorem run_emit_fail {e : Event} {f : Fault} (hfault : s.fault? p e = some f) :
    (emit p e).run s = (.error (.fault f), s.hear p e) := by
  rw [run_emit_eq, hfault]

/-- A run under way comes to its end with any verdict, also if the listener fails as it hears of that. -/
theorem run_finish_hear (hrunning : s.machine.status = .running) (verdict : Verdict) : ∃ r s',
    (finish p verdict).run s = (r, s') ∧ (s.IsUnlinked → ¬ p.Fails s.emitted → r = .ok ()) ∧
      (s.cancelRequested = true → s'.cancelRequested = true) ∧
      s.Tells verdict.status (p.closing s.scheduler.now s.machine.active verdict) s' := by
  have hallows : ∀ m : Machine, m.status = .running → m.allows verdict.status = true := by
    intro m hm
    unfold Machine.allows
    rw [hm]
    cases verdict <;> rfl
  -- What follows once no node is shown as active.
  have hrest : ∀ s₁ : Session, s₁.machine.status = .running → s₁.scheduler.now = s.scheduler.now →
      s₁.emitted = s.emitted → s₁.cancelRequested = s.cancelRequested → (s.IsUnlinked → s₁.IsUnlinked) → ∃ r s',
      (do
        transition verdict.status
        emit p (.ended verdict)
        log .info ("[Engine] Simulation " ++ verdict.status.name) : Act Unit).run s₁ = (r, s') ∧
      (s.IsUnlinked → ¬ p.Fails s.emitted → r = .ok ()) ∧ (s.cancelRequested = true → s'.cancelRequested = true) ∧
      s₁.Tells verdict.status ((s.scheduler.now, .state ⟨.status, some RunStatus.running.name,
        some verdict.status.name⟩) ::
        p.heard s.scheduler.now (.ended verdict)) s' := by
    intro s₁ h₁ hnow hemitted hrequested hfree
    simp only [run_bind, run_transition (hallows s₁.machine h₁)]
    rw [h₁, ← hnow, ← hemitted, ← hrequested]
    generalize hc : (⟨.status, some RunStatus.running.name, some verdict.status.name⟩ : Change) = c
    have hchange := Session.tells_change (s := s₁) c
      { s₁.machine with status := verdict.status, history := s₁.machine.history ++ [c] } rfl (by rw [← hc]; rfl)
    have hhear := hchange.trans (Session.tells_hear (p := p) (e := .ended verdict))
    have hkept : ∀ m, s₁.cancelRequested = true →
        ((s₁.change c m).hear p (.ended verdict)).cancelRequested = true := fun m h =>
      Session.cancelRequested_hear (s := s₁.change c m) h
    have hcalm : s.IsUnlinked → ¬ p.Fails s₁.emitted → (s₁.change c
        { s₁.machine with status := verdict.status, history := s₁.machine.history ++ [c] }).fault? p (.ended verdict) =
          none := fun hs hcalm => ((hfree hs).tells hchange).fault?_eq_none hcalm
    cases hfault : (s₁.change c { s₁.machine with
        status := verdict.status
        history := s₁.machine.history ++ [c] }).fault? p (.ended verdict) with
    | some f =>
      rw [run_emit_fail hfault]
      refine ⟨_, _, rfl, fun hs hnot => ?_, hkept _, hhear⟩
      cases hfault.symm.trans (hcalm hs hnot)
    | none =>
      rw [run_emit_hear hfault]
      have hlog := hhear.trans (Session.tells_log [⟨.info, "[Engine] Simulation " ++ verdict.status.name⟩])
      rw [hhear.status, List.append_nil] at hlog
      exact ⟨_, _, rfl, fun _ _ => rfl, hkept _, hlog⟩
  unfold finish
  by_cases hactive : s.machine.active.isSome = true
  · obtain ⟨r, s', hrun, hr, hkept, htells⟩ := hrest (s.setActive none) hrunning rfl rfl rfl fun h => h
    refine ⟨r, s', ?_, hr, hkept, ?_⟩
    · rw [run_bind, run_get]
      simp only [hactive, if_true]
      rw [run_bind, run_setActive]
      exact hrun
    · have hboth := (Session.tells_setActive (s := s) none).trans htells
      rw [Plan.closing, if_pos hactive]
      exact hboth
  · obtain ⟨r, s', hrun, hr, hkept, htells⟩ := hrest s hrunning rfl rfl rfl fun h => h
    refine ⟨r, s', ?_, hr, hkept, ?_⟩
    · rw [run_bind, run_get]
      simp only [hactive]
      exact hrun
    · rw [Plan.closing, if_neg hactive, List.nil_append]
      exact htells

end Act

namespace Engine

open Act

variable {p : Plan} {s : Session} {v : Visit}

/-- A visit begins with its node active, and fails if the listener interrupts it. -/
theorem run_enter_hear (hdepth : ¬ p.maxDepth < v.depth) : ∃ s',
    s.Tells s.machine.status (p.entries s.scheduler.now s.machine.active (.enter v)) s' ∧
      ((∃ f, (s.setActive (some v.node.id)).fault? p (.nodeActive v.node v.depth) = some f ∧
          (enter p v).run s = (.error (.fault f), s')) ∨
        ¬ p.Fails s.emitted ∧ (enter p v).run s = (delay p.dwell (.leave v)).run s') := by
  have hhear := (Session.tells_setActive (s := s) (some v.node.id)).trans
    (Session.tells_hear (p := p) (e := .nodeActive v.node v.depth))
  cases hfault : (s.setActive (some v.node.id)).fault? p (.nodeActive v.node v.depth) with
  | some f =>
    refine ⟨_, hhear, Or.inl ⟨f, rfl, ?_⟩⟩
    unfold enter
    simp only [if_neg hdepth, run_bind, run_setActive, run_emit_fail hfault]
  | none =>
    refine ⟨((s.setActive (some v.node.id)).hear p (.nodeActive v.node v.depth)).log
      [⟨.info, "[Engine] Node " ++ v.node.id ++ " (" ++ v.node.label ++ ") active"⟩], ?_, Or.inr ⟨fun hfails => ?_, ?_⟩⟩
    · have hlog := hhear.trans (Session.tells_log
        [⟨.info, "[Engine] Node " ++ v.node.id ++ " (" ++ v.node.label ++ ") active"⟩])
      rw [hhear.status, List.append_nil] at hlog
      exact hlog
    · cases hfault.symm.trans (Session.fault?_of_fails (s := s.setActive (some v.node.id)) hfails)
    · unfold enter
      simp only [if_neg hdepth, run_bind, run_setActive, run_emit_hear hfault, run_log]

/-- A visit clears its node, and fails if the listener interrupts it or ends if the node has no outgoing edges. -/
theorem run_leave_hear : ∃ s', s.Tells s.machine.status (p.entries s.scheduler.now s.machine.active (.leave v)) s' ∧
    ((∃ f, (s.setActive none).fault? p (.nodeCleared v.node.id) = some f ∧
        (leave p v).run s = (.error (.fault f), s')) ∨
      ¬ p.Fails s.emitted ∧
        (v.graph.targets v.node.id = [] → (leave p v).run s = (.ok .over, s')) ∧
        (v.graph.targets v.node.id ≠ [] → (leave p v).run s = (delay p.edgeDelay (.fanOut v)).run s')) := by
  have htells := (Session.tells_setActive (s := s) none).trans
    (Session.tells_hear (p := p) (e := .nodeCleared v.node.id))
  refine ⟨(s.setActive none).hear p (.nodeCleared v.node.id), htells, ?_⟩
  cases hfault : (s.setActive none).fault? p (.nodeCleared v.node.id) with
  | some f =>
    refine Or.inl ⟨f, rfl, ?_⟩
    unfold leave
    simp only [run_bind, run_setActive, run_emit_fail hfault]
  | none =>
    refine Or.inr ⟨fun hfails => ?_, fun hleaf => ?_, fun hinner => ?_⟩
    · cases hfault.symm.trans (Session.fault?_of_fails (s := s.setActive none) hfails)
    · have hempty : (v.graph.outgoing v.node.id).isEmpty = true := by
        simpa [FlowGraph.targets] using hleaf
      unfold leave
      simp only [run_bind, run_setActive, run_emit_hear hfault, hempty, if_true]
      rfl
    · have hempty : (v.graph.outgoing v.node.id).isEmpty = false := by
        simpa [FlowGraph.targets] using hinner
      unfold leave
      simp only [run_bind, run_setActive, run_emit_hear hfault, hempty]
      rfl

/-- A visit that branches spawns what follows it and waits for all of that, unless the listener interrupts it. -/
theorem run_fanOut_hear : ∃ s', s.Tells s.machine.status (p.entries s.scheduler.now s.machine.active (.fanOut v)) s' ∧
    ((∃ f, s.fault? p (.fanOut v.node.id (v.graph.targets v.node.id)) = some f ∧
        (fanOut p v).run s = (.error (.fault f), s')) ∨
      ¬ p.Fails s.emitted ∧ (fanOut p v).run s = (let spawned := s'.scheduler.spawnAll ((followers v).map .enter)
        (.ok (.wait spawned.2.futures.length (.join v spawned.1)),
          { s' with scheduler := (spawned.2.gather spawned.1).2 }))) := by
  have hhear := Session.tells_hear (p := p) (s := s) (e := .fanOut v.node.id (v.graph.targets v.node.id))
  unfold fanOut
  cases hfault : s.fault? p (.fanOut v.node.id (v.graph.targets v.node.id)) with
  | some f =>
    refine ⟨_, hhear, Or.inl ⟨f, rfl, ?_⟩⟩
    simp only [run_bind, run_emit_fail hfault]
  | none =>
    have hcalm : ¬ p.Fails s.emitted := fun hfails => by
      cases hfault.symm.trans (Session.fault?_of_fails hfails)
    by_cases hseveral : 1 < (v.graph.targets v.node.id).length
    · have hlog := hhear.trans (Session.tells_log
        [⟨.debug, "[Engine] Fan-out " ++ v.node.id ++ " -> " ++ Text.quotedList (v.graph.targets v.node.id)⟩])
      rw [hhear.status, List.append_nil] at hlog
      refine ⟨_, hlog, Or.inr ⟨hcalm, ?_⟩⟩
      simp only [run_bind, run_emit_hear hfault, if_pos hseveral, run_log, run_schedule, run_pure]
      rfl
    · refine ⟨_, hhear, Or.inr ⟨hcalm, ?_⟩⟩
      simp only [run_bind, run_emit_hear hfault, if_neg hseveral, run_schedule, run_pure]
      rfl

/-- A visit that is interrupted as it waits for those that follow it passes a request on to them, and fails if that
goes too deep. -/
theorem run_join (children : List FutureId) (i : Interrupt) : (join children (some i)).run s =
    (if (s.scheduler.cancelEach children).1 = .tooDeep then .error (.fault .tooDeep) else .error i,
      { s with scheduler := (s.scheduler.cancelEach children).2 }) := by
  simp only [join, run_bind, run_schedule, run_checkReply]
  by_cases hdeep : (s.scheduler.cancelEach children).1 = .tooDeep
  · simp only [if_pos hdeep]
  · simp only [if_neg hdeep]
    rfl

/-! ## Simulations -/

/-- What becomes of a request for a simulation in the first turn of its caller: it is rejected, the run
comes to its end at once, its root is made, or the listener fails before any of that. -/
inductive Begins (p : Plan) (graph : Except LoadError Snapshot) (s : Session) :
    Except Interrupt (Option FutureId) × Session → Prop
  | rejected {i s'} (htells : s.Tells s.machine.status [] s') : Begins p graph s (.error i, s')
  | answered {snapshot r s' verdict middle active} (hgraph : graph = .ok snapshot)
    (hstatus : s.machine.status ≠ .running) (hr : ∀ task, r ≠ .ok (some task))
    (hmiddle : middle = [] ∨
      ∃ cycle, middle = p.heard s.scheduler.now (.cycleDetected cycle) ∧ verdict = .failed "cycle")
    (htells : s.Tells verdict.status (p.opening s.scheduler.now s.machine.status snapshot ++
      (middle ++ p.closing s.scheduler.now active verdict)) s') (hactive : active = s.machine.active)
    (hcalm : ¬ p.Fails s.emitted ∧ (middle = [] ∨ ¬ p.Fails (s.emitted + 1))) : Begins p graph s (r, s')
  | launched {snapshot start s'} (hgraph : graph = .ok snapshot) (hstatus : s.machine.status ≠ .running)
    (hstart : snapshot.flow.start? = some start) (hcycle : snapshot.flow.findCycle? (some start.id) = none)
    (htells : s.Tells .running (p.opening s.scheduler.now s.machine.status snapshot) s')
    (hcalm : ¬ p.Fails s.emitted) (hfresh : s'.cancelRequested = false) :
    Begins p graph s (.ok (some s'.scheduler.futures.length),
        { s' with
          scheduler := (s'.scheduler.spawn (.enter ⟨snapshot.flow, start, 0⟩)).2
          run := some s'.scheduler.futures.length })
  | openingFails {snapshot s' middle} (hgraph : graph = .ok snapshot) (hstatus : s.machine.status ≠ .running)
    (hfails : middle = [] ∧ p.Fails s.emitted ∨
      (∃ cycle, middle = p.heard s.scheduler.now (.cycleDetected cycle)) ∧ p.Fails (s.emitted + 1))
    (htells : s.Tells .running (p.opening s.scheduler.now s.machine.status snapshot ++ middle) s') :
    Begins p graph s (.error (.fault .listener), s')

/-- The beginning of a run is recorded. -/
theorem tells_commence (hidle : s.run = none) (snapshot : Snapshot) :
    s.Tells .running (p.opening s.scheduler.now s.machine.status snapshot) (s.commence p snapshot) := by
  unfold Session.commence Session.prepare
  dsimp only
  generalize hc : (⟨.status, some (s.log snapshot.danglingReports).machine.status.name,
    some RunStatus.running.name⟩ : Change) = c
  have hlog := Session.tells_log (s := s) snapshot.danglingReports
  have hchange := hlog.trans (Session.tells_change (s := s.log snapshot.danglingReports) c
    { (s.log snapshot.danglingReports).machine with
      status := .running
      history := (s.log snapshot.danglingReports).machine.history ++ [c] } rfl (by rw [← hc]; rfl))
  generalize (s.log snapshot.danglingReports).change c _ = s₁ at hchange ⊢
  have hsame : s₁.Tells s₁.machine.status [] { s₁ with cancelRequested := false } :=
    { Session.tells_refl s₁ with
      requested := fun hrun => by simp [hchange.run, hidle] at hrun
      granted := fun hcontra => by cases hcontra }
  have hflag := hchange.trans hsame
  have hhear := hflag.trans (Session.tells_hear (p := p) (e := .started snapshot.summary))
  have hrunning : s₁.machine.status = .running := hchange.status
  have hnow : s₁.scheduler.now = s.scheduler.now := hchange.now
  simpa [← hc, hrunning, hnow, Plan.opening, Session.log] using hhear

/-- No request to cancel a run is granted before its root is made. -/
theorem cancelRequested_commence (hidle : s.run = none) (snapshot : Snapshot) :
    (s.commence p snapshot).cancelRequested = false := by
  have hnone : ∀ s₁ : Session, s₁.run = none → s₁.cancelRequested = false →
      (s₁.hear p (.started snapshot.summary)).cancelRequested = false := by
    intro s₁ hrun hfresh
    cases hgranted : (s₁.hear p (.started snapshot.summary)).cancelRequested with
    | false => rfl
    | true =>
      rcases Session.tells_hear.granted hgranted with hcontra | ⟨R, xs, hcontra, -⟩
      · cases hfresh.symm.trans hcontra
      · cases hrun.symm.trans hcontra
  exact hnone _ hidle rfl

section Commence

variable (hstatus : s.machine.status ≠ .running) (snapshot : Snapshot) {α : Type} (act : Act α)

include hstatus

/-- A run begins in a session in which no other one is under way. -/
theorem run_commence (hcalm : (s.prepare snapshot).fault? p (.started snapshot.summary) = none) : (do
      modify fun s => s.log snapshot.danglingReports
      transition .running
      modify fun s => { s with cancelRequested := false }
      emit p (.started snapshot.summary)
      log .info ("[Engine] Simulation started. " ++ snapshot.summary)
      act : Act α).run s = act.run ((s.commence p snapshot).log
        [⟨.info, "[Engine] Simulation started. " ++ snapshot.summary⟩]) := by
  have htransition := run_transition (s := s.log snapshot.danglingReports) (allows_running hstatus)
  simp only [run_bind, run_modify, htransition]
  rw [run_emit_hear]
  · rfl
  · exact hcalm

/-- A run gets no further than the event of its start if the listener interrupts it at that. -/
theorem run_commence_fail {f : Fault} (hfault : (s.prepare snapshot).fault? p (.started snapshot.summary) = some f) :
    (do
      modify fun s => s.log snapshot.danglingReports
      transition .running
      modify fun s => { s with cancelRequested := false }
      emit p (.started snapshot.summary)
      log .info ("[Engine] Simulation started. " ++ snapshot.summary)
      act : Act α).run s = (.error (.fault f), s.commence p snapshot) := by
  have htransition := run_transition (s := s.log snapshot.danglingReports) (allows_running hstatus)
  simp only [run_bind, run_modify, htransition]
  rw [run_emit_fail]
  · rfl
  · exact hfault

end Commence

/-- A graph with a cycle in reach is reported and refused, unless the listener fails at the report. -/
theorem begins_cyclic {snapshot : Snapshot} (cycle : List Text) {s₁ : Session} (hstatus : s.machine.status ≠ .running)
    (htells : s.Tells .running (p.opening s.scheduler.now s.machine.status snapshot) s₁)
    (hfree : s.IsUnlinked) (hcalm : ¬ p.Fails s.emitted) : Begins p (.ok snapshot) s ((do
      emit p (.cycleDetected cycle)
      finish p (.failed "cycle")
      fail (.cycle cycle) : Act (Option FutureId)).run s₁) := by
  have hhear := htells.trans (Session.tells_hear (p := p) (e := .cycleDetected cycle))
  rw [htells.now, htells.status] at hhear
  have hnext : p.listens = true → s₁.emitted = s.emitted + 1 := fun hlistens => by
    rw [htells.emitted]
    simp [Plan.opening, Entry.event?, hlistens]
  by_cases hfails : p.Fails s₁.emitted
  · simp only [run_bind, run_emit_fail (Session.fault?_of_fails hfails)]
    exact .openingFails rfl hstatus (Or.inr ⟨⟨cycle, rfl⟩, hnext hfails.1 ▸ hfails⟩) hhear
  · obtain ⟨r, s₂, hfinish, -, -, hclose⟩ := run_finish_hear (p := p) (s := s₁.hear p (.cycleDetected cycle))
      hhear.status (.failed "cycle")
    simp only [run_bind, run_emit_hear ((hfree.tells htells).fault?_eq_none hfails), hfinish]
    have hactive : (s₁.hear p (.cycleDetected cycle)).machine.active = s.machine.active := by
      rw [hhear.active]
      simp [Plan.opening, Entry.change?]
    rw [hhear.now, hactive] at hclose
    have hall := hhear.trans hclose
    rw [List.append_assoc] at hall
    have hsecond : ¬ p.Fails (s.emitted + 1) := fun hcontra => hfails (hnext hcontra.1 ▸ hcontra)
    cases r with
    | ok =>
      exact .answered rfl hstatus (fun task hcontra => by cases hcontra) (Or.inr ⟨cycle, rfl, rfl⟩) hall rfl
        ⟨hcalm, Or.inr hsecond⟩
    | error =>
      exact .answered rfl hstatus (fun task hcontra => by cases hcontra) (Or.inr ⟨cycle, rfl, rfl⟩) hall rfl
        ⟨hcalm, Or.inr hsecond⟩

/-- The first turn of a caller rejects its request, brings it to its end at once, or makes a root, unless the
listener fails. -/
theorem begins (hidle : s.machine.status ≠ .running → s.run = none ∧ s.IsUnlinked) (graph : Except LoadError Snapshot) :
    Begins p graph s ((begin p graph).run s) := by
  cases graph with
  | error e => exact .rejected (Session.tells_refl s)
  | ok snapshot =>
    by_cases hstatus : s.machine.status = .running
    · have hfail : s.machine.allows .running = false := by
        simp [Machine.allows, hstatus, RunStatus.successors]
      have hrun : (begin p (.ok snapshot)).run s =
          (.error (.fault (.transition ⟨s.machine.status, .running⟩)), s.log snapshot.danglingReports) := by
        unfold begin transition
        simp [run_bind, run_modify, run_get, run_fail, Machine.transition, Session.log, hfail]
      rw [hrun]
      exact .rejected (Session.tells_log _)
    · obtain ⟨hidle, hfree⟩ := hidle hstatus
      have htells := tells_commence (p := p) hidle snapshot
      have hprepared : (s.prepare snapshot).IsUnlinked := hfree
      unfold begin
      dsimp only
      by_cases hfails : p.Fails s.emitted
      · rw [run_commence_fail hstatus snapshot _ (Session.fault?_of_fails (s := s.prepare snapshot) hfails)]
        refine .openingFails rfl hstatus (Or.inl ⟨rfl, hfails⟩) ?_
        rw [List.append_nil]
        exact htells
      · rw [run_commence hstatus snapshot _ (hprepared.fault?_eq_none hfails)]
        have hlog := htells.trans (Session.tells_log [⟨.info, "[Engine] Simulation started. " ++ snapshot.summary⟩])
        rw [htells.status, List.append_nil] at hlog
        have hfresh := cancelRequested_commence (p := p) hidle snapshot
        generalize hs₁ : (s.commence p snapshot).log _ = s₁ at hlog
        replace hfresh : s₁.cancelRequested = false := hs₁ ▸ hfresh
        cases hstart : snapshot.flow.start? with
        | none =>
          have hempty := hlog.trans (Session.tells_log [⟨.info, "[Engine] Empty graph, nothing to simulate"⟩])
          rw [hlog.status, List.append_nil] at hempty
          obtain ⟨r, s₂, hfinish, -, -, hclose⟩ := run_finish_hear (p := p)
            (s := s₁.log [⟨.info, "[Engine] Empty graph, nothing to simulate"⟩]) hempty.status .finished
          have hactive : (s₁.log [⟨.info, "[Engine] Empty graph, nothing to simulate"⟩]).machine.active =
              s.machine.active := by
            rw [hempty.active]
            simp [Plan.opening, Entry.change?]
          rw [hempty.now, hactive] at hclose
          have hall := hempty.trans hclose
          simp only [run_bind, run_log, hfinish, run_pure]
          cases r with
          | ok =>
            exact .answered rfl hstatus (fun task hcontra => by cases hcontra)
              (Or.inl rfl) hall rfl ⟨hfails, Or.inl rfl⟩
          | error =>
            exact .answered rfl hstatus (fun task hcontra => by cases hcontra)
              (Or.inl rfl) hall rfl ⟨hfails, Or.inl rfl⟩
        | some start =>
          cases hcycle : snapshot.flow.findCycle? (some start.id) with
          | some cycle =>
            have hreport := hlog.trans (Session.tells_log [⟨.error, "[Engine] Cycle reachable from start node " ++
              start.id ++ ": " ++ walkText cycle⟩])
            rw [hlog.status, List.append_nil] at hreport
            have hcyclic := begins_cyclic cycle hstatus hreport hfree hfails
            simp only [hcycle]
            rw [run_bind, run_log]
            exact hcyclic
          | none =>
            simp only [hcycle, run_bind, run_schedule, run_modify, run_pure]
            exact .launched rfl hstatus hstart hcycle hlog hfails hfresh

/-- A caller whose act is done or interrupted notes that and ends. -/
theorem run_settle_ending {act : Act Unit} {r : Ending} {s' : Session} (h : act.run s = (r, s')) (caller : Nat)
    (next : Program) : (settle caller next (do act; return none)).run s =
      (.ok .over, s'.note (.result caller (.ofEnding r))) := by
  cases r with
  | ok => exact run_settle_done (by simp only [run_bind, h, run_pure])
  | error i => exact run_settle_error (by simp only [run_bind, h])

/-- A caller that concludes its run records the verdict, notes its result and ends. -/
theorem run_conclude_hear (hrunning : s.machine.status = .running) (caller : Nat) (i : Option Interrupt) :
    ∃ s' res,
      (turn p (.conclude caller) i).run s = (.ok .over, { s'.note (.result caller res) with run := none }) ∧
      (i = some .cancelled → s.IsUnlinked → s.cancelRequested = true → ¬ p.Fails s.emitted → res = .returned) ∧
      s.Tells (Verdict.ofInterrupt i).status (p.closing s.scheduler.now s.machine.active (.ofInterrupt i)) s' := by
  cases i with
  | none =>
    obtain ⟨r, s₁, hfinish, -, hkept, hclose⟩ := run_finish_hear (p := p)
      (s := { s with run := none }) hrunning .finished
    have hforgotten : s₁.run = none := hclose.run
    have htells : s.Tells (Verdict.ofInterrupt none).status
        (p.closing s.scheduler.now s.machine.active (.ofInterrupt none)) { s₁ with run := s.run } := by
      refine ⟨hclose.records, hclose.results, hclose.history, hclose.status, hclose.active, rfl, hclose.callers,
        hclose.emitted, fun _ => hkept, fun hgranted => (hclose.granted hgranted).imp_right ?_, ?_⟩
      · rintro ⟨R, xs, hcontra, -⟩
        cases hcontra
      obtain ⟨xs, hxs, hscheduler⟩ := hclose.asks
      exact ⟨xs, fun x hx => Or.inr ((hxs x hx).resolve_left fun hcontra => by cases hcontra), hscheduler⟩
    have hrun : (conclude p none).run s = (r, { ({ s₁ with run := s.run } : Session) with run := none }) := by
      cases s₁
      cases hforgotten
      simp only [conclude, run_bind, run_modify, hfinish]
    exact ⟨_, _, run_settle_ending hrun caller _, (fun hcontra => by cases hcontra), htells⟩
  | some i =>
    cases i with
    | fault f =>
      obtain ⟨r, s₁, hfinish, -, -, hclose⟩ := run_finish_hear (p := p) hrunning (.failed f.message)
      have hrun : ∃ e, (conclude p (some (.fault f))).run s = (e, { s₁ with run := none }) := by
        simp only [conclude, forgetRun, ExceptT.run_mk, run_bind, hfinish]
        cases r <;> exact ⟨_, rfl⟩
      obtain ⟨e, hrun⟩ := hrun
      exact ⟨_, _, run_settle_ending hrun caller _, (fun hcontra => by cases hcontra), hclose⟩
    | cancelled =>
      obtain ⟨r, s₁, hfinish, hr, hkept, hclose⟩ := run_finish_hear (p := p) hrunning .cancelled
      have hrun : ∃ e, (conclude p (some .cancelled)).run s = (e, { s₁ with run := none }) ∧
          (s.IsUnlinked → s.cancelRequested = true → ¬ p.Fails s.emitted → e = .ok ()) := by
        simp only [conclude, forgetRun, ExceptT.run_mk, run_bind, run_get, hfinish]
        cases r with
        | error i => exact ⟨_, rfl, fun hfree _ hcalm => hr hfree hcalm⟩
        | ok =>
          have hend : ((if !s₁.cancelRequested then throw .cancelled else pure ()) : Act Unit).run s₁ =
              (if s₁.cancelRequested then .ok () else .error .cancelled, s₁) := by
            cases s₁.cancelRequested <;> rfl
          simp only [hend]
          exact ⟨_, rfl, fun _ hrequested _ => if_pos (hkept hrequested)⟩
      obtain ⟨e, hrun, he⟩ := hrun
      refine ⟨_, _, run_settle_ending hrun caller _, fun _ hfree hrequested hcalm => ?_, hclose⟩
      rw [he hfree hrequested hcalm]
      rfl

end Engine

end PipelineGraph.Simulation
