import PipelineGraph.Proofs.Simulation.ReactingListeners

/-!
# Regular and failing steps

A regular step is a step of any session in which the listener does not fail, or only at the last event of a run:
other simulations may be asked for, and the run or callers be cancelled, from outside or by the listener.
Any other step is a failing one: a visit ends as the listener fails or a request to cancel goes too
deep, or a call ends as the listener fails before it has made the root of its run.
-/

namespace PipelineGraph.Simulation

open Scheduler

/-- A step of a session whose listener does not fail before the end of a run. -/
inductive RegularStep (p : Plan) (s : Session) : Session → Prop
  | advance {sch} (hready : s.scheduler.ready = []) (hadvance : s.scheduler.advance? = some sch) :
    RegularStep p s { s with scheduler := sch }
  | elapse {x rest} (hready : s.scheduler.ready = .elapse x :: rest) :
    RegularStep p s { s with scheduler := (s.scheduler.drop rest).complete x (.ok ()) }
  | count {g c rest} (hready : s.scheduler.ready = .count g c :: rest) :
    RegularStep p s { s with scheduler := (s.scheduler.drop rest).countChild g c }
  | act {a rest} (hready : s.scheduler.ready = .act a :: rest) :
    RegularStep p s (Engine.act { s with scheduler := s.scheduler.drop rest } a)
  | goes {job rest id pr next d s₁ sch} (hready : s.scheduler.ready = job :: rest)
    (htask : job.task? = some id) (hprogram : s.scheduler.program? id = some pr)
    (hcalm : s.scheduler.interrupt? id job = none) (hnext : pr.Continues p next d)
    (htells : (s.awaken rest id).Tells s.machine.status (p.entries s.scheduler.now s.machine.active pr) s₁)
    (hgoes : s₁.scheduler.Goes id next d sch) (hheard : ¬ p.Fails s.emitted) :
    RegularStep p s { s₁ with scheduler := sch }
  | unusable {job rest id pr next d s₁ f} (hready : s.scheduler.ready = job :: rest)
    (htask : job.task? = some id) (hprogram : s.scheduler.program? id = some pr)
    (hcalm : s.scheduler.interrupt? id job = none) (hnext : pr.Continues p next d) (hd : ¬ d.IsUsable)
    (htells : (s.awaken rest id).Tells s.machine.status (p.entries s.scheduler.now s.machine.active pr) s₁)
    (hheard : ¬ p.Fails s.emitted) :
    RegularStep p s { s₁ with scheduler := s₁.scheduler.complete id (.error (.fault f)) }
  | leaf {job rest id v s₁} (hready : s.scheduler.ready = job :: rest) (htask : job.task? = some id)
    (hprogram : s.scheduler.program? id = some (.leave v)) (hcalm : s.scheduler.interrupt? id job = none)
    (htells : (s.awaken rest id).Tells s.machine.status (p.entries s.scheduler.now s.machine.active (.leave v)) s₁)
    (hheard : ¬ p.Fails s.emitted) : RegularStep p s { s₁ with scheduler := s₁.scheduler.endTask id }
  | fork {job rest id v s₁} (hready : s.scheduler.ready = job :: rest) (htask : job.task? = some id)
    (hprogram : s.scheduler.program? id = some (.fanOut v)) (hcalm : s.scheduler.interrupt? id job = none)
    (htells : (s.awaken rest id).Tells s.machine.status (p.entries s.scheduler.now s.machine.active (.fanOut v)) s₁)
    (hheard : ¬ p.Fails s.emitted) : RegularStep p s { s₁ with
      scheduler := s₁.scheduler.branch id ((Engine.followers v).map .enter) (.join v) }
  | join {job rest id v children} (hready : s.scheduler.ready = job :: rest) (htask : job.task? = some id)
    (hprogram : s.scheduler.program? id = some (.join v children)) (hcalm : s.scheduler.interrupt? id job = none) :
    RegularStep p s { s with scheduler := (s.awaken rest id).scheduler.complete id (.ok ()) }
  | deep {job rest id v} (hready : s.scheduler.ready = job :: rest) (htask : job.task? = some id)
    (hprogram : s.scheduler.program? id = some (.enter v)) (hcalm : s.scheduler.interrupt? id job = none)
    (hdepth : p.maxDepth < v.depth) :
    RegularStep p s { s with scheduler :=
      (s.awaken rest id).scheduler.complete id (.error (.fault (.depth v.node.id p.maxDepth))) }
  | halt {job rest id pr i} (hready : s.scheduler.ready = job :: rest) (htask : job.task? = some id)
    (hprogram : s.scheduler.program? id = some pr) (hqueued : pr.isQueued = true)
    (hinterrupt : s.scheduler.interrupt? id job = some i) :
    RegularStep p s { s with scheduler := (s.awaken rest id).scheduler.complete id (.error i) }
  | abandon {job rest id v children i} (hready : s.scheduler.ready = job :: rest) (htask : job.task? = some id)
    (hprogram : s.scheduler.program? id = some (.join v children))
    (hinterrupt : s.scheduler.interrupt? id job = some i) :
    RegularStep p s { s with scheduler :=
      ((s.awaken rest id).scheduler.cancelAll children).complete id (.error i) }
  | reject {job rest id caller graph s₁ res} (hready : s.scheduler.ready = job :: rest)
    (htask : job.task? = some id) (hprogram : s.scheduler.program? id = some (.call caller graph))
    (htells : (s.awaken rest id).Tells s.machine.status [] s₁) :
    RegularStep p s { s₁.note (.result caller res) with scheduler := s₁.scheduler.endTask id }
  | answer {job rest id caller snapshot s₁ res verdict middle active} (hready : s.scheduler.ready = job :: rest)
    (htask : job.task? = some id) (hprogram : s.scheduler.program? id = some (.call caller (.ok snapshot)))
    (hstatus : s.machine.status ≠ .running)
    (hmiddle : middle = [] ∨
      ∃ cycle, middle = p.heard s.scheduler.now (.cycleDetected cycle) ∧ verdict = .failed "cycle")
    (htells : (s.awaken rest id).Tells verdict.status (p.opening s.scheduler.now s.machine.status snapshot ++
      (middle ++ p.closing s.scheduler.now active verdict)) s₁) (hactive : active = s.machine.active)
    (hheard : ¬ p.Fails s.emitted ∧ (middle = [] ∨ ¬ p.Fails (s.emitted + 1))) :
    RegularStep p s { s₁.note (.result caller res) with scheduler := s₁.scheduler.endTask id }
  | launch {job rest id caller snapshot start s₁} (hready : s.scheduler.ready = job :: rest)
    (htask : job.task? = some id) (hprogram : s.scheduler.program? id = some (.call caller (.ok snapshot)))
    (hstatus : s.machine.status ≠ .running) (hstart : snapshot.flow.start? = some start)
    (hcycle : snapshot.flow.findCycle? (some start.id) = none)
    (htells : (s.awaken rest id).Tells .running (p.opening s.scheduler.now s.machine.status snapshot) s₁)
    (hheard : ¬ p.Fails s.emitted) (hfresh : s₁.cancelRequested = false) : RegularStep p s { s₁ with
      scheduler := (s₁.scheduler.spawn (.enter ⟨snapshot.flow, start, 0⟩)).2.defer id (.conclude caller)
        s₁.scheduler.futures.length
      run := some s₁.scheduler.futures.length }
  | conclude {job rest id caller s₁ res verdict} (hready : s.scheduler.ready = job :: rest)
    (htask : job.task? = some id) (hprogram : s.scheduler.program? id = some (.conclude caller))
    (hrunning : s.machine.status = .running)
    (htells : (s.awaken rest id).Tells (Verdict.status verdict)
      (p.closing s.scheduler.now s.machine.active verdict) s₁)
    (hverdict : verdict = .ofInterrupt (s.scheduler.interrupt? id job))
    (hreturned : s.scheduler.interrupt? id job = some .cancelled → s.cancelRequested = true → ¬ p.Fails s.emitted →
      res = .returned) :
    RegularStep p s { s₁.note (.result caller res) with
      run := none
      scheduler := s₁.scheduler.endTask id }

/-- A step of a session whose listener fails before the end of a run, or in which a request to cancel goes too
deep. -/
inductive FailingStep (p : Plan) (s : Session) : Session → Prop
  | visitFails {job rest id pr s₁ f} (hready : s.scheduler.ready = job :: rest) (htask : job.task? = some id)
    (hprogram : s.scheduler.program? id = some pr) (hactive : pr.isActive = true) (hnot : ¬ pr.IsDeep p)
    (hcalm : s.scheduler.interrupt? id job = none)
    (hfails : p.Fails s.emitted ∧ f = .listener ∨ f = .tooDeep ∧ (s.awaken rest id).GoesTooDeep)
    (htells : (s.awaken rest id).Tells s.machine.status (p.entries s.scheduler.now s.machine.active pr) s₁) :
    FailingStep p s { s₁ with scheduler := s₁.scheduler.complete id (.error (.fault f)) }
  | childrenTooDeep {job rest id v children i} (hready : s.scheduler.ready = job :: rest) (htask : job.task? = some id)
    (hprogram : s.scheduler.program? id = some (.join v children))
    (hinterrupt : s.scheduler.interrupt? id job = some i)
    (hdeep : ((s.awaken rest id).scheduler.cancelEach children).1 = .tooDeep) :
    FailingStep p s { s with scheduler :=
      ((s.awaken rest id).scheduler.cancelEach children).2.complete id (.error (.fault .tooDeep)) }
  | openingFails {job rest id caller snapshot s₁ middle} (hready : s.scheduler.ready = job :: rest)
    (htask : job.task? = some id) (hprogram : s.scheduler.program? id = some (.call caller (.ok snapshot)))
    (hstatus : s.machine.status ≠ .running)
    (hfails : middle = [] ∧ p.Fails s.emitted ∨
      (∃ cycle, middle = p.heard s.scheduler.now (.cycleDetected cycle)) ∧ p.Fails (s.emitted + 1))
    (htells : (s.awaken rest id).Tells .running
      (p.opening s.scheduler.now s.machine.status snapshot ++ middle) s₁) :
    FailingStep p s { s₁.note (.result caller (.failed .listener)) with scheduler := s₁.scheduler.endTask id }

namespace Engine

open Act

variable {p : Plan} {s s' : Session} {job : Job Action} {rest : List (Job Action)} {id : FutureId}

section Turn

variable (hready : s.scheduler.ready = job :: rest) (htask : job.task? = some id)

include hready htask

/-- A visit that goes on behind a delay, or fails as it cannot wait for that, makes a regular step. -/
theorem regularStep_of_delay {pr next : Program} {d : Delay} {s₁ : Session}
    (hprogram : s.scheduler.program? id = some pr) (hcalm : s.scheduler.interrupt? id job = none)
    (hnext : pr.Continues p next d)
    (htells : (s.awaken rest id).Tells s.machine.status (p.entries s.scheduler.now s.machine.active pr) s₁)
    (hheard : ¬ p.Fails s.emitted) : RegularStep p s (follow id ((delay d next).run s₁)) := by
  by_cases hd : d.IsUsable
  · obtain ⟨sch, hgoes, heq⟩ := @exists_goes s₁ id next d hd
    rw [heq]
    exact .goes hready htask hprogram hcalm hnext htells hgoes hheard
  · cases d with
    | pause | timer => exact absurd (fun e hcontra => by cases hcontra) hd
    | unusable e => exact .unusable hready htask hprogram hcalm hnext hd htells hheard

/-- The first turn of a visit is a regular or a failing step. -/
theorem regularStep_of_enter {v : Visit} (hprogram : s.scheduler.program? id = some (.enter v))
    (hcalm : s.scheduler.interrupt? id job = none) :
    RegularStep p s (follow id ((enter p v).run (s.awaken rest id))) ∨
      FailingStep p s (follow id ((enter p v).run (s.awaken rest id))) := by
  by_cases hdepth : p.maxDepth < v.depth
  · rw [run_enter_deep hdepth]
    exact Or.inl (.deep hready htask hprogram hcalm hdepth)
  · obtain ⟨s₁, htells, ⟨f, hfault, hrun⟩ | ⟨hheard, hrun⟩⟩ := run_enter_hear (p := p) hdepth (s := s.awaken rest id)
    · rw [hrun]
      exact Or.inr (.visitFails hready htask hprogram rfl hdepth hcalm (Session.fault?_cases hfault) htells)
    · rw [hrun]
      exact Or.inl (regularStep_of_delay hready htask hprogram hcalm (.enter hdepth) htells hheard)

/-- The turn of a visit after its dwelling is a regular or a failing step. -/
theorem regularStep_of_leave {v : Visit} (hprogram : s.scheduler.program? id = some (.leave v))
    (hcalm : s.scheduler.interrupt? id job = none) :
    RegularStep p s (follow id ((leave p v).run (s.awaken rest id))) ∨
      FailingStep p s (follow id ((leave p v).run (s.awaken rest id))) := by
  obtain ⟨s₁, htells, ⟨f, hfault, hrun⟩ | ⟨hheard, hover, hgo⟩⟩ :=
    run_leave_hear (p := p) (s := s.awaken rest id) (v := v)
  · rw [hrun]
    exact Or.inr (.visitFails hready htask hprogram rfl (fun hdeep => hdeep) hcalm (Session.fault?_cases hfault) htells)
  · by_cases hleaf : v.graph.targets v.node.id = []
    · rw [hover hleaf]
      exact Or.inl (.leaf hready htask hprogram hcalm htells hheard)
    · rw [hgo hleaf]
      exact Or.inl (regularStep_of_delay hready htask hprogram hcalm (.leave hleaf) htells hheard)

/-- The turn in which a visit branches is a regular or a failing step. -/
theorem regularStep_of_fanOut {v : Visit} (hprogram : s.scheduler.program? id = some (.fanOut v))
    (hcalm : s.scheduler.interrupt? id job = none) :
    RegularStep p s (follow id ((fanOut p v).run (s.awaken rest id))) ∨
      FailingStep p s (follow id ((fanOut p v).run (s.awaken rest id))) := by
  obtain ⟨s₁, htells, ⟨f, hfault, hrun⟩ | ⟨hheard, hrun⟩⟩ :=
    run_fanOut_hear (p := p) (s := s.awaken rest id) (v := v)
  · rw [hrun]
    exact Or.inr (.visitFails hready htask hprogram rfl (fun hdeep => hdeep) hcalm (Session.fault?_cases hfault) htells)
  · rw [hrun]
    exact Or.inl (.fork hready htask hprogram hcalm htells hheard)

/-- A visit that is interrupted as it waits for those that follow it passes a request on to them, and that is a
regular step unless the request goes too deep. -/
theorem regularStep_of_join {v : Visit} {children : List FutureId} {i : Interrupt}
    (hprogram : s.scheduler.program? id = some (.join v children))
    (hinterrupt : s.scheduler.interrupt? id job = some i) :
    RegularStep p s (follow id ((join children (some i)).run (s.awaken rest id))) ∨
      FailingStep p s (follow id ((join children (some i)).run (s.awaken rest id))) := by
  rw [run_join]
  by_cases hdeep : ((s.awaken rest id).scheduler.cancelEach children).1 = .tooDeep
  · rw [if_pos hdeep]
    exact Or.inr (.childrenTooDeep hready htask hprogram hinterrupt hdeep)
  · obtain ⟨asked, -, hstate, hall⟩ := exists_cancelEach (s.awaken rest id).scheduler children
    rw [if_neg hdeep, hstate, hall hdeep]
    exact Or.inl (.abandon hready htask hprogram hinterrupt)

/-- The first turn of a caller is a regular or a failing step. -/
theorem regularStep_of_call (hidle : s.machine.status ≠ .running → s.run = none ∧ (s.awaken rest id).IsUnlinked)
    {caller : Nat}
    {graph : Except LoadError Snapshot} (hprogram : s.scheduler.program? id = some (.call caller graph)) :
    RegularStep p s (follow id ((settle caller (.conclude caller) (begin p graph)).run (s.awaken rest id))) ∨
      FailingStep p s (follow id ((settle caller (.conclude caller) (begin p graph)).run (s.awaken rest id))) := by
  have hbegins := begins (p := p) (s := s.awaken rest id) hidle graph
  have hsettle : ∀ {r s₁}, (begin p graph).run (s.awaken rest id) = (r, s₁) → (∀ task, r ≠ .ok (some task)) → ∃ res,
      (settle caller (.conclude caller) (begin p graph)).run (s.awaken rest id) =
        (.ok .over, s₁.note (.result caller res)) := by
    intro r s₁ hrun hr
    cases r with
    | error i => exact ⟨_, run_settle_error hrun⟩
    | ok task =>
      cases task with
      | none => exact ⟨_, run_settle_done hrun⟩
      | some task => exact absurd rfl (hr task)
  generalize hrun : (begin p graph).run (s.awaken rest id) = x at hbegins
  cases hbegins with
  | rejected htells =>
    obtain ⟨res, hres⟩ := hsettle hrun fun task hcontra => by cases hcontra
    rw [hres]
    exact Or.inl (.reject hready htask hprogram htells)
  | answered hgraph hstatus hr hmiddle htells hactive hcalm =>
    obtain ⟨res, hres⟩ := hsettle hrun hr
    rw [hres]
    exact Or.inl (.answer hready htask (hgraph ▸ hprogram) hstatus hmiddle htells hactive hcalm)
  | launched hgraph hstatus hstart hcycle htells hcalm hfresh =>
    have hregularStep := RegularStep.launch hready htask (hgraph ▸ hprogram) hstatus hstart hcycle htells hcalm hfresh
    rw [run_settle_begun hrun]
    exact Or.inl hregularStep
  | openingFails hgraph hstatus hfails htells =>
    rw [run_settle_error hrun]
    exact Or.inr (.openingFails hready htask (hgraph ▸ hprogram) hstatus hfails htells)

/-- The turn in which a caller concludes its run is a regular step. -/
theorem regularStep_of_conclude {caller : Nat} (hprogram : s.scheduler.program? id = some (.conclude caller))
    (hrunning : s.machine.status = .running) (hfree : (s.awaken rest id).IsUnlinked) :
    RegularStep p s (follow id ((turn p (.conclude caller) (s.scheduler.interrupt? id job)).run
      (s.awaken rest id))) := by
  obtain ⟨s₁, res, hrun, hreturned, htells⟩ := run_conclude_hear (p := p) (s := s.awaken rest id) hrunning caller
    (s.scheduler.interrupt? id job)
  rw [hrun]
  exact .conclude hready htask hprogram hrunning htells rfl fun hinterrupt => hreturned hinterrupt hfree

end Turn

section Step

variable (hfits : s.scheduler.Fitting p)
  (hconclude : ∀ job rest id caller, s.scheduler.ready = job :: rest → job.task? = some id →
    s.scheduler.program? id = some (.conclude caller) → s.machine.status = .running ∧ (s.awaken rest id).IsUnlinked)
  (hcall : ∀ job rest id caller graph, s.scheduler.ready = job :: rest → job.task? = some id →
    s.scheduler.program? id = some (.call caller graph) → s.machine.status ≠ .running →
      s.run = none ∧ (s.awaken rest id).IsUnlinked)
  (h : step? p s = some s')

include hfits hconclude hcall h

/-- Every step of a session is a regular or a failing step. -/
theorem regularStep_or_failingStep : RegularStep p s s' ∨ FailingStep p s s' := by
  cases hready : s.scheduler.ready with
  | nil =>
    simp only [step?, hready] at h
    obtain ⟨sch, hadvance, rfl⟩ := Option.map_eq_some_iff.1 h
    exact Or.inl (.advance hready hadvance)
  | cons job rest =>
    simp only [step?, hready, Option.some.injEq] at h
    subst h
    cases htask : job.task? with
    | none =>
      cases job with
      | resume | wake => cases htask
      | count g c => exact Or.inl (.count hready)
      | elapse x => exact Or.inl (.elapse hready)
      | act a => exact Or.inl (.act hready)
    | some id =>
      have hjob : job ∈ s.scheduler.jobs := mem_jobs_of_ready hready
      obtain ⟨pr, hpr⟩ := hfits.exists_program? hjob htask
      change RegularStep p s (perform p { s with scheduler := s.scheduler.drop rest } job) ∨
        FailingStep p s (perform p { s with scheduler := s.scheduler.drop rest } job)
      rw [perform_eq_follow job rest htask hpr]
      cases pr with
      | conclude caller =>
        obtain ⟨hrunning, hfree⟩ := hconclude job rest id caller hready htask hpr
        exact Or.inl (regularStep_of_conclude hready htask hpr hrunning hfree)
      | join v children =>
        cases hin : s.scheduler.interrupt? id job with
        | none =>
          refine Or.inl ?_
          change RegularStep p s { s with scheduler := (s.awaken rest id).scheduler.endTask id }
          rw [endTask_awaken]
          exact .join hready htask hpr hin
        | some i => exact regularStep_of_join hready htask hpr hin
      | enter v =>
        cases hin : s.scheduler.interrupt? id job with
        | none => exact regularStep_of_enter hready htask hpr hin
        | some i => exact Or.inl (.halt hready htask hpr rfl hin)
      | leave v =>
        cases hin : s.scheduler.interrupt? id job with
        | none => exact regularStep_of_leave hready htask hpr hin
        | some i => exact Or.inl (.halt hready htask hpr rfl hin)
      | fanOut v =>
        cases hin : s.scheduler.interrupt? id job with
        | none => exact regularStep_of_fanOut hready htask hpr hin
        | some i => exact Or.inl (.halt hready htask hpr rfl hin)
      | call caller graph =>
        cases hin : s.scheduler.interrupt? id job with
        | none => exact regularStep_of_call hready htask (hcall job rest id caller graph hready htask hpr) hpr
        | some i => exact Or.inl (.halt hready htask hpr rfl hin)

end Step

end Engine

end PipelineGraph.Simulation
