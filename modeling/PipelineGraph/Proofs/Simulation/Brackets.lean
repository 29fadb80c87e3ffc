import PipelineGraph.Proofs.Simulation.StepBounds

/-!
# Brackets

What a session records of a run stands between the beginning of the run and its verdict. So the records
of a session are those of its runs, one after the other, and only the last of them may lack its verdict,
namely while the machine runs.
-/

namespace PipelineGraph.Simulation

open Relation Scheduler

/-- An entry that the visits of a run make: a change of the active node, or an event about a node. -/
def Entry.isOfVisit : Entry → Bool
  | state c => c.field = .active
  | event (.nodeActive _ _) => true
  | event (.nodeCleared _) => true
  | event (.fanOut _ _) => true
  | _ => false

/-- A visit does not change the status. -/
theorem Entry.change?_of_isOfVisit {e : Entry} (h : e.isOfVisit = true) : e.change? .status = none := by
  cases e with
  | state c =>
    have hfield : c.field = .active := of_decide_eq_true h
    simp [Entry.change?, hfield]
  | event | cancel | callerCancel | probe | result => rfl

/-- An entry that tells of an event is that event. -/
theorem Entry.eq_event_of_event?_eq_some {entry : Entry} {e : Event} (h : entry.event? = some e) :
    entry = .event e := by
  cases entry with
  | event =>
    cases h
    rfl
  | state | cancel | callerCancel | probe | result => cases h

namespace Plan

/-- What is recorded of a run that is under way. -/
def IsOpen (p : Plan) (records : List (Nat × Entry)) : Prop :=
  ∃ start before snapshot entries, before ≠ .running ∧
    records = p.opening start before snapshot ++ entries ∧ ∀ x ∈ entries, x.2.isOfVisit = true

/-- What is recorded of a run that has come to its end with a verdict: its beginning, then what its visits
have made or the cycle for which it has failed, then its end. -/
def IsBracket (p : Plan) (verdict : Verdict) (records : List (Nat × Entry)) : Prop :=
  ∃ start before snapshot middle stop active, before ≠ .running ∧
    records = p.opening start before snapshot ++ (middle ++ p.closing stop active verdict) ∧
    ((∀ x ∈ middle, x.2.isOfVisit = true) ∨
      ∃ cycle, middle = p.heard start (.cycleDetected cycle) ∧ verdict = .failed "cycle")

/-- What may be recorded while the machine goes from one status to another. -/
inductive Passage (p : Plan) : RunStatus → List (Nat × Entry) → RunStatus → Prop
  | nothing {status} : Passage p status [] status
  | visit {entries} (h : ∀ x ∈ entries, x.2.isOfVisit = true) : Passage p .running entries .running
  | opening {now status snapshot} (h : status ≠ .running) :
    Passage p status (p.opening now status snapshot) .running
  | closing {now active verdict} : Passage p .running (p.closing now active verdict) verdict.status
  | bracket {status records verdict} (h : status ≠ .running) (hbracket : p.IsBracket verdict records) :
    Passage p status records verdict.status

end Plan

/-- A run that has come to its end, as it is recorded. -/
structure PastRun (p : Plan) where
  verdict : Verdict
  records : List (Nat × Entry)
  bracket : p.IsBracket verdict records

namespace PastRun

variable {p : Plan} (run : PastRun p)

/-- The status goes to running, then to that of the verdict, and does not change otherwise. -/
theorem statuses : observe (Entry.change? .status) run.records =
    [some RunStatus.running.name, some run.verdict.status.name] := by
  obtain ⟨verdict, records, start, before, snapshot, middle, stop, active, -, rfl, hmiddle⟩ := run
  have hnone : observe (Entry.change? .status) middle = [] := by
    rcases hmiddle with hvisits | ⟨cycle, rfl, -⟩
    · refine List.filterMap_eq_nil_iff.2 fun x hx => ?_
      exact Entry.change?_of_isOfVisit (hvisits x hx)
    · simp [Entry.change?]
  cases active <;> simp [Plan.opening, Plan.closing, hnone, Entry.change?]

/-- The first event of a run tells that it has started and the last one its verdict. Between them there are
events about nodes, or the one of the cycle for which the run has failed. -/
theorem events (hlistens : p.listens = true) : ∃ summary middle,
    observe Entry.event? run.records = .started summary :: (middle ++ [.ended run.verdict]) ∧
      ((∀ e ∈ middle, (Entry.event e).isOfVisit = true) ∨
        ∃ cycle, middle = [.cycleDetected cycle] ∧ run.verdict = .failed "cycle") := by
  obtain ⟨verdict, records, start, before, snapshot, middle, stop, active, -, rfl, hmiddle⟩ := run
  refine ⟨snapshot.summary, observe Entry.event? middle, ?_, hmiddle.imp (fun hvisits e he => ?_) ?_⟩
  · cases active <;> simp [Plan.opening, Plan.closing, Entry.event?, hlistens]
  · obtain ⟨x, hx, hxe⟩ := List.mem_filterMap.1 he
    exact Entry.eq_event_of_event?_eq_some hxe ▸ hvisits x hx
  · rintro ⟨cycle, rfl, hverdict⟩
    exact ⟨cycle, by simp [Entry.event?, hlistens], hverdict⟩

end PastRun

/-- The status of the machine after some runs. -/
def statusAfter {p : Plan} (runs : List (PastRun p)) : RunStatus :=
  (runs.getLast?.map fun run => run.verdict.status).getD .idle

/-- The status after runs is that of the last verdict. -/
@[simp] theorem statusAfter_append {p : Plan} (runs : List (PastRun p)) (run : PastRun p) :
    statusAfter (runs ++ [run]) = run.verdict.status := by
  simp [statusAfter]

/-- The status after some runs is not that of a run under way. -/
theorem statusAfter_ne_running {p : Plan} (runs : List (PastRun p)) : statusAfter runs ≠ .running := by
  unfold statusAfter
  cases runs.getLast? with
  | none => exact fun hcontra => by cases hcontra
  | some run => exact run.verdict.status_ne_running

variable {p : Plan} {s s' : Session} {runs : List (PastRun p)} {current : List (Nat × Entry)}

/-- A turn of a visit records what visits do. -/
theorem Plan.isOfVisit_of_mem_entries {pr : Program} {now : Nat} {active : Option Text} {x : Nat × Entry}
    (hx : x ∈ p.entries now active pr) : x.2.isOfVisit = true := by
  cases pr with
  | enter v | leave v =>
    rcases List.mem_cons.1 hx with rfl | hx
    · rfl
    · rw [Plan.eq_of_mem_heard hx]
      rfl
  | fanOut v =>
    rw [Plan.eq_of_mem_heard hx]
    rfl
  | join | call | conclude => cases hx

namespace Session

/-- The records of a session are those of the runs that have ended, one after the other, and those of the
run under way if the machine runs. -/
structure RunRecords (runs : List (PastRun p)) (current : List (Nat × Entry)) (s : Session) : Prop where
  records : s.records = runs.flatMap PastRun.records ++ current
  history : s.machine.history = observe Entry.state? s.records
  status : (s.machine.status = .running ∧ p.IsOpen current) ∨ (s.machine.status = statusAfter runs ∧ current = [])

/-- The session of a timetable has recorded nothing before its first step. -/
theorem runRecords_begin (table : Timetable) : table.begin.RunRecords ([] : List (PastRun p)) [] where
  records := rfl
  history := rfl
  status := Or.inr ⟨rfl, rfl⟩

/-- The records of a session go on as the machine does. -/
theorem RunRecords.passage {entries : List (Nat × Entry)} (hs : s.RunRecords runs current)
    (h : p.Passage s.machine.status entries s'.machine.status) (hrecords : s'.records = s.records ++ entries)
    (hhistory : s'.machine.history = s.machine.history ++ observe Entry.state? entries) :
    ∃ (runs' : List (PastRun p)) (current' : _), s'.RunRecords runs' current' := by
  have hhistory' : s'.machine.history = observe Entry.state? s'.records := by
    rw [hhistory, hs.history, hrecords, observe_append]
  rw [hs.records] at hrecords
  have hstatus := hs.status
  generalize s.machine.status = before at h hstatus
  generalize hafter : s'.machine.status = after at h
  -- While the machine does not run all records are those of past runs.
  have hpast : before ≠ .running → current = [] := fun hne => (hstatus.resolve_left fun hopen => hne hopen.1).2
  have hopen : before = .running → p.IsOpen current := fun heq =>
    (hstatus.resolve_right fun hover => statusAfter_ne_running runs (hover.1.symm.trans heq)).2
  have hover : ∀ run : PastRun p, s'.records = runs.flatMap PastRun.records ++ run.records →
      s'.machine.status = run.verdict.status →
      ∃ (runs' : List (PastRun p)) (current' : _), s'.RunRecords runs' current' := fun run hrun hend => by
    refine ⟨runs ++ [run], [], ?_, hhistory', Or.inr ⟨hend.trans (statusAfter_append runs run).symm, rfl⟩⟩
    rw [hrun, List.flatMap_append, List.flatMap_singleton, List.append_nil]
  cases h with
  | nothing => exact ⟨runs, current, hrecords.trans (List.append_nil _), hhistory', hafter ▸ hstatus⟩
  | visit hvisit =>
    obtain ⟨start, before, snapshot, entries', hbefore, rfl, hentries⟩ := hopen rfl
    refine ⟨runs, _, hrecords.trans (List.append_assoc _ _ _), hhistory', Or.inl ⟨hafter, ?_⟩⟩
    refine ⟨start, before, snapshot, entries' ++ entries, hbefore, List.append_assoc _ _ _, fun x hx => ?_⟩
    exact (List.mem_append.1 hx).elim (hentries x) (hvisit x)
  | opening hne =>
    rw [hpast hne, List.append_nil] at hrecords
    refine ⟨runs, _, hrecords, hhistory', Or.inl ⟨hafter, _, _, _, [], hne, (List.append_nil _).symm, fun x hx => ?_⟩⟩
    cases hx
  | @closing now active verdict =>
    obtain ⟨start, before, snapshot, entries', hbefore, rfl, hentries⟩ := hopen rfl
    refine hover ⟨verdict, _, start, before, snapshot, entries', now, active, hbefore, rfl, Or.inl hentries⟩ ?_ hafter
    rw [hrecords, List.append_assoc, List.append_assoc]
  | bracket hne hbracket =>
    rw [hpast hne, List.append_nil] at hrecords
    exact hover ⟨_, _, hbracket⟩ hrecords hafter

end Session

open Session

/-- What is asked for from outside records nothing. -/
theorem Engine.passage_act (a : Action) : ∃ entries,
    p.Passage s.machine.status entries (act s a).machine.status ∧ (act s a).records = s.records ++ entries ∧
      (act s a).machine.history = s.machine.history ++ observe Entry.state? entries := by
  by_cases ha : ∀ graph, a ≠ .simulate graph
  · have htells := tells_act (s := s) ha
    exact ⟨[], htells.status.symm ▸ .nothing, htells.records, htells.history⟩
  · obtain ⟨graph, rfl⟩ := not_forall_not.1 ha
    exact ⟨[], .nothing, (List.append_nil _).symm, (List.append_nil _).symm⟩

/-- What a regular step records goes with what becomes of the machine. -/
theorem RegularStep.passage (h : RegularStep p s s') (hs : s.IsRegular p) : ∃ entries,
    p.Passage s.machine.status entries s'.machine.status ∧ s'.records = s.records ++ entries ∧
      s'.machine.history = s.machine.history ++ observe Entry.state? entries := by
  -- Nothing is recorded where the trace and the machine stay.
  have hnothing : ∀ {s' : Session}, s'.records = s.records → s'.machine = s.machine → ∃ entries,
      p.Passage s.machine.status entries s'.machine.status ∧ s'.records = s.records ++ entries ∧
        s'.machine.history = s.machine.history ++ observe Entry.state? entries := by
    intro s' hrecords hmachine
    refine ⟨[], ?_, hrecords.trans (List.append_nil _).symm, (congrArg _ hmachine).trans (List.append_nil _).symm⟩
    rw [hmachine]
    exact .nothing
  -- A visit at work is one of the run under way.
  have hvisit : ∀ {job rest id pr} {s₁ s' : Session}, s.scheduler.ready = job :: rest → job.task? = some id →
      s.scheduler.program? id = some pr → pr.isActive = true ∧ ¬ pr.IsDeep p →
      s.scheduler.interrupt? id job = none →
      (s.awaken rest id).Tells s.machine.status (p.entries s.scheduler.now s.machine.active pr) s₁ →
      s'.records = s₁.records → s'.machine = s₁.machine → ∃ entries,
      p.Passage s.machine.status entries s'.machine.status ∧ s'.records = s.records ++ entries ∧
        s'.machine.history = s.machine.history ++ observe Entry.state? entries := by
    intro job rest id pr s₁ s' hready htask hpr hwork hcalm htells hrecords hmachine
    obtain ⟨R, -, -, hrun, -⟩ := hs.regular.at_work hready htask hpr hwork.1 hcalm hwork.2
    have hrunning : s.machine.status = .running := hs.running.2 (by rw [hrun]; rfl)
    refine ⟨_, ?_, hrecords.trans htells.records, (congrArg _ hmachine).trans htells.history⟩
    rw [hmachine, htells.status, hrunning]
    exact .visit fun x hx => Plan.isOfVisit_of_mem_entries hx
  -- The result of a caller is no record.
  have hnote : ∀ {caller res} {s₁ : Session}, (s₁.note (.result caller res)).records = s₁.records :=
    fun {caller res s₁} =>
    (records_note _).trans (List.append_nil _)
  cases h with
  | advance | elapse | count | join | deep | halt | abandon => exact hnothing rfl rfl
  | @act a rest => exact Engine.passage_act (s := { s with scheduler := s.scheduler.drop rest }) a
  | goes hready htask hpr hcalm hnext htells => exact hvisit hready htask hpr hnext.at_work hcalm htells rfl rfl
  | unusable hready htask hpr hcalm hnext _ htells => exact hvisit hready htask hpr hnext.at_work hcalm htells rfl rfl
  | leaf hready htask hpr hcalm htells => exact hvisit hready htask hpr ⟨rfl, fun hdeep => hdeep⟩ hcalm htells rfl rfl
  | fork hready htask hpr hcalm htells => exact hvisit hready htask hpr ⟨rfl, fun hdeep => hdeep⟩ hcalm htells rfl rfl
  | reject _ _ _ htells =>
    have hstatus : _ = s.machine.status := htells.status
    exact ⟨[], hstatus ▸ .nothing, hnote.trans htells.records, htells.history⟩
  | @answer _ _ _ _ snapshot s₁ _ verdict middle active _ _ _ hidle hmiddle htells =>
    have hstatus : s₁.machine.status = verdict.status := htells.status
    have hbracket : p.IsBracket verdict (p.opening s.scheduler.now s.machine.status snapshot ++
        (middle ++ p.closing s.scheduler.now active verdict)) := by
      refine ⟨_, _, snapshot, middle, _, active, hidle, rfl, hmiddle.imp_left fun hnone x hx => ?_⟩
      rw [hnone] at hx
      cases hx
    exact ⟨_, hstatus ▸ .bracket hidle hbracket, hnote.trans htells.records, htells.history⟩
  | launch _ _ _ hidle _ _ htells =>
    have hstatus : _ = RunStatus.running := htells.status
    exact ⟨_, hstatus ▸ .opening hidle, htells.records, htells.history⟩
  | conclude _ _ _ hrunning htells =>
    have hstatus := htells.status
    exact ⟨_, hrunning ▸ hstatus ▸ .closing, hnote.trans htells.records, htells.history⟩

/-! ## Whole sessions -/

section Sessions

variable (hhooks : ∀ n, p.hooks.lookup n ≠ some .fail)

include hhooks

/-- Whatever comes to a session, its records are those of runs. -/
theorem runRecords_of_sessionSteps (h : ReflTransGen (SessionStep p) s s') (hs : s.IsRegular p)
    (hc : s.RunRecords runs current) :
    ∃ (runs' : List (PastRun p)) (current' : _), s'.RunRecords runs' current' := by
  induction h with
  | refl => exact ⟨runs, current, hc⟩
  | @tail s₁ s₂ hbefore hsessionStep ih =>
    obtain ⟨runs', current', hc'⟩ := ih
    have hs₁ := isRegular_of_sessionSteps hhooks hbefore hs
    have hpassage : ∃ entries, p.Passage s₁.machine.status entries s₂.machine.status ∧
        s₂.records = s₁.records ++ entries ∧
        s₂.machine.history = s₁.machine.history ++ observe Entry.state? entries := by
      cases hsessionStep with
      | step h => exact (hs₁.regularStep hhooks h).passage hs₁
      | act a => exact Engine.passage_act a
    obtain ⟨entries, hstatus, hrecords, hhistory⟩ := hpassage
    exact hc'.passage hstatus hrecords hhistory

/-- The records of a session with a shallow plan, whatever comes to it at any moment, are those of its runs, one
after the other, and only the run under way lacks its end. A run goes to running and then to the status of its
verdict; its events begin with its start and end with its verdict, and those between are about nodes
or the one of the cycle for which it fails. Once a run is no longer under way its branches change
nothing any more. A session that is left to itself comes to rest, and all its runs have ended then. -/
theorem sessions_bracketed (hp : p.IsShallow) (table : Timetable) (hs : ReflTransGen (SessionStep p) table.begin s) :
    (∃ (runs : List (PastRun p)) (current : _), s.RunRecords runs current) ∧
    (∀ run : PastRun p,
      observe (Entry.change? .status) run.records = [some RunStatus.running.name, some run.verdict.status.name] ∧
      (p.listens = true → ∃ summary middle,
        observe Entry.event? run.records = .started summary :: (middle ++ [.ended run.verdict]) ∧
          ((∀ e ∈ middle, (Entry.event e).isOfVisit = true) ∨
            ∃ cycle, middle = [.cycleDetected cycle] ∧ run.verdict = .failed "cycle"))) ∧
    (s.machine.status = .running ↔ s.run.isSome = true) ∧
    (∀ {R t s' s''}, s.run = some R → ReflTransGen (SessionStep p) s s' → s'.run ≠ some R →
      ReflTransGen s'.scheduler.Branched R t → s'.turn? = some t → Engine.step? p s' = some s'' →
      s''.trace = s'.trace ∧ s''.machine = s'.machine) ∧
    ∃ n, Engine.step? p (Engine.run p n s) = none ∧
      ∃ runs : List (PastRun p), (Engine.run p n s).RunRecords runs [] := by
  have hbegin : table.begin.IsRegular p := isRegular_begin table hp
  have hregular := isRegular_of_sessionSteps hhooks hs hbegin
  have hrunRecords : ∀ {s'}, ReflTransGen (SessionStep p) table.begin s' →
      ∃ (runs : List (PastRun p)) (current : _), s'.RunRecords runs current := fun h =>
    runRecords_of_sessionSteps hhooks h hbegin (runRecords_begin table)
  refine ⟨hrunRecords hs, fun run => ⟨run.statuses, run.events⟩, hregular.running, fun hR hlater hover ht hturn hstep =>
    allStopped_of_sessionSteps hhooks hlater hregular hR hover ht hturn hstep, ?_⟩
  have hfinite : ∀ t v, s.scheduler.visit? t = some v → v.IsFinite p :=
    isFinite_of_sessionSteps hs hbegin.isWellFormed (isFinite_begin table)
  obtain ⟨hrest, hstatus⟩ := hregular.rests hhooks hfinite (Nat.le_refl _)
  refine ⟨_, hrest, ?_⟩
  obtain ⟨runs, current, hc⟩ := hrunRecords (hs.trans (sessionSteps_run s.scheduler.stepBound))
  obtain ⟨-, rfl⟩ := hc.status.resolve_left fun hopen => hstatus hopen.1
  exact ⟨runs, hc⟩

end Sessions

-- The listener asks for a cancellation as the second node of the demo graph becomes active.
example : observe (Entry.change? .status) (Engine.run ⟨.pause, .timer 5, 4, [(4, .cancel)], true⟩ 40
    (Timetable.begin [(0, .simulate (.ok .demo))])).trace =
      [some RunStatus.running.name, some RunStatus.cancelled.name] := by
  decide +kernel

end PipelineGraph.Simulation
