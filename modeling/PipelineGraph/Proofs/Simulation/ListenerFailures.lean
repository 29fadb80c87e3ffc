import PipelineGraph.Proofs.Simulation.Brackets

/-!
# Listeners that fail

A listener may fail at any event. At the event of a visit that is a fault of the visit, and at the last
event of a run the run has ended all the same. At an event of the beginning the call ends while the machine
runs for a run that never comes: the session is stuck, and all later calls are rejected. A session gets
stuck in no other way, and it comes to rest whatever its listener does.
-/

namespace PipelineGraph.Simulation

open Relation Scheduler

/-- An event that comes before the first visit of a run. -/
def Event.IsOpening : Event → Prop
  | started _ => True
  | cycleDetected _ => True
  | _ => False

namespace Plan

variable {p : Plan} {number : Nat} {e : Event} {events : List Event}

/-- The listener fails at one of some events, one of the beginning of a run. -/
def FailsAtOpening (p : Plan) (number : Nat) (events : List Event) : Prop :=
  ∃ k e, events[k]? = some e ∧ e.IsOpening ∧ p.Fails (number + k)

/-- Without events there is none at which the listener fails. -/
@[simp] theorem failsAtOpening_nil : ¬ p.FailsAtOpening number [] := by
  rintro ⟨k, e, hk, -⟩
  cases hk

/-- The listener fails at the first event or at a later one. -/
@[simp] theorem failsAtOpening_cons :
    p.FailsAtOpening number (e :: events) ↔ e.IsOpening ∧ p.Fails number ∨ p.FailsAtOpening (number + 1) events := by
  constructor
  · rintro ⟨k, e', hk, hopen, hfails⟩
    cases k with
    | zero =>
      cases hk
      exact Or.inl ⟨hopen, hfails⟩
    | succ k =>
      refine Or.inr ⟨k, e', hk, hopen, ?_⟩
      rwa [Nat.add_right_comm, Nat.add_assoc]
  · rintro (⟨hopen, hfails⟩ | ⟨k, e', hk, hopen, hfails⟩)
    · exact ⟨0, e, rfl, hopen, hfails⟩
    · refine ⟨k + 1, e', hk, hopen, ?_⟩
      rwa [Nat.add_right_comm, Nat.add_assoc] at hfails

/-- The listener does not fail if there is none. -/
theorem FailsAtOpening.listens (h : p.FailsAtOpening number events) : p.listens = true := by
  obtain ⟨k, e, -, -, hfails⟩ := h
  exact hfails.1

/-- The events of visits and of the end of a run are none of the beginning. -/
theorem not_failsAtOpening (h : ∀ e ∈ events, ¬ e.IsOpening) :
    ¬ p.FailsAtOpening number events := by
  rintro ⟨k, e, hk, hopen, -⟩
  exact h e (List.mem_of_getElem? hk) hopen

end Plan

namespace Session

/-- The events of which a session has told its listener. -/
def told (s : Session) : List Event :=
  observe Entry.event? s.trace

/-- The listener of a session has failed at an event. -/
def Failed (p : Plan) (s : Session) (e : Event) : Prop :=
  ∃ n, s.told[n]? = some e ∧ p.Fails n

/-- A session tells its listener of some events. -/
structure Hears (events : List Event) (s s' : Session) : Prop where
  told : s'.told = s.told ++ events
  emitted : s'.emitted = s.emitted + events.length

/-- A session has counted the events, and it is stuck exactly if the listener has failed at one of the
beginning of a run. -/
structure CountsEvents (p : Plan) (s : Session) : Prop where
  counted : s.emitted = s.told.length
  stuck : s.IsStuck ↔ ∃ e, s.Failed p e ∧ e.IsOpening

variable {p : Plan} {s s' s₁ : Session} {events : List Event} {e : Event} {status : RunStatus}
  {entries : List (Nat × Entry)}

/-! ## What listeners hear -/

/-- All events are records. -/
theorem told_eq : s.told = observe Entry.event? s.records := by
  unfold told records observe
  rw [List.filterMap_filter]
  congr 1
  funext x
  cases x.2 <;> rfl

/-- What a session tells, its listener hears. -/
theorem Tells.hears (h : s.Tells status entries s') : s.Hears (observe Entry.event? entries) s' where
  told := by rw [told_eq, told_eq, h.records, observe_append]
  emitted := h.emitted

/-- A session with the same trace and count tells the same. -/
theorem Hears.congr (h : s.Hears events s₁) (htrace : s'.trace = s₁.trace) (hemitted : s'.emitted = s₁.emitted) :
    s.Hears events s' where
  told := by
    rw [← h.told]
    exact congrArg (observe Entry.event?) htrace
  emitted := hemitted.trans h.emitted

/-- A result is no event. -/
theorem Hears.note (h : s.Hears events s₁) (caller : Nat) (res : CallResult) :
    s.Hears events (s₁.note (.result caller res)) where
  told := by
    rw [← h.told]
    exact (observe_append _ _).trans (List.append_nil _)
  emitted := h.emitted

/-- Without an event a session stays as it is. -/
theorem hears_refl (s : Session) : s.Hears [] s :=
  ⟨(List.append_nil _).symm, rfl⟩

/-- The listener has failed at an event of the past or at one of which the session has told just now. -/
theorem Hears.failed_iff (h : s.Hears events s') (hcounted : s.emitted = s.told.length) :
    s'.Failed p e ↔ s.Failed p e ∨ ∃ k, events[k]? = some e ∧ p.Fails (s.emitted + k) := by
  rw [Failed, Failed, h.told]
  constructor
  · rintro ⟨n, hn, hfails⟩
    by_cases hlt : n < s.told.length
    · rw [List.getElem?_append_left hlt] at hn
      exact Or.inl ⟨n, hn, hfails⟩
    · rw [List.getElem?_append_right (Nat.le_of_not_lt hlt)] at hn
      refine Or.inr ⟨n - s.told.length, hn, ?_⟩
      rw [hcounted, Nat.add_sub_cancel' (Nat.le_of_not_lt hlt)]
      exact hfails
  · rintro (⟨n, hn, hfails⟩ | ⟨k, hk, hfails⟩)
    · obtain ⟨hlt, -⟩ := List.getElem?_eq_some_iff.1 hn
      exact ⟨n, (List.getElem?_append_left hlt).trans hn, hfails⟩
    · refine ⟨s.told.length + k, ?_, hcounted ▸ hfails⟩
      rw [List.getElem?_append_right (Nat.le_add_right _ _), Nat.add_sub_cancel_left, hk]

/-- A session goes on counting its events if it gets stuck exactly as the listener fails at the beginning of a run. -/
theorem CountsEvents.hears (hs : s.CountsEvents p) (h : s.Hears events s')
    (hstuck : s'.IsStuck ↔ s.IsStuck ∨ p.FailsAtOpening s.emitted events) : s'.CountsEvents p where
  counted := by rw [h.emitted, hs.counted, h.told, List.length_append]
  stuck := by
    rw [hstuck, hs.stuck]
    constructor
    · rintro (⟨e, hfailed, hopen⟩ | ⟨k, e, hk, hopen, hfails⟩)
      · exact ⟨e, (h.failed_iff hs.counted).2 (Or.inl hfailed), hopen⟩
      · exact ⟨e, (h.failed_iff hs.counted).2 (Or.inr ⟨k, hk, hfails⟩), hopen⟩
    · rintro ⟨e, hfailed, hopen⟩
      refine ((h.failed_iff hs.counted).1 hfailed).imp (fun hold => ⟨e, hold, hopen⟩) ?_
      rintro ⟨k, hk, hfails⟩
      exact ⟨k, e, hk, hopen, hfails⟩

end Session

open Session

variable {p : Plan} {s s' : Session} {job : Job Action} {rest : List (Job Action)} {id : FutureId}

/-- The first event of a run is that of its start. -/
theorem Plan.events_opening (now : Nat) (status : RunStatus) (snapshot : Snapshot) :
    observe Entry.event? (p.opening now status snapshot) = if p.listens then [.started snapshot.summary] else [] := by
  by_cases hlistens : p.listens = true <;> simp [Plan.opening, Entry.event?, hlistens]

/-- The last event of a run is that of its end. -/
theorem Plan.events_closing (now : Nat) (active : Option Text) (verdict : Verdict) :
    observe Entry.event? (p.closing now active verdict) = if p.listens then [.ended verdict] else [] := by
  by_cases hlistens : p.listens = true <;> cases active <;> simp [Plan.closing, Entry.event?, hlistens]

/-- The events of visits are not of the beginning of a run. -/
theorem Plan.not_isOpening_of_mem {pr : Program} {now : Nat} {active : Option Text} {e : Event}
    (he : e ∈ observe Entry.event? (p.entries now active pr)) : ¬ e.IsOpening := by
  cases pr <;> by_cases hlistens : p.listens = true <;>
    simp_all [Plan.entries, Plan.heard, Entry.event?, Event.IsOpening]

/-! ## Steps -/

/-- What is told in the turn of a task, the listener hears. -/
theorem Session.Tells.hears_awaken {status : RunStatus} {entries : List (Nat × Entry)} {s₁ : Session}
    (h : (s.awaken rest id).Tells status entries s₁) : s.Hears (observe Entry.event? entries) s₁ :=
  ⟨h.hears.told, h.hears.emitted⟩

/-- What is asked for from outside tells nothing. -/
theorem Engine.hears_act (a : Action) : s.Hears [] (Engine.act s a) := by
  by_cases ha : ∀ graph, a ≠ .simulate graph
  · exact (tells_act ha).hears
  · obtain ⟨graph, rfl⟩ := not_forall_not.1 ha
    exact (hears_refl s).congr rfl rfl

/-- In a regular step the listener fails at no event of the beginning of a run. -/
theorem RegularStep.hears (h : RegularStep p s s') : ∃ events, s.Hears events s' ∧
    ¬ p.FailsAtOpening s.emitted events := by
  have hnothing : ¬ p.FailsAtOpening s.emitted [] := Plan.not_failsAtOpening fun e he => by cases he
  -- Where there is no trace there is nothing to hear.
  have hallStopped : ∀ {s' : Session}, s'.trace = s.trace → s'.emitted = s.emitted →
      ∃ events, s.Hears events s' ∧ ¬ p.FailsAtOpening s.emitted events := fun htrace hemitted =>
    ⟨[], (hears_refl s).congr htrace hemitted, hnothing⟩
  have hvisit : ∀ {rest id pr} {s₁ s' : Session},
      (s.awaken rest id).Tells s.machine.status (p.entries s.scheduler.now s.machine.active pr) s₁ →
      s'.trace = s₁.trace → s'.emitted = s₁.emitted → ∃ events, s.Hears events s' ∧
        ¬ p.FailsAtOpening s.emitted events :=
    fun htells htrace hemitted => ⟨_, htells.hears_awaken.congr htrace hemitted,
      Plan.not_failsAtOpening fun _ => Plan.not_isOpening_of_mem⟩
  cases h with
  | advance | elapse | count | join | deep | halt | abandon => exact hallStopped rfl rfl
  | @act a rest =>
    have hears := Engine.hears_act (s := { s with scheduler := s.scheduler.drop rest }) a
    exact ⟨[], ⟨hears.told, hears.emitted⟩, hnothing⟩
  | goes _ _ _ _ _ htells => exact hvisit htells rfl rfl
  | unusable _ _ _ _ _ _ htells => exact hvisit htells rfl rfl
  | leaf _ _ _ _ htells => exact hvisit htells rfl rfl
  | fork _ _ _ _ htells => exact hvisit htells rfl rfl
  | reject _ _ _ htells => exact ⟨[], (htells.hears_awaken.note _ _).congr rfl rfl, hnothing⟩
  | answer _ _ _ _ hmiddle htells _ hheard =>
    refine ⟨_, (htells.hears_awaken.note _ _).congr rfl rfl, ?_⟩
    intro hopening
    have hlistens := hopening.listens
    obtain rfl | ⟨cycle, rfl, -⟩ := hmiddle
    · simp only [observe_append, Plan.events_opening, Plan.events_closing, hlistens, if_true] at hopening
      simp [hheard.1, Event.IsOpening] at hopening
    · have hsecond : ¬ p.Fails (s.emitted + 1) := hheard.2.resolve_left (by simp [Plan.heard, hlistens])
      simp only [observe_append, Plan.events_opening, Plan.events_closing, observe_heard, hlistens, if_true] at hopening
      simp [hheard.1, hsecond, Event.IsOpening, Entry.event?] at hopening
  | launch _ _ _ _ _ _ htells hheard =>
    refine ⟨_, htells.hears_awaken.congr rfl rfl, fun hopening => ?_⟩
    rw [Plan.events_opening, if_pos hopening.listens] at hopening
    simp [hheard] at hopening
  | conclude _ _ _ _ htells =>
    refine ⟨_, (htells.hears_awaken.note _ _).congr rfl rfl, fun hopening => ?_⟩
    rw [Plan.events_closing, if_pos hopening.listens] at hopening
    simp [Event.IsOpening] at hopening

/-- A step of a session that counts its events leaves it so. -/
theorem Session.CountsEvents.step (ha : s.CountsEvents p) (hs : s.IsWellFormed p) (h : Engine.step? p s = some s') :
    s'.CountsEvents p := by
  rcases hs.regularStep_or_failingStep h with hregularStep | hfailingStep
  · obtain ⟨events, hhears, hcalm⟩ := hregularStep.hears
    exact ha.hears hhears ((hregularStep.isWellFormed hs).2.trans (or_iff_left hcalm).symm)
  · have hs' := hfailingStep.isWellFormed hs
    cases hfailingStep with
    | visitFails hready htask hpr hactive hnot hcalm hfails htells =>
      have hrun := htells.run
      refine ha.hears (htells.hears_awaken.congr rfl rfl) ?_
      rw [or_iff_left (Plan.not_failsAtOpening fun _ => Plan.not_isOpening_of_mem), IsStuck, IsStuck]
      exact and_congr (by rw [htells.status]) (iff_of_eq (congrArg (· = none) hrun))
    | childrenTooDeep => exact ha.hears ((hears_refl s).congr rfl rfl) (or_iff_left Plan.failsAtOpening_nil).symm
    | openingFails hready htask hpr hidle hfails htells =>
      refine ha.hears ((htells.hears_awaken.note _ _).congr rfl rfl) (iff_of_true ⟨htells.status, ?_⟩ (Or.inr ?_))
      · exact htells.run.trans (hs.run_none hidle)
      · obtain ⟨rfl, hfails⟩ | ⟨⟨cycle, rfl⟩, hfails⟩ := hfails <;>
          simp [Plan.events_opening, hfails, hfails.1, Event.IsOpening, Entry.event?]

/-! ## Results -/

/-- A session that tells nothing keeps its machine. -/
theorem Session.Tells.machine_eq {s₁ : Session} (h : (s.awaken rest id).Tells s.machine.status [] s₁) :
    s₁.machine = s.machine := by
  have hhistory := h.history
  rw [observe_nil, List.append_nil] at hhistory
  have hparts : s₁.machine = ⟨s₁.machine.status, s₁.machine.active, s₁.machine.history⟩ := rfl
  rw [hparts, h.status, h.active, hhistory]
  rfl

/-- No node is shown as active behind the end of a run. -/
theorem Plan.active_closing (now : Nat) (active : Option Text) (verdict : Verdict) :
    (observe (Entry.change? .active) (p.closing now active verdict)).getLastD active = none := by
  cases active <;> simp [Plan.closing, Entry.change?]

/-- A run is over: no node is active, and another run may begin. -/
def Session.IsOver (s : Session) : Prop :=
  s.run = none ∧ s.machine.active = none ∧ ∃ verdict : Verdict, s.machine.status = verdict.status

/-- A step that gives a caller its result leaves the machine as it is, or the run is over. -/
theorem RegularStep.result (h : RegularStep p s s') (hs : s.IsWellFormed p) (hresult : s'.results ≠ s.results) :
    s'.machine = s.machine ∨ s'.IsOver := by
  cases h with
  | advance | elapse | count | join | deep | halt | abandon => exact absurd rfl hresult
  | @act a rest =>
    by_cases ha : ∀ graph, a ≠ .simulate graph
    · exact absurd (tells_act (s := { s with scheduler := s.scheduler.drop rest }) ha).results hresult
    · obtain ⟨graph, rfl⟩ := not_forall_not.1 ha
      exact absurd rfl hresult
  | goes _ _ _ _ _ htells => exact absurd htells.results hresult
  | unusable _ _ _ _ _ _ htells => exact absurd htells.results hresult
  | leaf _ _ _ _ htells => exact absurd htells.results hresult
  | fork _ _ _ _ htells => exact absurd htells.results hresult
  | reject _ _ _ htells => exact Or.inl htells.machine_eq
  | @answer _ _ _ _ snapshot _ _ verdict middle active _ _ _ hidle hmiddle htells hactive =>
    refine Or.inr ⟨htells.run.trans (hs.run_none hidle), htells.active.trans ?_, _, htells.status⟩
    have hopening : observe (Entry.change? .active) (p.opening s.scheduler.now s.machine.status snapshot) = [] := by
      simp [Plan.opening, Entry.change?]
    have hmiddle : observe (Entry.change? .active) middle = [] := by
      obtain rfl | ⟨cycle, rfl, -⟩ := hmiddle <;> simp [Entry.change?]
    rw [observe_append, observe_append, hopening, hmiddle, hactive]
    exact Plan.active_closing _ _ _
  | launch _ _ _ _ _ _ htells => exact absurd htells.results hresult
  | conclude _ _ _ _ htells =>
    exact Or.inr ⟨rfl, htells.active.trans (Plan.active_closing _ _ _), _, htells.status⟩

/-! ## Whole sessions -/

/-- The session of a timetable counts its events before its first step. -/
theorem Session.countsEvents_begin (table : Timetable) : table.begin.CountsEvents p where
  counted := rfl
  stuck := by
    refine iff_of_false (fun hcontra => by cases hcontra.1) ?_
    rintro ⟨e, ⟨n, hn, -⟩, -⟩
    cases hn

/-- Whatever comes next, a session counts its events. -/
theorem countsEvents_of_sessionSteps (h : ReflTransGen (SessionStep p) s s') (hs : s.IsWellFormed p)
    (ha : s.CountsEvents p) :
    s'.CountsEvents p := by
  induction h with
  | refl => exact ha
  | tail hbefore hsessionStep ih =>
    have hs₁ := isWellFormed_of_sessionSteps hbefore hs
    cases hsessionStep with
    | step h => exact ih.step hs₁ h
    | act a =>
      refine ih.hears (Engine.hears_act a) ((hs₁.act a).2.trans (or_iff_left ?_).symm)
      exact Plan.failsAtOpening_nil

/-- Whatever its listener does and whatever is asked of it at any moment, a session is stuck exactly if its
listener has failed at an event of the beginning of a run. Otherwise the machine runs only as long as a caller
waits for its run or is about to conclude it; a step that gives a caller its result leaves the machine as it
is or the run over, with no node active and ready for the next run; and the session comes to rest, at which
the machine does not run. -/
theorem sessions_stuck_iff (table : Timetable) (hs : ReflTransGen (SessionStep p) table.begin s) :
    (s.IsStuck ↔ ∃ e, s.Failed p e ∧ e.IsOpening) ∧
    (s.machine.status = .running → s.IsStuck ∨ ∃ K, s.scheduler.AwaitsRun K) ∧
    (∀ s', Engine.step? p s = some s' → s'.results ≠ s.results →
      s'.machine = s.machine ∨ s'.IsStuck ∨ s'.IsOver ∧ s'.machine.allows .running = true) ∧
    ∃ n, Engine.step? p (Engine.run p n s) = none ∧
      ((Engine.run p n s).machine.status = .running → (Engine.run p n s).IsStuck) := by
  have hbegin : table.begin.IsWellFormed p := isWellFormed_begin table
  have hwellFormed := isWellFormed_of_sessionSteps hs hbegin
  refine ⟨(countsEvents_of_sessionSteps hs hbegin (countsEvents_begin table)).stuck, fun hrunning => ?_,
    fun s' h hresult => ?_, ?_⟩
  · cases hrun : s.run with
    | none => exact Or.inl ⟨hrunning, hrun⟩
    | some R =>
      obtain ⟨-, K, hK, -⟩ := hwellFormed.wellFormed.awaited.root R hrun
      exact Or.inr ⟨K, hK⟩
  · rcases hwellFormed.regularStep_or_failingStep h with hregularStep | hfailingStep
    · refine (hregularStep.result hwellFormed hresult).imp_right fun hover => Or.inr ⟨hover, ?_⟩
      obtain ⟨-, -, verdict, hverdict⟩ := hover
      unfold Machine.allows
      rw [hverdict]
      cases verdict <;> rfl
    · cases hfailingStep with
      | visitFails _ _ _ _ _ _ _ htells => exact absurd htells.results hresult
      | childrenTooDeep => exact absurd rfl hresult
      | openingFails _ _ _ hidle _ htells =>
        exact Or.inr
          (Or.inl ⟨htells.status, htells.run.trans (hwellFormed.run_none hidle)⟩)
  · obtain ⟨hrest, hrun⟩ := hwellFormed.rests (isFinite_of_sessionSteps hs hbegin (isFinite_begin table))
      (Nat.le_refl _)
    exact ⟨_, hrest, fun hrunning => ⟨hrunning, hrun⟩⟩

/-- A listener that fails at the first event of all leaves the session stuck, for later simulations too. -/
example : (Engine.run ⟨.pause, .timer 5, 4, [(0, .fail)], true⟩ 9
    (Timetable.begin [(0, .simulate (.ok .demo)), (1, .simulate (.ok .demo))])).IsStuck :=
  ⟨by decide +kernel, by decide +kernel⟩

end PipelineGraph.Simulation
