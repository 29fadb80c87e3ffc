import PipelineGraph.Proofs.Simulation.NewRuns
import PipelineGraph.Proofs.Simulation.Verdicts

/-!
# Events that are heard

A listener may ask for a cancellation when it hears of an event. What a session records, the changes of
the machine and the events, is not touched by that; in the scheduler some requests to cancel are made,
for the run under way or for callers. The listener may fail, too, and its request may go too deep.
-/

namespace PipelineGraph.Simulation

/-- The listener fails at the event of a number. -/
def Plan.Fails (p : Plan) (n : Nat) : Prop :=
  p.listens = true ∧ p.hooks.lookup n = some .fail

namespace Entry

/-- The change of the machine that an entry records. -/
def state? : Entry → Option Change
  | state c => some c
  | _ => none

/-- Whether an entry records a change of the machine or an event. -/
def isRecord : Entry → Bool
  | state _ => true
  | event _ => true
  | _ => false

end Entry

namespace Session

/-- What a session has recorded: the changes of its machine and the events, with their times. -/
def records (s : Session) : List (Nat × Entry) :=
  s.trace.filter fun x => x.2.isRecord

/-- The results that a session has given to its callers. -/
def results (s : Session) : List (Nat × CallResult) :=
  observe Entry.result? s.trace

/-- A listener hears of an event and reacts to it, by requests to cancel if at all. -/
def hear (p : Plan) (e : Event) (s : Session) : Session :=
  match if p.listens then p.hooks.lookup s.emitted else none with
  | some .cancel => (s.tell p e).noteCancelRun.2
  | some .cancelCaller => ((s.tell p e).noteCancelCaller s.callers.getLast?).2
  | _ => s.tell p e

/-- The fault with which a listener interrupts an act as it hears of an event: it fails itself, or its request
to cancel goes too deep. -/
def fault? (p : Plan) (e : Event) (s : Session) : Option Fault :=
  match if p.listens then p.hooks.lookup s.emitted else none with
  | some .cancel => if (s.tell p e).noteCancelRun.1 = .tooDeep then some .tooDeep else none
  | some .cancelCaller =>
    if ((s.tell p e).noteCancelCaller s.callers.getLast?).1 = .tooDeep then some .tooDeep else none
  | some .fail => some .listener
  | none => none

/-- A request to cancel the run or a caller goes too deep. -/
def GoesTooDeep (s : Session) : Prop :=
  ∃ x, (s.run = some x ∨ x ∈ s.callers) ∧ (s.scheduler.cancel x).1 = .tooDeep

/-- The run and all callers have ended or wait for nothing, so requests to cancel go no further. -/
def IsUnlinked (s : Session) : Prop :=
  ∀ x, (s.run = some x ∨ x ∈ s.callers) → s.scheduler.ending? x ≠ none ∨
    (∃ pr, s.scheduler.program? x = some pr) ∧ s.scheduler.waiter? x = none

/-- What the beginning of a run does to a session before the event of its start. -/
def prepare (snapshot : Snapshot) (s : Session) : Session :=
  let s := s.log snapshot.danglingReports
  let c : Change := ⟨.status, some s.machine.status.name, some RunStatus.running.name⟩
  let s := s.change c { s.machine with status := .running, history := s.machine.history ++ [c] }
  { s with cancelRequested := false }

/-- What the beginning of a run does to a session whose listener may react, up to the event of its start. -/
def commence (p : Plan) (snapshot : Snapshot) (s : Session) : Session :=
  (s.prepare snapshot).hear p (.started snapshot.summary)

/-- A session records something and comes to a status, without a result for a caller; meanwhile requests to
cancel may be made for the run or for callers. Where one for the run is granted the run has not ended. -/
structure Tells (status : RunStatus) (entries : List (Nat × Entry)) (s s' : Session) : Prop where
  records : s'.records = s.records ++ entries
  results : s'.results = s.results
  history : s'.machine.history = s.machine.history ++ observe Entry.state? entries
  status : s'.machine.status = status
  active : s'.machine.active = (observe (Entry.change? .active) entries).getLastD s.machine.active
  run : s'.run = s.run
  callers : s'.callers = s.callers
  emitted : s'.emitted = s.emitted + (observe Entry.event? entries).length
  requested : s.run.isSome = true → s.cancelRequested = true → s'.cancelRequested = true
  granted : s'.cancelRequested = true → s.cancelRequested = true ∨ ∃ R xs, s.run = some R ∧
    s.scheduler.ending? R = none ∧ R ∈ xs ∧ s'.scheduler = s.scheduler.cancelAll xs
  asks : ∃ xs, (∀ x ∈ xs, s.run = some x ∨ x ∈ s.callers) ∧ s'.scheduler = s.scheduler.cancelAll xs

variable {p : Plan} {s s' s'' : Session} {e : Event} {status status' : RunStatus}
  {entries entries' : List (Nat × Entry)}

/-- What is noted is recorded if it is a record. -/
theorem records_note (entry : Entry) : (s.note entry).records =
    s.records ++ if entry.isRecord then [(s.scheduler.now, entry)] else [] := by
  simp only [records, note, List.filter_append]
  cases h : entry.isRecord <;> simp [h]

/-- What is noted is a result if it is one. -/
theorem results_note (entry : Entry) : (s.note entry).results = s.results ++ entry.result?.toList := by
  simp [results, note]

/-- The clock stands while requests to cancel are made. -/
theorem Tells.now (h : s.Tells status entries s') : s'.scheduler.now = s.scheduler.now := by
  obtain ⟨xs, -, hxs⟩ := h.asks
  rw [hxs, (Scheduler.timers_cancelAll xs).2]

/-- Requests to cancel keep futures, jobs and what tasks wait for. -/
theorem Tells.keeps (h : s.Tells status entries s') : s.scheduler.Keeps s'.scheduler := by
  obtain ⟨xs, -, hxs⟩ := h.asks
  exact hxs ▸ Scheduler.keeps_cancelAll xs

/-- What is told one after the other is told together. -/
theorem Tells.trans (h : s.Tells status entries s') (h' : s'.Tells status' entries' s'') :
    s.Tells status' (entries ++ entries') s'' where
  records := by rw [h'.records, h.records, List.append_assoc]
  results := h'.results.trans h.results
  history := by rw [h'.history, h.history, observe_append, List.append_assoc]
  status := h'.status
  active := by
    rw [h'.active, h.active, observe_append]
    simp [List.getLastD_eq_getLast?, List.getLast?_append]
  run := h'.run.trans h.run
  callers := h'.callers.trans h.callers
  emitted := by rw [h'.emitted, h.emitted, observe_append, List.length_append, Nat.add_assoc]
  requested hrun hrequested := h'.requested (h.run ▸ hrun) (h.requested hrun hrequested)
  granted hgranted := by
    obtain ⟨xs, -, hs'⟩ := h.asks
    obtain ⟨ys, -, hs''⟩ := h'.asks
    rcases h'.granted hgranted with hfirst | ⟨R, zs, hR, hlive, hmem, hzs⟩
    · refine (h.granted hfirst).imp_right fun ⟨R, zs, hR, hlive, hmem, hzs⟩ => ?_
      refine ⟨R, zs ++ ys, hR, hlive, List.mem_append_left _ hmem, ?_⟩
      rw [hs'', hzs, Scheduler.cancelAll_append]
    · refine Or.inr ⟨R, xs ++ zs, h.run ▸ hR, ?_, List.mem_append_right _ hmem, ?_⟩
      · -- What had ended before would have ended still.
        cases he : s.scheduler.ending? R with
        | none => rfl
        | some e => exact ((Scheduler.asks_cancelAll xs).ending_stays he).symm.trans (hs' ▸ hlive)
      · rw [hzs, hs', Scheduler.cancelAll_append]
  asks := by
    obtain ⟨xs, hxs, hs'⟩ := h.asks
    obtain ⟨ys, hys, hs''⟩ := h'.asks
    refine ⟨xs ++ ys, fun x hx => (List.mem_append.1 hx).elim (hxs x) fun hx => ?_, ?_⟩
    · rw [← h.run, ← h.callers]
      exact hys x hx
    · rw [hs'', hs', Scheduler.cancelAll_append]

/-- A session that stays as it is tells nothing. -/
theorem tells_refl (s : Session) : s.Tells s.machine.status [] s :=
  ⟨(List.append_nil _).symm, rfl, (List.append_nil _).symm, rfl, rfl, rfl, rfl, rfl, fun _ h => h, Or.inl, [],
    fun _ hx => (by cases hx), rfl⟩

/-- The log tells nothing. -/
theorem tells_log (records : List LogRecord) : s.Tells s.machine.status [] (s.log records) :=
  { tells_refl s with }

/-- What is noted besides changes, events and results tells nothing. -/
theorem tells_note (entry : Entry) (hrecord : entry.isRecord = false) (hresult : entry.result? = none) :
    s.Tells s.machine.status [] (s.note entry) :=
  { tells_refl s with
    records := by simp [records_note, hrecord]
    results := by simp [results_note, hresult] }

/-- A request to cancel the run or a caller tells nothing. -/
theorem tells_ask {x : FutureId} (hx : s.run = some x ∨ x ∈ s.callers) {scheduler : Scheduler Program Action}
    (hscheduler : scheduler = s.scheduler.cancelAll [x]) :
    s.Tells s.machine.status [] { s with scheduler := scheduler } :=
  { tells_refl s with
    granted := Or.inl
    asks := ⟨[x], fun _ hy => List.mem_singleton.1 hy ▸ hx, hscheduler⟩ }

/-- A change of the machine is recorded. -/
theorem tells_change (c : Change) (m : Machine) (hhistory : m.history = s.machine.history ++ [c])
    (hactive : m.active = if c.field = .active then c.new else s.machine.active) :
    s.Tells m.status [(s.scheduler.now, .state c)] (s.change c m) where
  records := records_note (s := ({ s with machine := m } : Session).log [c.report]) (.state c)
  results := (results_note (s := ({ s with machine := m } : Session).log [c.report]) (.state c)).trans
    (List.append_nil _)
  history := hhistory
  status := rfl
  active := by
    change m.active = _
    rw [hactive]
    by_cases hfield : c.field = .active <;> simp [Entry.change?, hfield]
  run := rfl
  callers := rfl
  emitted := rfl
  requested _ h := h
  granted := Or.inl
  asks := ⟨[], fun _ hx => (by cases hx), rfl⟩

/-- A change of the active node is recorded. -/
theorem tells_setActive (id : Option Text) : s.Tells s.machine.status
    [(s.scheduler.now, .state ⟨.active, s.machine.active, id⟩)] (s.setActive id) :=
  tells_change (s := s) (s.machine.setActive id).1 (s.machine.setActive id).2 rfl rfl

/-- An event of which a listener hears is recorded. -/
theorem tells_tell : s.Tells s.machine.status (p.heard s.scheduler.now e) (s.tell p e) where
  records := by
    rw [records, trace_tell, List.filter_append, records]
    congr 1
    unfold Plan.heard
    split <;> rfl
  results := by simp [results, trace_tell, Entry.result?]
  history := by simp [Entry.state?]
  status := by rw [machine_tell]
  active := by simp [Entry.change?]
  run := run_tell e
  callers := by
    unfold tell
    split <;> rfl
  emitted := by
    unfold tell
    by_cases hlistens : p.listens = true <;> simp [hlistens, Entry.event?]
  requested _ h := by rw [cancelRequested_tell, h]
  granted h := Or.inl (by rwa [cancelRequested_tell] at h)
  asks := ⟨[], fun _ hx => (by cases hx), scheduler_tell⟩

/-- A request to cancel the run is no record. -/
theorem tells_cancelRun : s.Tells s.machine.status [] s.cancelRun.2 := by
  unfold cancelRun
  cases hrun : s.run with
  | none => exact tells_refl s
  | some x =>
    by_cases hended : s.scheduler.hasEnded x = true
    · simp only [hended, if_true]
      exact tells_refl s
    · have hask : s.Tells s.machine.status [] { s.log [⟨.info, "[Engine] Cancellation requested"⟩] with
          cancelRequested := true, scheduler := (s.scheduler.cancel x).2 } :=
        { tells_ask (Or.inl hrun) rfl with
          requested := fun _ _ => rfl
          granted := fun _ => Or.inr ⟨x, [x], hrun, by simpa [Scheduler.hasEnded] using hended,
            List.mem_singleton.2 rfl, rfl⟩ }
      simp only [hended]
      exact hask

/-- The answer to a request to cancel the run is no record either. -/
theorem tells_noteCancelRun : s.Tells s.machine.status [] s.noteCancelRun.2 := by
  have hask := tells_cancelRun (s := s)
  unfold noteCancelRun
  generalize s.cancelRun = answer at hask
  obtain ⟨reply, s'⟩ := answer
  have htold := hask.trans (tells_note (.cancel reply.isTaken) rfl rfl)
  rw [hask.status] at htold
  cases reply with
  | tooDeep => exact hask
  | refused | taken => exact htold

/-- A request to cancel a caller is no record. -/
theorem tells_noteCancelCaller {task : Option FutureId} (htask : ∀ x, task = some x → x ∈ s.callers) :
    s.Tells s.machine.status [] (s.noteCancelCaller task).2 := by
  cases task with
  | none => exact tells_note _ rfl rfl
  | some x =>
    have hask : s.Tells s.machine.status [] { s with scheduler := (s.scheduler.cancel x).2 } :=
      tells_ask (Or.inr (htask x rfl)) rfl
    unfold noteCancelCaller
    dsimp only
    generalize s.scheduler.cancel x = answer at hask
    obtain ⟨reply, scheduler⟩ := answer
    have htold := hask.trans (tells_note (.callerCancel (some reply.isTaken)) rfl rfl)
    cases reply with
    | tooDeep => exact hask
    | refused | taken => exact htold

/-- A request to cancel the run leaves it requested. -/
theorem cancelRequested_noteCancelRun (h : s.cancelRequested = true) : s.noteCancelRun.2.cancelRequested = true := by
  have hasked : s.cancelRun.2.cancelRequested = true := by
    unfold cancelRun
    cases s.run with
    | none => exact h
    | some x =>
      by_cases hended : s.scheduler.hasEnded x = true
      · simp only [hended, if_true]
        exact h
      · simp only [hended]
        rfl
  unfold noteCancelRun
  generalize s.cancelRun = answer at hasked
  obtain ⟨reply, s'⟩ := answer
  cases reply <;> exact hasked

/-- A request to cancel a caller asks for no cancellation of the run. -/
theorem cancelRequested_noteCancelCaller (task : Option FutureId) :
    (s.noteCancelCaller task).2.cancelRequested = s.cancelRequested := by
  unfold noteCancelCaller
  cases task with
  | none => rfl
  | some x =>
    dsimp only
    generalize s.scheduler.cancel x = answer
    obtain ⟨reply, scheduler⟩ := answer
    cases reply <;> rfl

/-- A request to cancel the run that is under way stays, however the listener reacts. -/
theorem cancelRequested_hear (h : s.cancelRequested = true) : (s.hear p e).cancelRequested = true := by
  have htell : (s.tell p e).cancelRequested = true := by rw [cancelRequested_tell, h]
  unfold hear
  split
  · exact cancelRequested_noteCancelRun htell
  · exact (cancelRequested_noteCancelCaller _).trans htell
  · exact htell

/-- An event is recorded, however the listener reacts to it. -/
theorem tells_hear : s.Tells s.machine.status (p.heard s.scheduler.now e) (s.hear p e) := by
  have htell := tells_tell (p := p) (s := s) (e := e)
  have hstatus : (s.tell p e).machine.status = s.machine.status := by rw [machine_tell]
  have hthen : ∀ {s₂}, (s.tell p e).Tells (s.tell p e).machine.status [] s₂ →
      s.Tells s.machine.status (p.heard s.scheduler.now e) s₂ := by
    intro s₂ h
    rw [← List.append_nil (p.heard _ _), ← hstatus]
    exact htell.trans h
  unfold hear
  split
  · exact hthen tells_noteCancelRun
  · refine hthen (tells_noteCancelCaller fun x hx => ?_)
    rw [htell.callers]
    exact List.mem_of_getLast? hx
  · exact htell

/-- What is asked from outside is no record, and asks at most for the cancellation of the run or of callers. -/
theorem tells_act {a : Action} (ha : ∀ graph, a ≠ .simulate graph) : s.Tells s.machine.status [] (Engine.act s a) := by
  cases a with
  | simulate graph => exact absurd rfl (ha graph)
  | cancel => exact tells_noteCancelRun
  | cancelCaller caller =>
    cases caller with
    | none => exact tells_noteCancelCaller fun x hx => List.mem_of_getLast? hx
    | some caller =>
      refine tells_noteCancelCaller fun x hx => ?_
      unfold caller? at hx
      split at hx
      · cases hx
      · exact List.mem_of_getElem? hx
  | probe => exact tells_note _ rfl rfl

/-! ### Requests that go too deep -/

/-- A request to cancel the run that goes too deep is one for the run. -/
theorem goesTooDeep_of_noteCancelRun (h : s.noteCancelRun.1 = .tooDeep) : s.GoesTooDeep := by
  have hasked : s.cancelRun.1 = .tooDeep := by
    unfold noteCancelRun at h
    generalize s.cancelRun = answer at h ⊢
    obtain ⟨reply, s'⟩ := answer
    cases reply with
    | tooDeep => rfl
    | refused | taken => cases h
  unfold cancelRun at hasked
  cases hrun : s.run with
  | none =>
    rw [hrun] at hasked
    cases hasked
  | some x =>
    by_cases hended : s.scheduler.hasEnded x = true
    · simp only [hrun, hended, if_true] at hasked
      cases hasked
    · simp only [hrun, hended] at hasked
      exact ⟨x, Or.inl hrun, hasked⟩

/-- A request to cancel a caller that goes too deep is one for a caller. -/
theorem goesTooDeep_of_noteCancelCaller {task : Option FutureId} (htask : ∀ x, task = some x → x ∈ s.callers)
    (h : (s.noteCancelCaller task).1 = .tooDeep) : s.GoesTooDeep := by
  cases task with
  | none => cases h
  | some x =>
    refine ⟨x, Or.inr (htask x rfl), ?_⟩
    unfold noteCancelCaller at h
    dsimp only at h
    generalize s.scheduler.cancel x = answer at h ⊢
    obtain ⟨reply, scheduler⟩ := answer
    cases reply with
    | tooDeep => rfl
    | refused | taken => cases h

/-- A listener that fails interrupts the act with that fault. -/
theorem fault?_of_fails (h : p.Fails s.emitted) : s.fault? p e = some .listener := by
  obtain ⟨hlistens, hlookup⟩ := h
  simp only [fault?, hlistens, if_true, hlookup]

/-- A listener interrupts an act as it fails, or by a request that goes too deep. -/
theorem fault?_cases {f : Fault} (h : s.fault? p e = some f) :
    p.Fails s.emitted ∧ f = .listener ∨ f = .tooDeep ∧ s.GoesTooDeep := by
  have hscheduler : (s.tell p e).scheduler = s.scheduler := scheduler_tell
  have hcallers : (s.tell p e).callers = s.callers := (tells_tell (p := p) (s := s) (e := e)).callers
  have hdeep : (s.tell p e).GoesTooDeep → s.GoesTooDeep := by
    rintro ⟨x, hx, hx'⟩
    exact ⟨x, by rwa [run_tell, hcallers] at hx, by rwa [hscheduler] at hx'⟩
  unfold fault? at h
  by_cases hlistens : p.listens = true
  · simp only [hlistens, if_true] at h
    cases hlookup : p.hooks.lookup s.emitted with
    | none => simp only [hlookup, reduceCtorEq] at h
    | some hook =>
      simp only [hlookup] at h
      cases hook with
      | fail => exact Or.inl ⟨⟨hlistens, hlookup⟩, (Option.some.inj h).symm⟩
      | cancel =>
        obtain ⟨hreply, heq⟩ := Option.ite_none_right_eq_some.1 h
        exact Or.inr ⟨(Option.some.inj heq).symm, hdeep (goesTooDeep_of_noteCancelRun hreply)⟩
      | cancelCaller =>
        obtain ⟨hreply, heq⟩ := Option.ite_none_right_eq_some.1 h
        refine Or.inr ⟨(Option.some.inj heq).symm, hdeep (goesTooDeep_of_noteCancelCaller (fun x hx => ?_) hreply)⟩
        rw [hcallers]
        exact List.mem_of_getLast? hx
  · simp only [hlistens] at h
    cases h

/-- No request goes too deep where it goes no further than the run or a caller. -/
theorem IsUnlinked.not_goesTooDeep (h : s.IsUnlinked) : ¬ s.GoesTooDeep := by
  rintro ⟨x, hx, hdeep⟩
  by_cases hended : s.scheduler.ending? x = none
  · obtain ⟨⟨pr, hpr⟩, hwaiter⟩ := (h x hx).resolve_left fun hcontra => hcontra hended
    rw [Scheduler.cancel_of_waiter?_none hpr hended hwaiter] at hdeep
    cases hdeep
  · rw [Scheduler.cancel_of_ended hended] at hdeep
    cases hdeep

/-- A listener then only interrupts as it fails. -/
theorem IsUnlinked.fault?_eq_none (h : s.IsUnlinked) (hcalm : ¬ p.Fails s.emitted) : s.fault? p e = none := by
  cases hfault : s.fault? p e with
  | none => rfl
  | some f =>
    rcases fault?_cases hfault with hfails | hdeep
    · exact absurd hfails.1 hcalm
    · exact absurd hdeep.2 h.not_goesTooDeep

/-- What is told changes nothing in that. -/
theorem IsUnlinked.tells (hs : s.IsUnlinked) (h : s.Tells status entries s') : s'.IsUnlinked := by
  obtain ⟨xs, -, hxs⟩ := h.asks
  have hasks : s.scheduler.Asks s'.scheduler := hxs ▸ Scheduler.asks_cancelAll xs
  intro x hx
  rw [h.run, h.callers] at hx
  refine (hs x hx).imp (fun hended => ?_) fun ⟨⟨pr, hpr⟩, hwaiter⟩ => ?_
  · obtain ⟨e, he⟩ := Option.ne_none_iff_exists'.1 hended
    exact Option.ne_none_iff_exists'.2 ⟨e, hasks.ending_stays he⟩
  · exact ⟨⟨pr, (hasks.keeps.program x).trans hpr⟩, (hasks.keeps.waiter x).trans hwaiter⟩

end Session

end PipelineGraph.Simulation
