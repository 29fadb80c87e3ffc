import PipelineGraph.Proofs.Simulation.FirstSteps
import PipelineGraph.Proofs.Simulation.Brackets

/-!
# Sessions with one caller

The caller of a simulation may be cancelled at any time, like somebody who loses patience. If nothing else
is asked for and all delays can be waited for, the caller is answered once, and the answer goes with the
status of the machine: the run has returned, was cancelled, or the graph is to blame for its fault.
-/

namespace PipelineGraph.Simulation

open Scheduler

/-- A fault that the graph is to blame for. -/
inductive Fault.IsOfGraph : Fault → Prop
  | cycle (nodes : List Text) : IsOfGraph (.cycle nodes)
  | depth (node : Text) (greatest : Int) : IsOfGraph (.depth node greatest)

/-- What a caller is told goes with the status in which the run has left the machine. -/
inductive CallResult.Suits : CallResult → RunStatus → Prop
  | returned : Suits .returned .finished
  | cancelled : Suits .cancelled .cancelled
  | failed {f : Fault} (h : f.IsOfGraph) : Suits (.failed f) .failed

/-- What a caller is told when its run has ended suits the verdict. -/
theorem CallResult.suits_ofInterrupt {i : Option Interrupt} (h : ∀ f, i = some (.fault f) → f.IsOfGraph) :
    (CallResult.ofInterrupt i).Suits (Verdict.ofInterrupt i).status := by
  cases i with
  | none => exact .returned
  | some i =>
    cases i with
    | cancelled => exact .cancelled
    | fault f => exact .failed (h f rfl)

/-- A session whose only caller has had its first turn, and of whose engine nothing is asked but to cancel that
caller. Either the run is under way, or the caller was answered. -/
structure Session.SingleCaller (p : Plan) (s : Session) : Prop where
  isRegular : s.IsRegular p
  unasked : s.cancelRequested = false
  actions : ∀ a, .act a ∈ s.scheduler.jobs → a = .cancelCaller none
  called : ∀ id caller graph, s.scheduler.program? id = some (.call caller graph) → s.scheduler.ending? id ≠ none
  faults : ∀ id f, s.scheduler.ending? id = some (.error (.fault f)) → f.IsOfGraph
  answer : (s.machine.status = .running ∧ observe Entry.result? s.trace = []) ∨
    ∃ caller res, observe Entry.result? s.trace = [(caller, res)] ∧ res.Suits s.machine.status

variable {p : Plan} {s s' : Session} {id : FutureId}

/-! ## Moves -/

/-- A move of the run requests no cancellation. -/
theorem Move.cancelRequested (h : Move p s s') : s'.cancelRequested = s.cancelRequested := by
  cases h with
  | advance | elapse | count | join | deep | halt | abandon => rfl
  | enter => exact Session.cancelRequested_activate
  | leave | leaf => exact Session.cancelRequested_clear
  | fork => exact Session.cancelRequested_fork
  | conclude => exact Session.cancelRequested_close

/-- A move asks for nothing. -/
theorem Move.act_mem_jobs (h : Move p s s') {a : Action} (ha : .act a ∈ s'.scheduler.jobs) :
    .act a ∈ s.scheduler.jobs := by
  rcases h.shrinks_or with hshrinks | ⟨i, awake, pr, next, d, htakes, -, -, hgoes⟩ | ⟨i, awake, v, htakes, -, heq⟩
  · exact hshrinks.jobs ha
  · refine htakes.shrinks.jobs ?_
    generalize s'.scheduler = σ at ha hgoes
    cases hgoes with
    | pause => simpa using (jobs_pause next).subset ha
    | sleep => simpa using jobs_doze.subset ha
  · rw [heq] at ha
    refine htakes.shrinks.jobs ?_
    simpa using (jobs_branch _ _).subset ha

/-- A move makes no caller. -/
theorem Move.program?_call (h : Move p s s') {caller : Nat} {graph : Except LoadError Snapshot}
    (hpr : s'.scheduler.program? id = some (.call caller graph)) :
    s.scheduler.program? id = some (.call caller graph) := by
  rcases h.shrinks_or with hshrinks | ⟨i, awake, pr, next, d, htakes, hpr₀, hnext, hgoes⟩ |
    ⟨i, awake, v, htakes, hpr₀, heq⟩
  · exact (program?_congr (hshrinks.bareKind id)).symm.trans hpr
  · rw [hgoes.program? ((htakes.program? i).trans hpr₀)] at hpr
    split at hpr
    · cases hpr
      cases hnext
    · exact (htakes.program? id).symm.trans hpr
  · rw [heq, program?_branch _ _ ((htakes.program? i).trans hpr₀)] at hpr
    split at hpr
    · cases hpr
    · split at hpr
      · exact (htakes.program? id).symm.trans hpr
      · rw [List.getElem?_map] at hpr
        obtain ⟨v', -, heq⟩ := Option.map_eq_some_iff.1 hpr
        cases heq

/-- The graph is to blame for what interrupts a turn, if it is for all faults. -/
theorem Scheduler.isOfGraph_of_interrupt? {σ : Scheduler Program Action} {job : Job Action} {f : Fault}
    (hfaults : ∀ id f, σ.ending? id = some (.error (.fault f)) → f.IsOfGraph)
    (h : σ.interrupt? id job = some (.fault f)) : f.IsOfGraph := by
  rcases interruption_of_interrupt? h with ⟨-, heq⟩ | ⟨source, -, hend⟩
  · cases heq
  · exact hfaults source f hend

/-- The faults of a move are those of the graph. -/
theorem Move.isOfGraph (h : Move p s s') {b : FutureId} (hs : s.scheduler.Sound b fun _ => False)
    (hfaults : ∀ id f, s.scheduler.ending? id = some (.error (.fault f)) → f.IsOfGraph) {f : Fault}
    (hf : s'.scheduler.ending? id = some (.error (.fault f))) : f.IsOfGraph := by
  rcases h.ending?_cases hs id with hsame | ⟨-, -, e, he, hends⟩
  · exact hfaults id f (hsame.symm.trans hf)
  · cases he.symm.trans hf
    cases hends with
    | child _ hc => exact hfaults _ f hc
    | deep => exact .depth _ _
    | interruption _ _ _ _ hinterrupt => exact isOfGraph_of_interrupt? hfaults hinterrupt

namespace Session

/-- A request to cancel a caller touches nothing but the scheduler, and answers nobody. -/
theorem noteCancelCaller_spec (task : Option FutureId) : let s' := (s.noteCancelCaller task).2
    s'.cancelRequested = s.cancelRequested ∧ s'.machine = s.machine ∧ s.scheduler.Asks s'.scheduler ∧
      observe Entry.result? s'.trace = observe Entry.result? s.trace := by
  refine ⟨cancelRequested_noteCancelCaller task, ?_⟩
  cases task with
  | none => exact ⟨rfl, Asks.refl _, by simp [noteCancelCaller, note, Entry.result?]⟩
  | some x =>
    have hasks := asks_cancel (s := s.scheduler) x
    unfold noteCancelCaller
    dsimp only
    generalize s.scheduler.cancel x = answer at hasks
    obtain ⟨reply, scheduler⟩ := answer
    cases reply with
    | tooDeep => exact ⟨rfl, hasks, rfl⟩
    | refused | taken => exact ⟨rfl, hasks, by simp [note, Entry.result?]⟩

/-- The turn of a visit answers nobody. -/
theorem result?_entries {pr : Program} {now : Nat} {active : Option Text} :
    observe Entry.result? (p.entries now active pr) = [] := by
  refine List.filterMap_eq_nil_iff.2 fun x hx => ?_
  have hvisit := Plan.isOfVisit_of_mem_entries hx
  cases hentry : x.2 with
  | result =>
    rw [hentry] at hvisit
    cases hvisit
  | state | event | cancel | callerCancel | probe => rfl

/-- What a listener hears answers nobody. -/
theorem result?_heard {now : Nat} {e : Event} : observe Entry.result? (p.heard now e) = [] := by
  rw [observe_heard]
  split <;> rfl

/-- The beginning of a run answers nobody. -/
theorem result?_opening {now : Nat} {status : RunStatus} {graph : Snapshot} :
    observe Entry.result? (p.opening now status graph) = [] := by
  simp [Plan.opening, Entry.result?]

/-- The end of a run answers nobody. -/
theorem result?_closing {now : Nat} {active : Option Text} {verdict : Verdict} :
    observe Entry.result? (p.closing now active verdict) = [] := by
  cases active <;> simp [Plan.closing, Entry.result?]

/-- A run that comes to its end at once is answered once. -/
theorem result?_answered {now : Nat} {status : RunStatus} {graph : Snapshot} {middle : List (Nat × Entry)}
    {active : Option Text} {verdict : Verdict} {caller : Nat} (res : CallResult)
    (hmiddle : observe Entry.result? middle = []) :
    observe Entry.result? (p.opening now status graph ++
      (middle ++ (p.closing now active verdict ++ [(now, .result caller res)]))) = [(caller, res)] := by
  rw [observe_append, observe_append, observe_append, result?_opening, hmiddle, result?_closing]
  rfl

/-- A request to cancel the caller leaves a session with a single caller. -/
theorem SingleCaller.asked (hs : s.SingleCaller p) {rest : List (Job Action)} {a : Action}
    (hready : s.scheduler.ready = .act a :: rest)
    (task : Option FutureId) (hregular : (({ s with scheduler := s.scheduler.drop rest } : Session).noteCancelCaller
      task).2.IsRegular p) :
    (({ s with scheduler := s.scheduler.drop rest } : Session).noteCancelCaller task).2.SingleCaller p := by
  obtain ⟨hflag, hmachine, hasks, hresults⟩ :=
    noteCancelCaller_spec (s := { s with scheduler := s.scheduler.drop rest }) task
  refine ⟨hregular, hflag.trans hs.unasked, fun a ha => hs.actions a ?_, fun id caller graph hpr => ?_,
    fun id f hf => ?_, ?_⟩
  · rw [jobs_drop hready]
    exact List.mem_cons_of_mem _ (hasks.keeps.jobs.subset ha)
  · obtain ⟨e, he⟩ := Option.ne_none_iff_exists'.1
      (hs.called id caller graph ((program?_congr (hasks.keeps.bareKind id)).symm.trans hpr))
    exact Option.ne_none_iff_exists'.2 ⟨e, hasks.ending_stays he⟩
  · rcases hasks.ending id with hsame | ⟨-, -, hend⟩
    · exact hs.faults id f (hsame.symm.trans hf)
    · cases hend.symm.trans hf
  · rw [hresults, hmachine]
    exact hs.answer

/-- A move leaves a session with a single caller. -/
theorem SingleCaller.move (hs : s.SingleCaller p) (h : Move p s s') (hregular : s'.IsRegular p) :
    s'.SingleCaller p := by
  refine ⟨hregular, h.cancelRequested.trans hs.unasked, fun a ha => hs.actions a (h.act_mem_jobs ha),
    fun id caller graph hpr => ?_, fun id f hf => h.isOfGraph hs.isRegular.regular.sound hs.faults hf, ?_⟩
  · obtain ⟨e, he⟩ := Option.ne_none_iff_exists'.1 (hs.called id caller graph (h.program?_call hpr))
    exact Option.ne_none_iff_exists'.2 ⟨e, h.ending?_stays hs.isRegular.regular.sound he⟩
  rcases h.writes_cases with ⟨htrace, hmachine, -⟩ | ⟨job, rest, id, pr, -, -, -, -, -, htrace, hstatus, -⟩ |
    ⟨job, rest, id, caller, hready, htask, hpr, htrace, hstatus, -⟩
  · rw [htrace, hmachine]
    exact hs.answer
  · rw [htrace, hstatus, observe_append, result?_entries, List.append_nil]
    exact hs.answer
  · -- Until its turn comes the caller waits for an answer.
    have hrunning := hs.isRegular.isWellFormed.running_of_conclude hready htask hpr
    have hnothing : observe Entry.result? s.trace = [] := by
      rcases hs.answer with ⟨-, hnothing⟩ | ⟨_, _, -, hsuits⟩
      · exact hnothing
      · rw [hrunning] at hsuits
        cases hsuits
    refine Or.inr ⟨caller, _, ?_, hstatus.symm ▸ CallResult.suits_ofInterrupt fun f hf =>
      isOfGraph_of_interrupt? hs.faults hf⟩
    rw [htrace, observe_append, observe_append, hnothing, result?_closing]
    rfl

/-- A visit that is interrupted behind its children and asks them to cancel leaves a session with a single caller. -/
theorem SingleCaller.abandon (hs : s.SingleCaller p) {job : Job Action} {rest : List (Job Action)}
    {children : List FutureId}
    {i : Interrupt} (hready : s.scheduler.ready = job :: rest) (htask : job.task? = some id)
    (hinterrupt : s.scheduler.interrupt? id job = some i)
    (heq : s' = { s with
      scheduler := ((s.awaken rest id).scheduler.cancelAll children).complete id (.error i) })
    (hregular : s'.IsRegular p) : s'.SingleCaller p := by
  have htakes : s.scheduler.Takes id (s.awaken rest id).scheduler := ⟨job, rest, hready, htask, rfl⟩
  have hasks := asks_cancelAll (s := (s.awaken rest id).scheduler) children
  have hkeeps := hasks.keeps.trans (keeps_complete id (.error i))
  have hending : ∀ {j e}, s.scheduler.ending? j = some e →
      ((s.awaken rest id).scheduler.cancelAll children).ending? j = some e := fun he =>
    hasks.ending_stays ((Engine.ending?_awaken rest id _).trans he)
  subst heq
  refine ⟨hregular, hs.unasked, fun a ha => hs.actions a (htakes.shrinks.jobs (hkeeps.jobs.subset ha)),
    fun j caller graph hpr => ?_, fun j f hf => ?_, hs.answer⟩
  · rw [program?_congr (hkeeps.bareKind j), htakes.program?] at hpr
    obtain ⟨e, he⟩ := Option.ne_none_iff_exists'.1 (hs.called j caller graph hpr)
    exact Option.ne_none_iff_exists'.2 ⟨e, ending?_complete_of_ended (hending he) _⟩
  · rcases ending?_complete_cases (s := (s.awaken rest id).scheduler.cancelAll children) (i := id) (j := j)
      (.error i) with hsame | ⟨-, -, hend⟩
    · rcases hasks.ending j with hsame' | ⟨-, -, hend⟩
      · exact hs.faults j f (((Engine.ending?_awaken rest id j).symm.trans hsame'.symm).trans (hsame.symm.trans hf))
      · cases hend.symm.trans (hsame.symm.trans hf)
    · cases hend.symm.trans hf
      exact isOfGraph_of_interrupt? hs.faults hinterrupt

section Begin

variable {graph : Snapshot} (hregular : s'.IsRegular p) (hfresh : s.scheduler.IsFresh)
  (hactions : ∀ a, .act a ∈ s.scheduler.jobs → a = .cancelCaller none)
  (htrace : observe Entry.result? s.trace = [])

include hregular hfresh hactions htrace

/-- A session whose first caller was answered in its first turn has a single caller. -/
theorem Settled.singleCaller {verdict : Verdict} {entries : List (Nat × Entry)} {caller : Nat} {res : CallResult}
    (h : s.Settled graph verdict s') (hentries : s'.trace = s.trace ++ entries)
    (hsuits : res.Suits verdict.status) (hanswer : observe Entry.result? entries = [(caller, res)]) :
    s'.SingleCaller p := by
  have hjobs : s'.scheduler.jobs.Perm s.scheduler.jobs := by
    rw [h.scheduler]
    exact (jobs_complete _).trans (Engine.jobs_ask hfresh.ready)
  have hending : ∀ id, s'.scheduler.ending? id = if s.scheduler.futures.length = id then some (.ok ()) else none := by
    intro id
    rw [h.scheduler, ending?_complete]
    by_cases hid : s.scheduler.futures.length = id
    · have hnone : (s.ask graph).scheduler.ending? id = none :=
        Engine.ending?_ask.trans (ending?_of_length_le (Nat.le_of_eq hid))
      have hlt : id < (s.ask graph).scheduler.futures.length := by
        rw [Engine.length_ask, hid]
        exact Nat.lt_succ_self _
      have hfuture : (s.ask graph).scheduler.future? id = some _ := List.getElem?_eq_getElem hlt
      rw [if_pos hid, if_pos hid, hfuture]
      rw [Scheduler.ending?, hfuture] at hnone
      exact congrArg some (congrArg (Option.getD · _) hnone)
    · rw [if_neg hid, if_neg hid, Engine.ending?_ask]
      exact ending?_of_length_le (by simp [hfresh.futures])
  refine ⟨hregular, h.unasked, fun a ha => hactions a (hjobs.subset ha), fun id caller' graph' hpr => ?_,
    fun id f hf => ?_, Or.inr ⟨caller, res, ?_, h.status ▸ hsuits⟩⟩
  · rw [← bareKind?_eq_task_iff, h.scheduler, bareKind?_complete, Engine.bareKind?_ask] at hpr
    rw [hending]
    split at hpr
    · next hid => simp [hid]
    · exact absurd hpr hfresh.bareKind?
  · rw [hending] at hf
    split at hf <;> cases hf
  · rw [hentries, observe_append, htrace, hanswer]
    rfl

/-- A session whose first caller has begun its run has a single caller. -/
theorem singleCaller_of_launch {v : Visit} (hscheduler : s'.scheduler =
      ((s.ask graph).scheduler.spawn (.enter v)).2.defer s.scheduler.futures.length (.conclude s.callers.length)
        (s.scheduler.futures.length + 1))
    (hunasked : s'.cancelRequested = false) (hrunning : s'.machine.status = .running)
    {entries : List (Nat × Entry)} (hentries : s'.trace = s.trace ++ entries)
    (hanswer : observe Entry.result? entries = []) : s'.SingleCaller p := by
  have hlength : (s.ask graph).scheduler.futures.length = s.scheduler.futures.length + 1 := Engine.length_ask
  have hbare : ∀ id, ((s.ask graph).scheduler.spawn (.enter v)).2.bareKind? id =
      if id = s.scheduler.futures.length + 1 then some (.task (.enter v))
      else if id = s.scheduler.futures.length then some (.task (.call s.callers.length (.ok graph))) else none := by
    intro id
    rw [bareKind?_spawn, hlength, Engine.bareKind?_ask]
    have hnone : s.scheduler.bareKind? id = none := Option.eq_none_iff_forall_ne_some.2 fun _ => hfresh.bareKind?
    rw [hnone]
  have hprogram : ((s.ask graph).scheduler.spawn (.enter v)).2.program? s.scheduler.futures.length =
      some (.call s.callers.length (.ok graph)) := by
    rw [← bareKind?_eq_task_iff, hbare, if_neg (Nat.ne_of_lt (Nat.lt_succ_self _)), if_pos rfl]
  have hlt : s.scheduler.futures.length + 1 < ((s.ask graph).scheduler.spawn (.enter v)).2.futures.length := by
    rw [length_spawn, hlength]
    exact Nat.lt_succ_self _
  refine ⟨hregular, hunasked, fun a ha => ?_, fun id caller graph' hpr => ?_, fun id f hf => ?_,
    Or.inl ⟨hrunning, ?_⟩⟩
  · rw [hscheduler, (jobs_defer hlt).mem_iff, List.mem_cons] at ha
    have ha' := jobs_spawn.subset (ha.resolve_left fun h => by cases h)
    rw [List.mem_cons] at ha'
    exact hactions a ((Engine.jobs_ask hfresh.ready).subset (ha'.resolve_left fun h => by cases h))
  · rw [← bareKind?_eq_task_iff, hscheduler, bareKind?_defer hprogram, hbare] at hpr
    split at hpr
    · cases hpr
    · simp at hpr
  · have hnone : s'.scheduler.ending? id = none := by
      rw [hscheduler, ending?_defer_of_ne_sleep hprogram, ending?_spawn, Engine.ending?_ask]
      · exact ending?_of_length_le (by simp [hfresh.futures])
      · rw [hbare]
        split_ifs <;> simp
    cases hnone.symm.trans hf
  · rw [hentries, observe_append, htrace, hanswer]
    rfl

/-- A session has a single caller from its first turn on. -/
theorem singleCaller_of_first_step (hhooks : p.hooks = []) (hstatus : s.machine.status ≠ .running)
    (h : Engine.step? p (Engine.act s (.simulate (.ok graph))) = some s') : s'.SingleCaller p := by
  cases hstart : graph.flow.start? with
  | none =>
    obtain ⟨s₁, hstep, hsettled, hentries⟩ := Engine.step?_simulate_empty hhooks hfresh.ready hstatus hstart
    obtain rfl := Option.some.inj (hstep.symm.trans h)
    have hmiddle : observe Entry.result? [] = [] := rfl
    exact hsettled.singleCaller hregular hfresh hactions htrace hentries .returned (result?_answered _ hmiddle)
  | some start =>
    cases hcycle : graph.flow.findCycle? (some start.id) with
    | some cycle =>
      obtain ⟨s₁, hstep, hsettled, hentries⟩ := Engine.step?_simulate_cyclic hhooks hfresh.ready hstatus hstart hcycle
      obtain rfl := Option.some.inj (hstep.symm.trans h)
      exact hsettled.singleCaller hregular hfresh hactions htrace hentries (.failed (.cycle cycle))
        (result?_answered _ result?_heard)
    | none =>
      have hlaunch := Option.some.inj
        (h.symm.trans (Engine.step?_simulate_launch hhooks hfresh.ready hstatus hstart hcycle))
      refine singleCaller_of_launch hregular hfresh hactions htrace (congrArg Session.scheduler hlaunch) ?_ ?_
        ((congrArg Session.trace hlaunch).trans (trace_launch (s := s.ask graph))) result?_opening
      · exact (congrArg Session.cancelRequested hlaunch).trans cancelRequested_launch
      · exact (congrArg (·.machine.status) hlaunch).trans machine_launch.1

end Begin

section Steps

variable (hhooks : p.hooks = []) (hdwell : ∀ e, p.dwell ≠ .unusable e) (hedge : ∀ e, p.edgeDelay ≠ .unusable e)

include hhooks hdwell hedge

/-- A step of such a session is a move, or a visit asks its children to cancel, or the caller is cancelled. -/
theorem SingleCaller.step_cases (hs : s.SingleCaller p) (h : Engine.step? p s = some s') : Move p s s' ∨
    (∃ job rest id children i, s.scheduler.ready = job :: rest ∧ job.task? = some id ∧
      s.scheduler.interrupt? id job = some i ∧ s' = { s with
        scheduler := ((s.awaken rest id).scheduler.cancelAll children).complete id (.error i) }) ∨
    ∃ rest, s.scheduler.ready = .act (.cancelCaller none) :: rest ∧
      s' = (({ s with scheduler := s.scheduler.drop rest } : Session).noteCancelCaller s.callers.getLast?).2 := by
  by_cases hact : ∃ a rest, s.scheduler.ready = .act a :: rest
  · obtain ⟨a, rest, hready⟩ := hact
    cases hs.actions a (mem_jobs_of_ready hready)
    refine Or.inr (Or.inr ⟨rest, hready, ?_⟩)
    simp only [Engine.step?, hready, Option.some.injEq] at h
    exact h.symm
  by_cases hjoin : ∃ job rest id v children i, s.scheduler.ready = job :: rest ∧ job.task? = some id ∧
      s.scheduler.program? id = some (.join v children) ∧ s.scheduler.interrupt? id job = some i
  · obtain ⟨job, rest, id, v, children, i, hready, htask, hpr, hinterrupt⟩ := hjoin
    refine Or.inr (Or.inl ⟨job, rest, id, children, i, hready, htask, hinterrupt, ?_⟩)
    have hfitting := (hs.isRegular.regular.takes hready htask).fitting
    have hreply : ((s.awaken rest id).scheduler.cancelEach children).1 ≠ .tooDeep :=
      hfitting.cancelEach_ne_tooDeep hs.isRegular.regular.shallow
    obtain ⟨asked, -, hstate, hall⟩ := exists_cancelEach (s.awaken rest id).scheduler children
    simp only [Engine.step?, hready, Option.some.injEq] at h
    refine h.symm.trans ((Engine.perform_eq_follow (p := p) job rest htask hpr).trans ?_)
    rw [hinterrupt, Engine.turn, Engine.run_join, if_neg hreply, hstate, hall hreply]
    rfl
  · refine Or.inl (Engine.move_of_step hhooks hdwell hedge (fun a rest hready => hact ⟨a, rest, hready⟩)
      (fun job rest id hready htask => ?_) h)
    obtain ⟨pr, hpr⟩ := hs.isRegular.regular.fitting.exists_program? (mem_jobs_of_ready hready) htask
    cases pr with
    | enter v => exact Or.inl ⟨v, _, hpr, Or.inl rfl⟩
    | leave v => exact Or.inl ⟨v, _, hpr, Or.inr (Or.inl rfl)⟩
    | fanOut v => exact Or.inl ⟨v, _, hpr, Or.inr (Or.inr (Or.inl rfl))⟩
    | join v children =>
      refine Or.inl ⟨v, _, hpr, Or.inr (Or.inr (Or.inr ⟨children, rfl, fun hinterrupt => ?_⟩))⟩
      obtain ⟨i, hi⟩ := Option.ne_none_iff_exists'.1 hinterrupt
      exact absurd ⟨job, rest, id, v, children, i, hready, htask, hpr, hi⟩ hjoin
    | call caller graph =>
      obtain ⟨-, -, hlive, -⟩ := hs.isRegular.regular.sound.live_of_mem (mem_jobs_of_ready hready) htask
      exact absurd hlive (hs.called id caller graph hpr)
    | conclude caller =>
      exact Or.inr ⟨caller, hpr, hs.isRegular.isWellFormed.running_of_conclude hready htask hpr, fun _ => hs.unasked⟩

/-- Every step leaves a session with a single caller. -/
theorem SingleCaller.step (hs : s.SingleCaller p) (h : Engine.step? p s = some s') : s'.SingleCaller p := by
  have hlookup : ∀ n, p.hooks.lookup n ≠ some .fail := fun n => by simp [hhooks]
  have hregular := (hs.isRegular.regularStep hlookup h).isRegular hs.isRegular
  rcases hs.step_cases hhooks hdwell hedge h with hmove |
    ⟨job, rest, id, children, i, hready, htask, hinterrupt, heq⟩ | ⟨rest, hready, rfl⟩
  · exact hs.move hmove hregular
  · exact hs.abandon hready htask hinterrupt heq hregular
  · exact hs.asked hready _ hregular

/-- A session keeps its single caller as it goes on. -/
theorem SingleCaller.run (n : Nat) (hs : s.SingleCaller p) : (Engine.run p n s).SingleCaller p := by
  induction n generalizing s with
  | zero => exact hs
  | succ n ih =>
    cases h : Engine.step? p s with
    | none =>
      rw [Engine.run_of_step?_none h]
      exact hs
    | some s' =>
      rw [Engine.run_succ h]
      exact ih (hs.step hhooks hdwell hedge h)

end Steps

end Session

end PipelineGraph.Simulation
