import PipelineGraph.Simulation.Engine
import PipelineGraph.Proofs.Simulation.Branching

/-!
# Turns

What a turn of each program does to a session when the listener only listens. A visit changes the
machine and the trace, and then goes on by a pause, a sleep or a gathering of the visits that
follow it, or it ends.
-/

namespace PipelineGraph.Simulation

namespace Session

/-- Tell a listener that only listens of an event. -/
def tell (p : Plan) (e : Event) (s : Session) : Session :=
  if p.listens then { s.note (.event e) with emitted := s.emitted + 1 } else s

/-- What a visit does to a session when it begins, apart from its delay. -/
def activate (p : Plan) (v : Visit) (s : Session) : Session :=
  ((s.setActive (some v.node.id)).tell p (.nodeActive v.node v.depth)).log
    [⟨.info, "[Engine] Node " ++ v.node.id ++ " (" ++ v.node.label ++ ") active"⟩]

/-- What a visit does to a session after its dwelling, apart from its delay. -/
def clear (p : Plan) (v : Visit) (s : Session) : Session :=
  (s.setActive none).tell p (.nodeCleared v.node.id)

/-- What a visit does to a session when it branches, apart from the visits that follow. -/
def fork (p : Plan) (v : Visit) (s : Session) : Session :=
  let targets := v.graph.targets v.node.id
  (s.tell p (.fanOut v.node.id targets)).log
    (if 1 < targets.length then
      [⟨.debug, "[Engine] Fan-out " ++ v.node.id ++ " -> " ++ Text.quotedList targets⟩]
    else [])

/-- What a run does to a session when it ends with a verdict that is possible. -/
def close (p : Plan) (verdict : Verdict) (s : Session) : Session :=
  let s := if s.machine.active.isSome then s.setActive none else s
  let change : Change := ⟨.status, some s.machine.status.name, some verdict.status.name⟩
  ((s.change change { s.machine with
      status := verdict.status, history := s.machine.history ++ [change] }).tell p (.ended verdict)).log
    [⟨.info, "[Engine] Simulation " ++ verdict.status.name⟩]

variable {p : Plan} {v : Visit} {e : Event} {s : Session}

/-- Telling the listener schedules nothing. -/
@[simp] theorem scheduler_tell : (s.tell p e).scheduler = s.scheduler := by
  unfold tell; split <;> rfl

/-- Logging schedules nothing. -/
@[simp] theorem scheduler_log (records : List LogRecord) : (s.log records).scheduler = s.scheduler :=
  rfl

/-- A node that becomes active schedules nothing. -/
@[simp] theorem scheduler_activate : (s.activate p v).scheduler = s.scheduler := by
  simp [activate, log, setActive, change, note]

/-- A node that is cleared schedules nothing. -/
@[simp] theorem scheduler_clear : (s.clear p v).scheduler = s.scheduler := by
  simp [clear, log, setActive, change, note]

/-- Starting out on the edges of a node schedules nothing by itself. -/
@[simp] theorem scheduler_fork : (s.fork p v).scheduler = s.scheduler := by
  simp [fork, log]

/-- The end of a run schedules nothing. -/
@[simp] theorem scheduler_close (verdict : Verdict) : (s.close p verdict).scheduler = s.scheduler := by
  unfold close
  by_cases h : s.machine.active.isSome = true <;> simp [h, log, setActive, change, note]

/-- Telling the listener requests no cancellation by itself. -/
@[simp] theorem cancelRequested_tell : (s.tell p e).cancelRequested = s.cancelRequested := by
  unfold tell; split <;> rfl

/-- A node that becomes active requests no cancellation. -/
theorem cancelRequested_activate : (s.activate p v).cancelRequested = s.cancelRequested := by
  simp [activate, log, setActive, change, note]

/-- A node that is cleared requests no cancellation. -/
theorem cancelRequested_clear : (s.clear p v).cancelRequested = s.cancelRequested := by
  simp [clear, log, setActive, change, note]

/-- Starting out on the edges of a node requests no cancellation. -/
theorem cancelRequested_fork : (s.fork p v).cancelRequested = s.cancelRequested := by
  simp [fork, log]

/-- The end of a run leaves the request for a cancellation. -/
theorem cancelRequested_close {verdict : Verdict} :
    (s.close p verdict).cancelRequested = s.cancelRequested := by
  unfold close
  by_cases h : s.machine.active.isSome = true <;> simp [h, log, setActive, change, note]

/-- A run may be forgotten before it is closed. -/
theorem close_forget (verdict : Verdict) :
    ({ s with run := none }).close p verdict = { s.close p verdict with run := none } := by
  unfold close tell
  by_cases hactive : s.machine.active.isSome = true <;> by_cases hlistens : p.listens = true <;>
    simp [hactive, hlistens, log, setActive, change, note]

end Session

namespace Act

variable {α β : Type} {p : Plan} {s : Session}

/-- One act after another. -/
theorem run_bind (act : Act α) (next : α → Act β) :
    (act >>= next).run s =
      match act.run s with
      | (.ok a, s) => (next a).run s
      | (.error i, s) => (.error i, s) := by
  rcases h : act.run s with ⟨i | a, s'⟩
  · simp only [ExceptT.run] at h
    simp only [bind, ExceptT.bind, ExceptT.mk, ExceptT.run, StateT.bind, h, ExceptT.bindCont]
    rfl
  · simp only [ExceptT.run] at h
    simp only [bind, ExceptT.bind, ExceptT.mk, ExceptT.run, StateT.bind, h, ExceptT.bindCont]

/-- What only returns leaves the session. -/
theorem run_pure (a : α) : (pure a : Act α).run s = (.ok a, s) :=
  rfl

/-- Asking for the session gives it. -/
theorem run_get : (get : Act Session).run s = (.ok s, s) :=
  rfl

/-- A change of the session is made. -/
theorem run_modify (f : Session → Session) : (modify f : Act Unit).run s = (.ok (), f s) :=
  rfl

/-- A fault ends an act. -/
theorem run_fail (f : Fault) : (fail f : Act α).run s = (.error (.fault f), s) :=
  rfl

/-- A message is logged. -/
theorem run_log (level : LogLevel) (message : Text) :
    (log level message).run s = (.ok (), s.log [⟨level, message⟩]) :=
  rfl

/-- The marker is set. -/
theorem run_setActive (id : Option Text) : (setActive id).run s = (.ok (), s.setActive id) :=
  rfl

/-- What the scheduler does is done in the session. -/
theorem run_schedule (f : Scheduler Program Action → α × Scheduler Program Action) :
    (schedule f).run s = (.ok (f s.scheduler).1, { s with scheduler := (f s.scheduler).2 }) :=
  rfl

/-- A listener that only listens is told of an event. -/
theorem run_emit (hhooks : p.hooks = []) (e : Event) :
    (emit p e).run s = (.ok (), s.tell p e) := by
  unfold emit Session.tell
  rw [hhooks]
  split <;> rfl

/-- A transition that is possible changes the machine. -/
theorem run_transition {target : RunStatus} (h : s.machine.allows target = true) :
    (transition target).run s =
      (.ok (), s.change ⟨.status, some s.machine.status.name, some target.name⟩
        { s.machine with status := target, history := s.machine.history ++
          [⟨.status, some s.machine.status.name, some target.name⟩] }) := by
  unfold transition
  simp only [run_bind, run_get, Machine.transition, if_pos h, run_modify]

/-- A run under way ends with any verdict. -/
theorem run_finish (hhooks : p.hooks = []) (hrunning : s.machine.status = .running)
    (verdict : Verdict) : (finish p verdict).run s = (.ok (), s.close p verdict) := by
  have hallows : ∀ m : Machine, m.status = .running → m.allows verdict.status = true := by
    intro m hm
    unfold Machine.allows
    rw [hm]
    cases verdict <;> rfl
  unfold finish
  by_cases hactive : s.machine.active.isSome = true
  · have h := hallows (s.setActive none).machine hrunning
    simp only [run_bind, run_get, hactive, if_true, run_setActive, run_transition h, run_emit hhooks,
      run_log, Session.close]
  · have h := hallows s.machine hrunning
    rw [Bool.not_eq_true] at hactive
    simp only [run_bind, run_get, hactive, Bool.false_eq_true, if_false, run_transition h,
      run_emit hhooks, run_log, Session.close]

end Act

namespace Engine

open Act

variable {p : Plan} {v : Visit} {s : Session}

/-- Who has to wait for a time waits for a new sleep. -/
theorem run_delay_timer (microseconds : Nat) (next : Program) :
    (delay (.timer microseconds) next).run s =
      (.ok (.wait s.scheduler.futures.length next),
        { s with scheduler := (s.scheduler.sleep microseconds).2 }) :=
  rfl

/-- A visit that is too deep is a fault. -/
theorem run_enter_deep (hdepth : p.maxDepth < v.depth) :
    (enter p v).run s = (.error (.fault (.depth v.node.id p.maxDepth)), s) := by
  unfold enter
  simp only [if_pos hdepth, run_bind, run_fail]

/-- A visit begins with its node active. -/
theorem run_enter (hhooks : p.hooks = []) (hdepth : ¬ p.maxDepth < v.depth) :
    (enter p v).run s = (delay p.dwell (.leave v)).run (s.activate p v) := by
  unfold enter
  simp only [if_neg hdepth, run_bind, run_setActive, run_emit hhooks, run_log]
  rfl

/-- A visit of a node without outgoing edges ends when the node is cleared. -/
theorem run_leave_leaf (hhooks : p.hooks = []) (hleaf : v.graph.targets v.node.id = []) :
    (leave p v).run s = (.ok .over, s.clear p v) := by
  have hempty : (v.graph.outgoing v.node.id).isEmpty = true := by
    simpa [FlowGraph.targets] using hleaf
  unfold leave
  simp only [run_bind, run_setActive, run_emit hhooks, hempty, if_true]
  rfl

/-- A visit of another node goes on to its edges. -/
theorem run_leave (hhooks : p.hooks = []) (hinner : v.graph.targets v.node.id ≠ []) :
    (leave p v).run s = (delay p.edgeDelay (.fanOut v)).run (s.clear p v) := by
  have hempty : (v.graph.outgoing v.node.id).isEmpty = false := by
    simpa [FlowGraph.targets] using hinner
  unfold leave
  simp only [run_bind, run_setActive, run_emit hhooks, hempty]
  rfl

/-- A visit that branches spawns what follows it, and waits for all of that. -/
theorem run_fanOut (hhooks : p.hooks = []) :
    (fanOut p v).run s =
      (let spawned := s.scheduler.spawnAll ((followers v).map .enter)
      (.ok (.wait spawned.2.futures.length (.join v spawned.1)),
        { s.fork p v with scheduler := (spawned.2.gather spawned.1).2 })) := by
  unfold fanOut Session.fork
  by_cases hseveral : 1 < (v.graph.targets v.node.id).length
  · simp only [run_bind, run_emit hhooks, if_pos hseveral, run_log, run_schedule, run_pure,
      Session.scheduler_log, Session.scheduler_tell]
    rfl
  · simp only [run_bind, run_emit hhooks, if_neg hseveral, run_schedule, run_pure,
      Session.scheduler_tell, Session.log, List.append_nil]
    rfl

section Settle

variable {act : Act (Option FutureId)} {s' : Session} {caller : Nat} {next : Program}

/-- A request whose run has begun is answered when the run has ended. -/
theorem run_settle_begun {task : FutureId} (h : act.run s = (.ok (some task), s')) :
    (settle caller next act).run s = (.ok (.wait task next), s') := by
  simp only [settle, ExceptT.run_mk, h]

/-- A request that is done returns. -/
theorem run_settle_done (h : act.run s = (.ok none, s')) :
    (settle caller next act).run s = (.ok .over, s'.note (.result caller .returned)) := by
  simp only [settle, ExceptT.run_mk, h]

/-- A request that is interrupted is answered with its interruption. -/
theorem run_settle_error {i : Interrupt} (h : act.run s = (.error i, s')) :
    (settle caller next act).run s = (.ok .over, s'.note (.result caller (.ofEnding (.error i)))) := by
  simp only [settle, ExceptT.run_mk, h]

end Settle

end Engine

namespace Scheduler

variable (s : Scheduler Program Action) (id : FutureId)

/-- What interrupts the turn of a task that a job brings. -/
def interrupt? (job : Job Action) : Option Interrupt :=
  if s.mustCancel id then some .cancelled
  else (job.source?.bind s.ending?).bind Ending.interrupt?

/-- A task goes on behind a delay. -/
inductive Goes (next : Program) : Delay → Scheduler Program Action → Prop
  | pause : Goes next .pause ((s.instruct id next).push (.resume id))
  | sleep (microseconds : Nat) : Goes next (.timer microseconds) (s.doze id next microseconds)

end Scheduler

namespace Session

/-- The session as a task takes its turn. -/
def awaken (s : Session) (rest : List (Job Action)) (id : FutureId) : Session :=
  { s with scheduler := (s.scheduler.drop rest).awaken id }

end Session

/-- The verdict on a run that ended in some way. -/
def Verdict.ofInterrupt : Option Interrupt → Verdict
  | none => .finished
  | some .cancelled => .cancelled
  | some (.fault f) => .failed f.message

/-- The result for a caller whose run ended in some way. -/
def CallResult.ofInterrupt : Option Interrupt → CallResult
  | none => .returned
  | some .cancelled => .cancelled
  | some (.fault f) => .failed f

/-- A step of a session in which one run is under way and nothing is asked from outside. A visit that is
interrupted behind its children finds that they have ended, so its requests to cancel them change
nothing. A caller that concludes a cancelled run has been cancelled itself: nobody asked the engine for
that. -/
inductive Move (p : Plan) (s : Session) : Session → Prop
  | advance {sch} (hready : s.scheduler.ready = []) (hadvance : s.scheduler.advance? = some sch) :
    Move p s { s with scheduler := sch }
  | elapse {x rest} (hready : s.scheduler.ready = .elapse x :: rest) :
    Move p s { s with scheduler := (s.scheduler.drop rest).complete x (.ok ()) }
  | count {g c rest} (hready : s.scheduler.ready = .count g c :: rest) :
    Move p s { s with scheduler := (s.scheduler.drop rest).countChild g c }
  | enter {job rest id v sch} (hready : s.scheduler.ready = job :: rest)
    (htask : job.task? = some id) (hprogram : s.scheduler.program? id = some (.enter v))
    (hcalm : s.scheduler.interrupt? id job = none) (hdepth : ¬ p.maxDepth < v.depth)
    (hgoes : (s.awaken rest id).scheduler.Goes id (.leave v) p.dwell sch) :
    Move p s { (s.awaken rest id).activate p v with scheduler := sch }
  | leave {job rest id v sch} (hready : s.scheduler.ready = job :: rest)
    (htask : job.task? = some id) (hprogram : s.scheduler.program? id = some (.leave v))
    (hcalm : s.scheduler.interrupt? id job = none) (hinner : v.graph.targets v.node.id ≠ [])
    (hgoes : (s.awaken rest id).scheduler.Goes id (.fanOut v) p.edgeDelay sch) :
    Move p s { (s.awaken rest id).clear p v with scheduler := sch }
  | leaf {job rest id v} (hready : s.scheduler.ready = job :: rest)
    (htask : job.task? = some id) (hprogram : s.scheduler.program? id = some (.leave v))
    (hcalm : s.scheduler.interrupt? id job = none) (hleaf : v.graph.targets v.node.id = []) :
    Move p s { (s.awaken rest id).clear p v with
      scheduler := (s.awaken rest id).scheduler.complete id (.ok ()) }
  | fork {job rest id v} (hready : s.scheduler.ready = job :: rest)
    (htask : job.task? = some id) (hprogram : s.scheduler.program? id = some (.fanOut v))
    (hcalm : s.scheduler.interrupt? id job = none) :
    Move p s { (s.awaken rest id).fork p v with
      scheduler := (s.awaken rest id).scheduler.branch id ((Engine.followers v).map .enter) (.join v) }
  | join {job rest id v children} (hready : s.scheduler.ready = job :: rest)
    (htask : job.task? = some id) (hprogram : s.scheduler.program? id = some (.join v children))
    (hcalm : s.scheduler.interrupt? id job = none) :
    Move p s { s with scheduler := (s.awaken rest id).scheduler.complete id (.ok ()) }
  | deep {job rest id v} (hready : s.scheduler.ready = job :: rest)
    (htask : job.task? = some id) (hprogram : s.scheduler.program? id = some (.enter v))
    (hcalm : s.scheduler.interrupt? id job = none) (hdepth : p.maxDepth < v.depth) :
    Move p s { s with scheduler :=
      (s.awaken rest id).scheduler.complete id (.error (.fault (.depth v.node.id p.maxDepth))) }
  | halt {job rest id v pr i} (hready : s.scheduler.ready = job :: rest)
    (htask : job.task? = some id) (hprogram : s.scheduler.program? id = some pr)
    (hvisit : pr = .enter v ∨ pr = .leave v ∨ pr = .fanOut v)
    (hinterrupt : s.scheduler.interrupt? id job = some i) :
    Move p s { s with scheduler := (s.awaken rest id).scheduler.complete id (.error i) }
  | abandon {job rest id v children i} (hready : s.scheduler.ready = job :: rest)
    (htask : job.task? = some id) (hprogram : s.scheduler.program? id = some (.join v children))
    (hinterrupt : s.scheduler.interrupt? id job = some i)
    (hended : ∀ c ∈ children, s.scheduler.ending? c ≠ none) :
    Move p s { s with scheduler := (s.awaken rest id).scheduler.complete id (.error i) }
  | conclude {job rest id caller} (hready : s.scheduler.ready = job :: rest)
    (htask : job.task? = some id) (hprogram : s.scheduler.program? id = some (.conclude caller))
    (hrunning : s.machine.status = .running)
    (hnot : s.scheduler.interrupt? id job = some .cancelled → s.cancelRequested = false) :
    Move p s { (({ s.awaken rest id with run := none }).close p
        (.ofInterrupt (s.scheduler.interrupt? id job))).note
          (.result caller (.ofInterrupt (s.scheduler.interrupt? id job))) with
      scheduler := (s.awaken rest id).scheduler.complete id (.ok ()) }

namespace Engine

open Act

variable {p : Plan} {s s' : Session}

/-- A job that lets a task go on is a turn of the task's program. -/
theorem perform_eq_follow (job : Job Action) (rest : List (Job Action)) {id : FutureId} {pr : Program}
    (htask : job.task? = some id) (hprogram : s.scheduler.program? id = some pr) :
    perform p { s with scheduler := s.scheduler.drop rest } job =
      follow id ((turn p pr (s.scheduler.interrupt? id job)).run (s.awaken rest id)) := by
  obtain ⟨task, ht, rfl⟩ := Option.map_eq_some_iff.1 hprogram
  have hdrop : (s.scheduler.drop rest).task? id = some task := ht
  have hmust : s.scheduler.mustCancel id = task.mustCancel := by
    simp [Scheduler.mustCancel, ht]
  cases job with
  | resume | wake =>
    cases htask
    simp only [perform, resume, hdrop, Scheduler.interrupt?, hmust]
    rfl
  | count | elapse | act => cases htask

/-- A task that has a usable delay ahead goes on behind it. -/
theorem exists_goes {id : FutureId} {next : Program} {d : Delay} (hd : ∀ e, d ≠ .unusable e) :
    ∃ sch, s.scheduler.Goes id next d sch ∧
      follow id ((delay d next).run s) = { s with scheduler := sch } := by
  cases d with
  | pause => exact ⟨_, .pause, rfl⟩
  | timer microseconds => exact ⟨_, .sleep microseconds, rfl⟩
  | unusable e => exact absurd rfl (hd e)

/-- A task that ends in its turn was not asked to cancel. -/
theorem endTask_awaken (rest : List (Job Action)) (id : FutureId) :
    (s.awaken rest id).scheduler.endTask id = (s.awaken rest id).scheduler.complete id (.ok ()) := by
  have hmust : (s.awaken rest id).scheduler.mustCancel id = false := by
    rw [Scheduler.mustCancel, Session.awaken, Scheduler.awaken, Scheduler.task?_modifyTask, if_pos rfl]
    cases (s.scheduler.drop rest).task? id <;> rfl
  rw [Scheduler.endTask, hmust]
  rfl

/-- A task that takes its turn changes no ending. -/
theorem ending?_awaken (rest : List (Job Action)) (id c : FutureId) :
    (s.awaken rest id).scheduler.ending? c = s.scheduler.ending? c :=
  Scheduler.ending?_modifyTask _

/-- A visit that is interrupted when its children have ended asks nothing to cancel. -/
theorem run_join_ended {children : List FutureId} {i : Interrupt}
    (hended : ∀ c ∈ children, s.scheduler.ending? c ≠ none) :
    (join children (some i)).run s = (.error i, s) := by
  simp only [join, run_bind, run_schedule, Scheduler.cancelEach_of_ended hended]
  rfl

section Turn

variable {job : Job Action} {rest : List (Job Action)} {id : FutureId} {v : Visit}
  (hready : s.scheduler.ready = job :: rest) (htask : job.task? = some id)

include hready htask

/-- The first turn of a visit is a move. -/
theorem move_of_enter (hhooks : p.hooks = []) (hdwell : ∀ e, p.dwell ≠ .unusable e)
    (hprogram : s.scheduler.program? id = some (.enter v))
    (hcalm : s.scheduler.interrupt? id job = none) :
    Move p s (follow id ((enter p v).run (s.awaken rest id))) := by
  by_cases hdepth : p.maxDepth < v.depth
  · rw [run_enter_deep hdepth]
    exact .deep hready htask hprogram hcalm hdepth
  · rw [run_enter hhooks hdepth]
    obtain ⟨sch, hgoes, heq⟩ := @exists_goes ((s.awaken rest id).activate p v) id (.leave v) p.dwell hdwell
    rw [heq]
    rw [Session.scheduler_activate] at hgoes
    exact .enter hready htask hprogram hcalm hdepth hgoes

/-- The turn of a visit after its dwelling is a move. -/
theorem move_of_leave (hhooks : p.hooks = []) (hedge : ∀ e, p.edgeDelay ≠ .unusable e)
    (hprogram : s.scheduler.program? id = some (.leave v))
    (hcalm : s.scheduler.interrupt? id job = none) :
    Move p s (follow id ((leave p v).run (s.awaken rest id))) := by
  by_cases hleaf : v.graph.targets v.node.id = []
  · rw [run_leave_leaf hhooks hleaf]
    have heq : follow id (.ok .over, (s.awaken rest id).clear p v) =
        { (s.awaken rest id).clear p v with
          scheduler := (s.awaken rest id).scheduler.complete id (.ok ()) } := by
      simp only [follow, Session.scheduler_clear, endTask_awaken]
    rw [heq]
    exact .leaf hready htask hprogram hcalm hleaf
  · rw [run_leave hhooks hleaf]
    obtain ⟨sch, hgoes, heq⟩ := @exists_goes ((s.awaken rest id).clear p v) id (.fanOut v) p.edgeDelay hedge
    rw [heq]
    rw [Session.scheduler_clear] at hgoes
    exact .leave hready htask hprogram hcalm hleaf hgoes

/-- The turn in which a visit branches is a move. -/
theorem move_of_fanOut (hhooks : p.hooks = []) (hprogram : s.scheduler.program? id = some (.fanOut v))
    (hcalm : s.scheduler.interrupt? id job = none) :
    Move p s (follow id ((fanOut p v).run (s.awaken rest id))) := by
  rw [run_fanOut hhooks]
  exact .fork hready htask hprogram hcalm

/-- The turn in which a visit ends behind those that follow it is a move. -/
theorem move_of_join {children : List FutureId}
    (hprogram : s.scheduler.program? id = some (.join v children))
    (hended : s.scheduler.interrupt? id job ≠ none → ∀ c ∈ children, s.scheduler.ending? c ≠ none) :
    Move p s (follow id ((join children (s.scheduler.interrupt? id job)).run (s.awaken rest id))) := by
  cases hin : s.scheduler.interrupt? id job with
  | none =>
    have heq : follow id ((join children none).run (s.awaken rest id)) =
        { s with scheduler := (s.awaken rest id).scheduler.complete id (.ok ()) } := by
      change { s with scheduler := (s.awaken rest id).scheduler.endTask id } = _
      rw [endTask_awaken]
    rw [heq]
    exact .join hready htask hprogram hin
  | some i =>
    have hchildren := hended (hin ▸ Option.some_ne_none i)
    rw [run_join_ended fun c hc => (ending?_awaken rest id c).symm ▸ hchildren c hc]
    exact .abandon hready htask hprogram hin hchildren

/-- The turn in which a caller concludes its run is a move, unless the engine was asked to cancel it. -/
theorem move_of_conclude (hhooks : p.hooks = []) {caller : Nat}
    (hprogram : s.scheduler.program? id = some (.conclude caller))
    (hrunning : s.machine.status = .running)
    (hnot : s.scheduler.interrupt? id job = some .cancelled → s.cancelRequested = false) :
    Move p s (follow id ((turn p (.conclude caller) (s.scheduler.interrupt? id job)).run
      (s.awaken rest id))) := by
  have hmove := Move.conclude (p := p) hready htask hprogram hrunning hnot
  have hawake : (s.awaken rest id).machine.status = .running := hrunning
  have hend : ∀ verdict entry,
      ((({ s.awaken rest id with run := none }).close p verdict).note entry).scheduler.endTask id =
        (s.awaken rest id).scheduler.complete id (.ok ()) := by
    intro verdict entry
    change (Session.close p verdict _).scheduler.endTask id = _
    rw [Session.scheduler_close]
    exact endTask_awaken rest id
  cases hin : s.scheduler.interrupt? id job with
  | none =>
    rw [hin] at hmove
    have hrun : (turn p (.conclude caller) none).run (s.awaken rest id) =
        (.ok .over, (({ s.awaken rest id with run := none }).close p .finished).note
          (.result caller .returned)) := by
      simp only [turn, settle, conclude, ExceptT.run_mk, run_bind, run_modify, run_pure]
      rw [run_finish hhooks (s := { s.awaken rest id with run := none }) hawake]
    rw [hrun, follow, hend]
    exact hmove
  | some i =>
    cases i with
    | cancelled =>
      rw [hin] at hmove
      have hflag : ((s.awaken rest id).close p .cancelled).cancelRequested = false :=
        Session.cancelRequested_close.trans (hnot hin)
      have hrun : (turn p (.conclude caller) (some .cancelled)).run (s.awaken rest id) =
          (.ok .over, (({ s.awaken rest id with run := none }).close p .cancelled).note
            (.result caller .cancelled)) := by
        simp only [turn, settle, conclude, forgetRun, ExceptT.run_mk, run_bind, run_get,
          run_finish hhooks hawake, hflag]
        rw [Session.close_forget]
        rfl
      rw [hrun, follow, hend]
      exact hmove
    | fault f =>
      rw [hin] at hmove
      have hrun : (turn p (.conclude caller) (some (.fault f))).run (s.awaken rest id) =
          (.ok .over, (({ s.awaken rest id with run := none }).close p (.failed f.message)).note
            (.result caller (.failed f))) := by
        simp only [turn, settle, conclude, forgetRun, ExceptT.run_mk, run_bind, run_fail, run_finish hhooks hawake]
        rw [Session.close_forget]
        rfl
      rw [hrun, follow, hend]
      exact hmove

end Turn

/-- A step is a move while one run is under way and nothing is asked from outside. -/
theorem move_of_step (hhooks : p.hooks = []) (hdwell : ∀ e, p.dwell ≠ .unusable e)
    (hedge : ∀ e, p.edgeDelay ≠ .unusable e)
    (hact : ∀ a rest, s.scheduler.ready ≠ .act a :: rest)
    (hprogram : ∀ job rest id, s.scheduler.ready = job :: rest → job.task? = some id →
      (∃ v pr, s.scheduler.program? id = some pr ∧
        (pr = .enter v ∨ pr = .leave v ∨ pr = .fanOut v ∨ ∃ children, pr = .join v children ∧
          (s.scheduler.interrupt? id job ≠ none → ∀ c ∈ children, s.scheduler.ending? c ≠ none))) ∨
      ∃ caller, s.scheduler.program? id = some (.conclude caller) ∧ s.machine.status = .running ∧
        (s.scheduler.interrupt? id job = some .cancelled → s.cancelRequested = false))
    (h : step? p s = some s') : Move p s s' := by
  cases hready : s.scheduler.ready with
  | nil =>
    simp only [step?, hready] at h
    obtain ⟨sch, hadvance, rfl⟩ := Option.map_eq_some_iff.1 h
    exact .advance hready hadvance
  | cons job rest =>
    simp only [step?, hready, Option.some.injEq] at h
    subst h
    cases htask : job.task? with
    | none =>
      cases job with
      | resume | wake => cases htask
      | count g c => exact .count hready
      | elapse x => exact .elapse hready
      | act a => exact absurd hready (hact a rest)
    | some id =>
      change Move p s (perform p { s with scheduler := s.scheduler.drop rest } job)
      rcases hprogram job rest id hready htask with ⟨v, pr, hpr, hv⟩ | ⟨caller, hpr, hrunning, hnot⟩
      · rw [perform_eq_follow job rest htask hpr]
        rcases hv with rfl | rfl | rfl | ⟨children, rfl, hended⟩
        · cases hin : s.scheduler.interrupt? id job with
          | none => exact move_of_enter hready htask hhooks hdwell hpr hin
          | some i => exact .halt hready htask hpr (Or.inl rfl) hin
        · cases hin : s.scheduler.interrupt? id job with
          | none => exact move_of_leave hready htask hhooks hedge hpr hin
          | some i => exact .halt hready htask hpr (Or.inr (Or.inl rfl)) hin
        · cases hin : s.scheduler.interrupt? id job with
          | none => exact move_of_fanOut hready htask hhooks hpr hin
          | some i => exact .halt hready htask hpr (Or.inr (Or.inr rfl)) hin
        · exact move_of_join hready htask hpr hended
      · rw [perform_eq_follow job rest htask hpr]
        exact move_of_conclude hready htask hhooks hpr hrunning hnot

end Engine

end PipelineGraph.Simulation
