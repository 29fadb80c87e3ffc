import PipelineGraph.Graph.Cycle
import PipelineGraph.Simulation.Session

/-!
# The engine

A simulation walks a graph from its start node and does no work on the way. A visit makes its
node active, dwells, clears the node, waits for the edges, and then visits all targets at the
same time, one visit for each edge; it ends when these have ended. If one of them is interrupted
or the visit itself is cancelled, all of them are cancelled.

A graph with a cycle in reach of the start node is refused before the first visit, and a visit
beyond the greatest depth is a fault. Whatever interrupts the run, the engine first clears the
active node, then moves the machine to the status of the verdict, and then tells its listener.
-/

namespace PipelineGraph.Simulation

/-- A step of a program: it changes the session, and it may be interrupted. -/
abbrev Act := ExceptT Interrupt (StateM Session)

namespace Act

/-- Write a record to the log. -/
def log (level : LogLevel) (message : Text) : Act Unit :=
  modify fun s => s.log [⟨level, message⟩]

/-- Stop with a fault. -/
def fail {α : Type} (f : Fault) : Act α :=
  throw (.fault f)

/-- Stop if a request to cancel has gone too deep. -/
def checkReply (reply : Reply) : Act Unit :=
  if reply = .tooDeep then fail .tooDeep else pure ()

/-- Do what a listener does once it has noted an event. -/
def react : Hook → Act Unit
  | .cancel => do checkReply (← modifyGet fun s => s.noteCancelRun)
  | .cancelCaller => do checkReply (← modifyGet fun s => s.noteCancelCaller s.callers.getLast?)
  | .fail => fail .listener

/-- Tell the listener of an event; who does not listen does not count events either. -/
def emit (p : Plan) (e : Event) : Act Unit := do
  if p.listens then
    let number := (← get).emitted
    modify fun s => { s.note (.event e) with emitted := number + 1 }
    match p.hooks.lookup number with
    | some hook => react hook
    | none => pure ()

/-- Show a node as active, or none. -/
def setActive (id : Option Text) : Act Unit :=
  modify fun s => s.setActive id

/-- Move the machine to another status. -/
def transition (target : RunStatus) : Act Unit := do
  match (← get).machine.transition target with
  | .ok (c, machine) => modify fun s => s.change c machine
  | .error e => fail (.transition e)

/-- Bring a run to its end with a verdict. -/
def finish (p : Plan) (verdict : Verdict) : Act Unit := do
  if (← get).machine.active.isSome then setActive none
  transition verdict.status
  emit p (.ended verdict)
  log .info ("[Engine] Simulation " ++ verdict.status.name)

/-- Forget the run, whatever came of an act. -/
def forgetRun (act : Act Unit) : Act Unit :=
  ExceptT.mk fun s =>
    let (result, s) := act.run s
    (result, { s with run := none })

/-- Use the scheduler for something that gives a number. -/
def schedule {α : Type} (f : Scheduler Program Action → α × Scheduler Program Action) : Act α :=
  modifyGet fun s =>
    let (a, scheduler) := f s.scheduler
    (a, { s with scheduler := scheduler })

end Act

/-- How a task goes on after a turn. -/
inductive Progress where
  /-- The program has come to its end. -/
  | over
  /-- The task takes its next turn behind the jobs that are queued. -/
  | pause (next : Program)
  /-- The task waits for a future. -/
  | wait (source : FutureId) (next : Program)

namespace Engine

open Act

/-- Wait for a delay. -/
def delay (d : Delay) (next : Program) : Act Progress := do
  match d with
  | .pause => return .pause next
  | .timer microseconds => return .wait (← schedule (·.sleep microseconds)) next
  | .unusable e => fail (.delay e)

/-! ## Visits -/

/-- Make the node of a visit active. -/
def enter (p : Plan) (v : Visit) : Act Progress := do
  if p.maxDepth < v.depth then fail (.depth v.node.id p.maxDepth)
  setActive (some v.node.id)
  emit p (.nodeActive v.node v.depth)
  log .info ("[Engine] Node " ++ v.node.id ++ " (" ++ v.node.label ++ ") active")
  delay p.dwell (.leave v)

/-- Clear the node of a visit; a node without outgoing edges ends it. -/
def leave (p : Plan) (v : Visit) : Act Progress := do
  setActive none
  emit p (.nodeCleared v.node.id)
  if (v.graph.outgoing v.node.id).isEmpty then return .over
  delay p.edgeDelay (.fanOut v)

/-- The visits that follow a visit, one for each outgoing edge. -/
def followers (v : Visit) : List Visit :=
  ((v.graph.targets v.node.id).filterMap v.graph.node?).map fun node =>
    { v with node := node, depth := v.depth + 1 }

/-- Begin the visits that follow, and wait for all of them. -/
def fanOut (p : Plan) (v : Visit) : Act Progress := do
  let targets := v.graph.targets v.node.id
  emit p (.fanOut v.node.id targets)
  if 1 < targets.length then
    log .debug ("[Engine] Fan-out " ++ v.node.id ++ " -> " ++ Text.quotedList targets)
  let children ← schedule (·.spawnAll ((followers v).map .enter))
  return .wait (← schedule (·.gather children)) (.join v children)

/-- End a visit as those that follow it have ended. -/
def join (children : List FutureId) : Option Interrupt → Act Progress
  | none => return .over
  | some i => do
    checkReply (← schedule (·.cancelEach children))
    throw i

/-! ## Simulations -/

/-- Begin a simulation: the task of its run, or none if there is nothing to visit. -/
def begin (p : Plan) : Except LoadError Snapshot → Act (Option FutureId)
  | .error e => fail (.graph e)
  | .ok graph => do
    let flow := graph.flow
    modify fun s => s.log graph.danglingReports
    transition .running
    modify fun s => { s with cancelRequested := false }
    emit p (.started graph.summary)
    log .info ("[Engine] Simulation started. " ++ graph.summary)
    match flow.start? with
    | none =>
      log .info "[Engine] Empty graph, nothing to simulate"
      finish p .finished
      return none
    | some node =>
      match flow.findCycle? (some node.id) with
      | some cycle =>
        log .error ("[Engine] Cycle reachable from start node " ++ node.id ++ ": " ++ walkText cycle)
        emit p (.cycleDetected cycle)
        finish p (.failed "cycle")
        fail (.cycle cycle)
      | none =>
        let task ← schedule (·.spawn (.enter ⟨flow, node, 0⟩))
        modify fun s => { s with run := some task }
        return some task

/-- Conclude a simulation as its run has ended. A cancellation that the engine was asked for is
no interruption of the caller. -/
def conclude (p : Plan) : Option Interrupt → Act Unit
  | none => do
    modify fun s => { s with run := none }
    finish p .finished
  | some .cancelled => forgetRun do
    finish p .cancelled
    if !(← get).cancelRequested then throw .cancelled
  | some (.fault f) => forgetRun do
    finish p (.failed f.message)
    fail f

/-- Write down how a request for a simulation ended, if it did. -/
def settle (caller : Nat) (next : Program) (act : Act (Option FutureId)) : Act Progress :=
  ExceptT.mk fun s =>
    match act.run s with
    | (.ok (some task), s) => (.ok (.wait task next), s)
    | (.ok none, s) => (.ok .over, s.note (.result caller .returned))
    | (.error i, s) => (.ok .over, s.note (.result caller (.ofEnding (.error i))))

/-! ## Turns -/

/-- A turn of a program. A program that has not begun does not begin when it is interrupted. -/
def turn (p : Plan) : Program → Option Interrupt → Act Progress
  | .enter v, none => enter p v
  | .leave v, none => leave p v
  | .fanOut v, none => fanOut p v
  | .join _ children, i => join children i
  | .call caller graph, none => settle caller (.conclude caller) (begin p graph)
  | .conclude caller, i => settle caller (.conclude caller) do
    conclude p i
    return none
  | _, some i => throw i

/-- Do with a task what came of its turn. -/
def follow (id : FutureId) : Except Interrupt Progress × Session → Session
  | (.ok .over, s) => { s with scheduler := s.scheduler.endTask id }
  | (.ok (.pause next), s) =>
    { s with
      scheduler := (s.scheduler.modifyTask id fun t => { t with program := next }).push (.resume id) }
  | (.ok (.wait source next), s) =>
    { s with
      scheduler := (s.scheduler.modifyTask id fun t => { t with program := next }).await id source }
  | (.error i, s) => { s with scheduler := s.scheduler.complete id (.error i) }

/-- Let a task go on: it waits for nothing and sees a request to cancel it. -/
def resume (p : Plan) (id : FutureId) (i : Option Interrupt) (s : Session) : Session :=
  match s.scheduler.task? id with
  | none => s
  | some task =>
    let i := if task.mustCancel then some .cancelled else i
    let awake := s.scheduler.modifyTask id fun t => { t with mustCancel := false, waiter := none }
    follow id ((turn p task.program i).run { s with scheduler := awake })

/-- Do what is asked from outside. -/
def act (s : Session) : Action → Session
  | .simulate graph =>
    let (task, scheduler) := s.scheduler.spawn (.call s.callers.length graph)
    { s with scheduler := scheduler, callers := s.callers ++ [task] }
  | .cancel => s.noteCancelRun.2
  | .cancelCaller none => (s.noteCancelCaller s.callers.getLast?).2
  | .cancelCaller (some caller) => (s.noteCancelCaller (s.caller? caller)).2
  | .probe => s.note (.probe s.machine.status s.machine.active)

/-- Do a job. -/
def perform (p : Plan) (s : Session) : Job Action → Session
  | .resume task => resume p task none s
  | .wake task source => resume p task ((s.scheduler.ending? source).bind Ending.interrupt?) s
  | .count gathering child =>
    { s with scheduler := s.scheduler.countChild gathering child }
  | .elapse sleep => { s with scheduler := s.scheduler.complete sleep (.ok ()) }
  | .act action => act s action

/-- Do the first job of the queue, or move the clock if there is none. -/
def step? (p : Plan) (s : Session) : Option Session :=
  match s.scheduler.ready with
  | job :: rest => some (perform p { s with scheduler := { s.scheduler with ready := rest } } job)
  | [] => s.scheduler.advance?.map fun scheduler => { s with scheduler := scheduler }

/-- Go on until nothing is left to do, for at most a number of steps. -/
def run (p : Plan) : (steps : Nat) → Session → Session
  | 0, s => s
  | steps + 1, s =>
    match step? p s with
    | some s => run p steps s
    | none => s

end Engine

end PipelineGraph.Simulation
