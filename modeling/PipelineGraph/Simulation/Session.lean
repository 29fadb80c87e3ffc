import PipelineGraph.Graph.Summary
import PipelineGraph.Simulation.Delay
import PipelineGraph.Simulation.Scheduler

/-!
# Sessions

A session is what one engine goes through: its machine, the run under way, the callers that have
asked for a simulation, and what is written down about all this with the time at which it
happened. What callers and visits do next is a program, and what is asked of the engine from
outside is an action.
-/

namespace PipelineGraph.Simulation

/-- How a run comes to its end. -/
inductive Verdict where
  | finished
  | cancelled
  | failed (reason : Text)
deriving DecidableEq

/-- The status that a verdict leads to. -/
def Verdict.status : Verdict → RunStatus
  | finished => .finished
  | cancelled => .cancelled
  | failed _ => .failed

/-- What is told to listeners of a run. -/
inductive Event where
  | started (summary : Text)
  | cycleDetected (cycle : List Text)
  | nodeActive (node : Node) (depth : Nat)
  | nodeCleared (id : Text)
  | fanOut (id : Text) (targets : List Text)
  | ended (verdict : Verdict)

/-- The name of an event. -/
def Event.name : Event → Text
  | started _ => "simulation_started"
  | cycleDetected _ => "cycle_detected"
  | nodeActive _ _ => "node_active"
  | nodeCleared _ => "node_cleared"
  | fanOut _ _ => "fan_out"
  | ended verdict => "simulation_" ++ verdict.status.name

/-- How a request for a simulation ends. -/
inductive CallResult where
  | returned
  | cancelled
  | failed (f : Fault)
  /-- The caller was cancelled before its first turn. -/
  | neverStarted

/-- The result that an ending gives. -/
def CallResult.ofEnding : Ending → CallResult
  | .ok () => returned
  | .error .cancelled => cancelled
  | .error (.fault f) => failed f

/-- A line of a session's trace. -/
inductive Entry where
  | state (change : Change)
  | event (e : Event)
  /-- The engine was asked to cancel its run. -/
  | cancel (granted : Bool)
  /-- A caller was cancelled, if there was one. -/
  | callerCancel (granted : Option Bool)
  | probe (status : RunStatus) (active : Option Text)
  | result (caller : Nat) (r : CallResult)

/-- What is asked of an engine from outside. -/
inductive Action where
  | simulate (graph : Except LoadError Snapshot)
  | cancel
  /-- Cancel a caller by its number, or the latest one. -/
  | cancelCaller (caller : Option Int)
  | probe

/-- What a listener does once it has noted an event. -/
inductive Hook where
  | cancel
  | cancelCaller
  | fail
deriving DecidableEq

/-- How an engine works: its delays, its greatest depth, and who listens. -/
structure Plan where
  dwell : Delay
  edgeDelay : Delay
  maxDepth : Int
  /-- What the listener does at some events, by their numbers over the whole session. -/
  hooks : List (Nat × Hook) := []
  /-- Whether there is a listener. -/
  listens : Bool := true

/-- A visit of a node at the end of a walk of some length. -/
structure Visit where
  graph : FlowGraph
  node : Node
  depth : Nat

/-- What a task does when its next turn comes. -/
inductive Program where
  /-- Make the node of a visit active. -/
  | enter (v : Visit)
  /-- Clear the node of a visit after its dwelling. -/
  | leave (v : Visit)
  /-- Visit what follows once the edges are crossed. -/
  | fanOut (v : Visit)
  /-- End a visit when those that follow it, the children, have ended. -/
  | join (v : Visit) (children : List FutureId)
  /-- Begin a simulation for a caller. -/
  | call (caller : Nat) (graph : Except LoadError Snapshot)
  /-- Conclude a simulation for a caller when its run has ended. -/
  | conclude (caller : Nat)

/-- What one engine goes through. -/
structure Session where
  scheduler : Scheduler Program Action := {}
  machine : Machine := {}
  /-- The task of the run under way. -/
  run : Option FutureId := none
  /-- Whether the engine was asked to cancel that run. -/
  cancelRequested : Bool := false
  /-- The tasks of the callers, by their numbers. -/
  callers : List FutureId := []
  /-- How many events there were. -/
  emitted : Nat := 0
  /-- What happened, with the time. -/
  trace : List (Nat × Entry) := []
  logs : List LogRecord := []

namespace Session

/-- The task of a caller; a number below zero is that of no caller. -/
def caller? (s : Session) (caller : Int) : Option FutureId :=
  if caller < 0 then none else s.callers[caller.toNat]?

/-- Write an entry to the trace. -/
def note (s : Session) (entry : Entry) : Session :=
  { s with trace := s.trace ++ [(s.scheduler.now, entry)] }

/-- Write records to the log. -/
def log (s : Session) (records : List LogRecord) : Session :=
  { s with logs := s.logs ++ records }

/-- Take over a change of the machine: it is logged and written to the trace. -/
def change (s : Session) (c : Change) (machine : Machine) : Session :=
  ({ s with machine := machine }.log [c.report]).note (.state c)

/-- Show a node as active, or none. -/
def setActive (s : Session) (id : Option Text) : Session :=
  let (c, machine) := s.machine.setActive id
  s.change c machine

/-- Ask the engine to cancel its run; a run that is over is not cancelled. -/
def cancelRun (s : Session) : Reply × Session :=
  match s.run with
  | none => (.refused, s)
  | some task =>
    if s.scheduler.hasEnded task then (.refused, s)
    else
      let s := s.log [⟨.info, "[Engine] Cancellation requested"⟩]
      let (reply, scheduler) := s.scheduler.cancel task
      (reply, { s with cancelRequested := true, scheduler := scheduler })

/-- Ask the engine to cancel its run, and write down the answer; a request that goes too deep has none. -/
def noteCancelRun (s : Session) : Reply × Session :=
  match s.cancelRun with
  | (.tooDeep, s) => (.tooDeep, s)
  | (reply, s) => (reply, s.note (.cancel reply.isTaken))

/-- Cancel the task of a caller, if there is one, and write down the answer. -/
def noteCancelCaller (s : Session) (task : Option FutureId) : Reply × Session :=
  match task with
  | none => (.refused, s.note (.callerCancel none))
  | some task =>
    match s.scheduler.cancel task with
    | (.tooDeep, scheduler) => (.tooDeep, { s with scheduler := scheduler })
    | (reply, scheduler) =>
      (reply, { s with scheduler := scheduler }.note (.callerCancel (some reply.isTaken)))

end Session

end PipelineGraph.Simulation
