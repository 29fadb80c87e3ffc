import PipelineGraph.Log
import PipelineGraph.Text.Quoted

/-!
# The state of simulations

A machine holds the status of the run, the node that is shown as active, and the history of all
changes to the two. The status only moves along the successors of each status, so a run cannot
begin while another one is under way. The active node may change at any time.

A machine may be watched. Each change is shown to the watcher once it is in the history; a
watcher that fails leaves a log record and nothing else.
-/

namespace PipelineGraph.Simulation

/-- The status of a run. -/
inductive RunStatus where
  | idle
  | running
  | finished
  | cancelled
  | failed
deriving DecidableEq

namespace RunStatus

/-- All statuses. -/
def all : List RunStatus :=
  [idle, running, finished, cancelled, failed]

/-- The name of a status. -/
def name : RunStatus → Text
  | idle => "idle"
  | running => "running"
  | finished => "finished"
  | cancelled => "cancelled"
  | failed => "failed"

/-- The status with a given name. -/
def ofName? (t : Text) : Option RunStatus :=
  all.find? fun status => status.name = t

/-- The statuses that may follow a status. -/
def successors : RunStatus → List RunStatus
  | running => [finished, cancelled, failed]
  | _ => [running]

/-- The message about a value, given by its literal, that names no status. -/
def unknownMessage (literal : Text) : Text :=
  literal ++ " is not a valid RunStatus"

end RunStatus

/-- What a change changes. -/
inductive StateField where
  | status
  | active
deriving DecidableEq

/-- The name of a field in records of changes. -/
def StateField.name : StateField → Text
  | status => "status"
  | active => "active_node_id"

/-- A change of a field from an old value to a new one. -/
structure Change where
  field : StateField
  old : Option Text
  new : Option Text
deriving DecidableEq

namespace Change

/-- The text of a value in log messages. -/
def valueText (value : Option Text) : Text :=
  value.getD "None"

/-- The log record of a change. -/
def report (c : Change) : LogRecord :=
  let subject : Text := match c.field with
    | .status => "status"
    | .active => "active"
  ⟨.debug, "[SM] " ++ subject ++ ": " ++ valueText c.old ++ " -> " ++ valueText c.new⟩

end Change

/-- A status that may not follow the present one. -/
structure TransitionError where
  source : RunStatus
  target : RunStatus
deriving DecidableEq

/-- The message of an error; it lists the statuses that may follow, by name. -/
def TransitionError.message (e : TransitionError) : Text :=
  "Simulation cannot transition from " ++ e.source.name ++ " to " ++ e.target.name ++
    ". Valid targets: " ++ Text.quotedList (Text.sort (e.source.successors.map (·.name)))

/-- The state of simulations with its history. -/
structure Machine where
  status : RunStatus := .idle
  active : Option Text := none
  history : List Change := []
deriving DecidableEq

namespace Machine

/-- Whether a run is under way. -/
def isRunning (m : Machine) : Bool :=
  m.status = .running

/-- Whether a status may follow the present one. -/
def allows (m : Machine) (target : RunStatus) : Bool :=
  target ∈ m.status.successors

/-- Move to another status: the change, and the machine behind it. -/
def transition (m : Machine) (target : RunStatus) : Except TransitionError (Change × Machine) :=
  if m.allows target then
    let change : Change := ⟨.status, some m.status.name, some target.name⟩
    .ok (change, { m with status := target, history := m.history ++ [change] })
  else .error ⟨m.status, target⟩

/-- Show a node as active, or none: the change, and the machine behind it. -/
def setActive (m : Machine) (id : Option Text) : Change × Machine :=
  let change : Change := ⟨.active, m.active, id⟩
  (change, { m with active := id, history := m.history ++ [change] })

/-- The values that the active node took. -/
def activeHistory (m : Machine) : List (Option Text) :=
  (m.history.filter (·.field = .active)).map (·.new)

end Machine

/-- Who watches a machine. -/
inductive Watcher where
  | nobody
  /-- Takes note of each change, and then fails or not, by all that was seen so far. -/
  | somebody (fails : List Change → Bool)

namespace Watcher

/-- Takes note of each change. -/
def attentive : Watcher :=
  somebody fun _ => false

/-- Takes note of each change and then fails. -/
def failing : Watcher :=
  somebody fun _ => true

end Watcher

/-- A machine with its watcher, what the watcher has seen, and the log. -/
structure WatchedMachine where
  watcher : Watcher
  machine : Machine := {}
  seen : List Change := []
  logs : List LogRecord := []

namespace WatchedMachine

/-- The log record of a watcher that fails. -/
def failureReport : LogRecord :=
  ⟨.error, "[SM] on_transition callback failed"⟩

/-- Show a change that led to a machine. -/
def tell (w : WatchedMachine) (change : Change) (machine : Machine) : WatchedMachine :=
  match w.watcher with
  | .nobody => { w with machine := machine, logs := w.logs ++ [change.report] }
  | .somebody fails =>
    let seen := w.seen ++ [change]
    { w with
      machine := machine
      seen := seen
      logs := w.logs ++ change.report :: (if fails seen then [failureReport] else []) }

/-- Move to another status. -/
def transition (w : WatchedMachine) (target : RunStatus) :
    Except TransitionError WatchedMachine := do
  let (change, machine) ← w.machine.transition target
  return w.tell change machine

/-- Show a node as active, or none. -/
def setActive (w : WatchedMachine) (id : Option Text) : WatchedMachine :=
  let (change, machine) := w.machine.setActive id
  w.tell change machine

end WatchedMachine

end PipelineGraph.Simulation
