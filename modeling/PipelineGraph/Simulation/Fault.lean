import PipelineGraph.Graph.Snapshot
import PipelineGraph.Simulation.Delay
import PipelineGraph.Simulation.Machine

/-!
# How work ends

Work that is awaited ends with success or is interrupted: it was cancelled, or a fault stopped
it.
-/

namespace PipelineGraph.Simulation

/-- What stops a simulation. -/
inductive Fault where
  | graph (e : LoadError)
  | transition (e : TransitionError)
  /-- A cycle that the simulation would walk for ever. -/
  | cycle (nodes : List Text)
  /-- A node too deep for the simulation. -/
  | depth (node : Text) (greatest : Int)
  /-- A delay that cannot be waited for. -/
  | delay (e : DelayError)
  /-- A listener to events failed. -/
  | listener

/-- The fault of a request to cancel that goes too deep, which is that of a value too deep to be copied. -/
def Fault.tooDeep : Fault := .graph (.capture .tooDeep)

/-- Nodes in the order of a walk. -/
def walkText (nodes : List Text) : Text :=
  Text.join " -> " nodes

/-- The message of a fault. -/
def Fault.message : Fault → Text
  | graph e => e.message
  | transition e => e.message
  | cycle nodes => "Cycle detected: " ++ walkText nodes
  | depth node greatest =>
    "Traversal exceeded max depth " ++ Text.ofInt greatest ++ " at node '" ++ node ++ "'"
  | delay e => e.message
  | listener => "hook"

/-- What keeps work from success. -/
inductive Interrupt where
  | cancelled
  | fault (f : Fault)

/-- How work ends. -/
abbrev Ending := Except Interrupt Unit

/-- What an ending does to who waits for it. -/
def Ending.interrupt? : Ending → Option Interrupt
  | .ok () => none
  | .error i => some i

end PipelineGraph.Simulation
