import PipelineGraph.Simulation.Engine

/-!
# Timetables

A timetable lists actions with the times at which they are taken. Its session begins with one
timer for each action and goes on until nothing is left to do.

The steps of a session are bounded. A graph that is visited has no cycle in reach, so the visits
of a run are walks that repeat no node, of which there are at most `(e + 1) ^ (n + 1)` for `e`
edges and `n` nodes. A visit takes at most ten steps: its turns, the timers of its two delays
with the moves of the clock, its gathering, and the counting of its own end. An action takes at
most four.
-/

namespace PipelineGraph.Simulation

/-- Actions with the times at which they are taken, in microseconds. -/
abbrev Timetable := List (Nat × Action)

/-- A bound on the visits that an action leads to. -/
def Action.visitBound : Action → Nat
  | .simulate (.ok graph) => Nat.pow (graph.edges.length + 1) (graph.nodes.length + 1)
  | _ => 0

/-- A bound on the steps that an action leads to. -/
def Action.stepBound (action : Action) : Nat :=
  10 * action.visitBound + 4

namespace Timetable

/-- A bound on the steps of a session. -/
def stepBound (table : Timetable) : Nat :=
  table.foldr (fun (_, action) rest => action.stepBound + rest) 0

/-- The session before its first step. -/
def begin (table : Timetable) : Session where
  scheduler := table.foldl (fun s (time, action) => s.setTimer time (.act action)) {}

/-- The session after its last step. -/
def play (table : Timetable) (p : Plan) : Session :=
  Engine.run p table.stepBound table.begin

end Timetable

namespace Session

/-- Whether the trace holds the result of a caller. -/
def isAnswered (s : Session) (caller : Nat) : Bool :=
  s.trace.any fun
    | (_, .result c _) => c = caller
    | _ => false

/-- The session with a result also for each caller that never started. -/
def answerAll (s : Session) : Session :=
  ((List.range s.callers.length).filter fun caller => !s.isAnswered caller).foldl
    (fun s caller => s.note (.result caller .neverStarted)) s

end Session

end PipelineGraph.Simulation
