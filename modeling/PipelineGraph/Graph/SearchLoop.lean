import PipelineGraph.Graph.Reachability
import Mathlib.Data.Finset.Basic
import Mathlib.Logic.Function.Iterate

/-!
# Downstream nodes with a queue

A search that keeps its own queue holds the visited nodes as a set, those that wait for their turn, and
those that were found in their order. One turn takes a node from the queue and drops it or visits it.
-/

namespace PipelineGraph

/-- The state of the search between two turns of its loop. -/
structure SearchLoop where
  visited : Finset Text := ∅
  queue : List Text
  /-- The visited nodes, in the order of their visits. -/
  found : List Text := []

namespace SearchLoop

/-- The state before the first turn of a search from a node. -/
def ofStart (g : FlowGraph) (u : Text) : SearchLoop where
  queue := g.consumers u

/-- A turn takes the first node of the queue and drops it if it was visited; without one, it is idle. -/
def turn (g : FlowGraph) (s : SearchLoop) : SearchLoop :=
  match s.queue with
  | [] => s
  | id :: rest =>
    if id ∈ s.visited then { s with queue := rest }
    else ⟨insert id s.visited, rest ++ g.consumers id, s.found ++ [id]⟩

/-- The loop comes in finitely many turns to an empty queue, and has found some nodes then. -/
def EndsWith (g : FlowGraph) (s : SearchLoop) (found : List Text) : Prop :=
  ∃ turns, ((turn g)^[turns] s).queue = [] ∧ ((turn g)^[turns] s).found = found

end SearchLoop

end PipelineGraph
