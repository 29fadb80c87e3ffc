import PipelineGraph.Graph.Cycle
import Mathlib.Data.Finset.Basic

/-!
# Finding a cycle with a stack

A search that keeps its own stack holds the open nodes with the edges it has not followed yet, their
path, the nodes on the path as a set, and the finished nodes as a set. One round follows an edge,
comes back from a node, or goes on to the next root.
-/

namespace PipelineGraph

/-- The state of the search between two rounds. -/
structure CycleLoop where
  /-- The roots that are still to be tried. -/
  roots : List Text
  /-- The open nodes, the innermost one first, with the edges that are still to be followed. -/
  stack : List (Text × List Edge) := []
  /-- The open nodes from the root to the innermost one. -/
  path : List Text := []
  onPath : Finset Text := ∅
  finished : Finset Text := ∅

namespace CycleLoop

/-- The state before the first round of a search from a node, or from all nodes. -/
def ofStart (g : FlowGraph) (start : Option Text) : CycleLoop where
  roots := match start with
    | some id => [id]
    | none => g.ids

/-- A round: the next state, or the result. -/
def step (g : FlowGraph) (s : CycleLoop) : CycleLoop ⊕ Option (List Text) :=
  match s.stack with
  | [] =>
    match s.roots with
    | [] => .inr none
    | root :: roots =>
      if root ∈ s.finished ∨ root ∉ g.ids then .inl { s with roots }
      else .inl { s with roots, stack := [(root, g.outgoing root)], path := [root], onPath := {root} }
  | (id, []) :: stack =>
    .inl { s with
      stack
      path := s.path.dropLast
      onPath := s.onPath.erase id
      finished := insert id s.finished }
  | (id, e :: edges) :: stack =>
    if e.target ∈ s.onPath then .inr (some (s.path.drop (s.path.idxOf e.target) ++ [e.target]))
    else if e.target ∈ s.finished then .inl { s with stack := (id, edges) :: stack }
    else .inl { s with
      stack := (e.target, g.outgoing e.target) :: (id, edges) :: stack
      path := s.path ++ [e.target]
      onPath := insert e.target s.onPath }

/-- The loop comes from a state to a result in finitely many rounds. -/
inductive Returns (g : FlowGraph) : CycleLoop → Option (List Text) → Prop
  | stop {s : CycleLoop} {result : Option (List Text)} (h : s.step g = .inr result) : Returns g s result
  | next {s : CycleLoop} {result : Option (List Text)} (next : CycleLoop) (h : s.step g = .inl next)
      (hrest : Returns g next result) : Returns g s result

end CycleLoop

end PipelineGraph
