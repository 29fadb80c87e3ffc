import PipelineGraph.Graph.Flow

/-!
# Finding a cycle

The search walks along edges in depth first, edge by edge in their order. An edge back to a node
of the current path closes a cycle, which is the search's result; a node from which the search
has come back without one is finished and is not entered again. A path holds no node twice, so
the number of nodes bounds its length.
-/

namespace PipelineGraph.FlowGraph

/--
The finished nodes after searching from a node, or a cycle with its first node repeated at the
end. `path` leads to the node and `room` bounds how many more nodes it can take.
-/
def searchFrom (targets : Text → List Text) :
    (room : Nat) → (path finished : List Text) → Text → Except (List Text) (List Text)
  | 0, _, finished, _ => .ok finished
  | room + 1, path, finished, id => do
    let path := path ++ [id]
    let finished ← (targets id).foldlM (fun finished target =>
      if target ∈ path then .error (path.dropWhile (· ≠ target) ++ [target])
      else if target ∈ finished then .ok finished
      else searchFrom targets room path finished target) finished
    return id :: finished

/-- The finished nodes after searching from each of some roots, or a cycle. -/
def searchRoots (g : FlowGraph) (roots : List Text) : Except (List Text) (List Text) :=
  roots.foldlM (fun finished root =>
    if root ∈ finished ∨ root ∉ g.ids then .ok finished
    else searchFrom g.targets g.nodes.length [] finished root) []

/-- A cycle that can be reached from a node, or from any node if none is given. -/
def findCycle? (g : FlowGraph) (start : Option Text) : Option (List Text) :=
  match g.searchRoots (match start with | some id => [id] | none => g.ids) with
  | .error cycle => some cycle
  | .ok _ => none

end PipelineGraph.FlowGraph
