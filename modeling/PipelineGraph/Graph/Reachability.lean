import PipelineGraph.Graph.Flow

/-!
# Downstream nodes

The nodes downstream of a node are found in breadth first: a queue holds the consumers that wait
for their turn, and each round takes the first one that was not found before. A round finds one
node, so there are at most as many rounds as nodes.
-/

namespace PipelineGraph.FlowGraph

/-- The nodes found after at most a given number of further rounds. -/
def explore (consumers : Text → List Text) : Nat → (found queue : List Text) → List Text
  | 0, found, _ => found
  | rounds + 1, found, queue =>
    match queue.dropWhile (· ∈ found) with
    | [] => found
    | id :: rest => explore consumers rounds (found ++ [id]) (rest ++ consumers id)

/-- The nodes that a walk of one edge or more between different nodes reaches from a node. -/
def downstream (g : FlowGraph) (id : Text) : List Text :=
  explore g.consumers g.nodes.length [] (g.consumers id)

end PipelineGraph.FlowGraph
