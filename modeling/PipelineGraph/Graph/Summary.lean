import PipelineGraph.Graph.Flow

/-!
# One line about a graph

The summary counts the nodes, the nodes of each kind in the order in which the kinds first
occur, the edges that connect nodes, and the dangling edges if there are any.
-/

namespace PipelineGraph.Snapshot

/-- The count of each kind that occurs. -/
def kindCounts (s : Snapshot) : List (NodeKind × Nat) :=
  let kinds := s.nodes.map (·.kind)
  (firstOccurrences kinds).map fun kind => (kind, kinds.count kind)

/-- The counted kinds in words. -/
def kindsText (s : Snapshot) : Text :=
  Text.join ", " (s.kindCounts.map fun (kind, count) => Text.ofNat count ++ " " ++ kind.name)

/-- The note about a number of dangling edges. -/
def danglingText (count : Nat) : Text :=
  if count = 0 then [] else ", " ++ Text.ofNat count ++ " dangling"

/-- The summary of a graph. -/
def summary (s : Snapshot) : Text :=
  let valid := s.flow.edges.length
  "Graph[" ++ Text.ofNat s.nodes.length ++ " nodes (" ++ s.kindsText ++ "), " ++
    Text.ofNat valid ++ " edges" ++ danglingText (s.edges.length - valid) ++ "]"

end PipelineGraph.Snapshot
