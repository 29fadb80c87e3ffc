import PipelineGraph.Graph.Flow

/-!
# The order of nodes

Nodes are placed one after another. Every node counts those of its producers that are not placed
yet, and a node whose count is zero is ready. In each round the ready node that stands first in
the snapshot is placed, which lowers the counts of its consumers by one. When no node is ready,
what is left lies on cycles or behind them. A round places one node, so there are at most as many
rounds as nodes.
-/

namespace PipelineGraph

/-- How far the nodes of a graph are placed. -/
structure Placing where
  /-- For each node, how many of its producers are not placed. -/
  waiting : List (Text × Nat)
  /-- The positions of the nodes that are ready, in increasing order. -/
  ready : List Nat
  /-- The placed nodes in the order of their placing. -/
  placed : List Text

/-- Increasing positions with one more among them. -/
def insertPosition (position : Nat) : List Nat → List Nat
  | [] => [position]
  | first :: rest =>
    if position < first then position :: first :: rest else first :: insertPosition position rest

namespace Placing

/-- How many producers of a node are not placed. -/
def count (p : Placing) (id : Text) : Nat :=
  (p.waiting.lookup id).getD 0

/-- Lower the count of a node by one. -/
def lower (p : Placing) (id : Text) : Placing :=
  { p with waiting := p.waiting.map fun (key, n) => (key, if key = id then n - 1 else n) }

/-- Take note that one more producer of a node is placed; the node may be ready then. -/
def release (ids : List Text) (p : Placing) (id : Text) : Placing :=
  let lowered := p.lower id
  if lowered.count id = 0 then
    { lowered with ready := insertPosition (ids.idxOf id) lowered.ready }
  else lowered

end Placing

namespace FlowGraph

/-- The nodes before the first one is placed. -/
def unplaced (g : FlowGraph) : Placing :=
  let consumed := g.ids.flatMap g.consumers
  { waiting := g.ids.map fun id => (id, consumed.count id)
    ready := (g.ids.zipIdx.filter fun (id, _) => consumed.count id = 0).map (·.2)
    placed := [] }

/-- The nodes after at most a given number of further rounds. -/
def place (g : FlowGraph) : (rounds : Nat) → Placing → Placing
  | 0, p => p
  | rounds + 1, p =>
    match p.ready with
    | [] => p
    | position :: rest =>
      match g.ids[position]? with
      | none => p
      | some id =>
        place g rounds ((g.consumers id).foldl (Placing.release g.ids)
          { p with ready := rest, placed := p.placed ++ [id] })

/-- The nodes after the last round. -/
def placing (g : FlowGraph) : Placing :=
  g.place g.nodes.length g.unplaced

/-- The nodes that can be placed behind their producers, in the order of their placing. -/
def order (g : FlowGraph) : List Text :=
  g.placing.placed

/-- The nodes that cannot be placed, in snapshot order. -/
def leftover (g : FlowGraph) : List Text :=
  let placing := g.placing
  g.ids.filter fun id => 0 < placing.count id

/-- All nodes: first those that can be placed, then the others. -/
def sequence (g : FlowGraph) : List Text :=
  g.order ++ g.leftover

/-- The report of nodes that cannot be placed. -/
def leftoverReport (g : FlowGraph) : List LogRecord :=
  let rest := g.leftover
  if rest.isEmpty then []
  else [⟨.warning, "[Graph] Cycle detected! " ++ .ofNat rest.length ++
    " node(s) could not be ordered: " ++ .quotedList rest⟩]

end FlowGraph

end PipelineGraph
