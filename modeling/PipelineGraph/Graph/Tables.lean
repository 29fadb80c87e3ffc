import PipelineGraph.Graph.Flow

/-!
# Tables of neighbours

The edges, producers and consumers of all nodes can be listed in one pass over the edges of a flow graph:
each edge is entered under its source, and its ends under each other unless they are one node or stand
there already.
-/

namespace PipelineGraph

/-- Lists under the ids of nodes. -/
abbrev Table (A : Type) := List (Text × List A)

namespace Table

variable {A : Type}

/-- The list under an id; there is none under an id that is no node's. -/
def of (t : Table A) (id : Text) : List A :=
  (t.lookup id).getD []

/-- Empty lists under ids. -/
def empty (ids : List Text) : Table A :=
  ids.map fun id => (id, [])

/-- One more element at the end of the list under an id. -/
def enter (t : Table A) (id : Text) (a : A) : Table A :=
  t.map fun (key, items) => (key, if key = id then items ++ [a] else items)

/-- An element is entered unless it stands there. -/
def enterOnce [DecidableEq A] (t : Table A) (id : Text) (a : A) : Table A :=
  if a ∈ t.of id then t else t.enter id a

end Table

/-- The edges that leave each node, and the nodes before and behind it. -/
structure Tables where
  outgoing : Table Edge
  producers : Table Text
  consumers : Table Text

/-- The tables with one more edge; a loop makes no node its own neighbour. -/
def Tables.add (t : Tables) (e : Edge) : Tables :=
  let outgoing := t.outgoing.enter e.source e
  if e.source = e.target then { t with outgoing }
  else ⟨outgoing, t.producers.enterOnce e.target e.source, t.consumers.enterOnce e.source e.target⟩

/-- The tables of a flow graph, edge by edge. -/
def FlowGraph.tables (g : FlowGraph) : Tables :=
  g.edges.foldl Tables.add ⟨.empty g.ids, .empty g.ids, .empty g.ids⟩

end PipelineGraph
