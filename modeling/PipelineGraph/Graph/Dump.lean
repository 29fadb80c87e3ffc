import PipelineGraph.Document

/-!
# Full dumps

A dump is a snapshot as a value with nothing left out: positions and animation stay, which a
pipeline document drops. Every node is dumped flat, and every entry is already in the form that
capturing gives it.

Whatever a snapshot holds, its dump is a value. To serialize a snapshot is to have its dump written
out, which goes only so many levels into the entries of a config, as in a pipeline document.
-/

namespace PipelineGraph

/-- The coordinates of a position. -/
def Position.dump (p : Position) : Value :=
  .object [("x", .float p.x), ("y", .float p.y)]

/-- A node with all its fields. -/
def Node.dump (n : Node) : Value :=
  .object
    [("id", .text n.id), ("type", .text n.kind.name), ("label", .text n.label),
      ("config", .object n.config), ("position", n.position.dump)]

/-- An edge with all its fields. -/
def Edge.dump (e : Edge) : Value :=
  .object
    [("id", .text e.id), ("source", .text e.source), ("target", .text e.target),
      ("animated", .bool e.animated)]

/-- A snapshot with all its nodes and edges, in order. -/
def Snapshot.dump (s : Snapshot) : Value :=
  .object [("nodes", .list (s.nodes.map Node.dump)), ("edges", .list (s.edges.map Edge.dump))]

/-- Whether no entry of a node's config has more levels than are serialized. -/
def Node.canSerialize (n : Node) : Bool :=
  n.config.all fun (_, value) => value.levels ≤ maxDocumentDepth

/-- The dump of a snapshot, if it can be serialized. -/
def Snapshot.serialize (s : Snapshot) : Except DocumentError Value :=
  if s.nodes.all Node.canSerialize then .ok s.dump else .error .tooDeep

end PipelineGraph
