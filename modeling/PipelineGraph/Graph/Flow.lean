import PipelineGraph.Graph.Snapshot
import PipelineGraph.Log

/-!
# The flow graph of a snapshot

The flow graph keeps the nodes of a snapshot and those of its edges whose two ends are nodes;
the other edges dangle and are reported, end by end. Everything that follows edges works on the
flow graph, so a dangling edge changes no answer.

A node consumes another if an edge between different nodes leads to it. Consumers and producers
are listed once each, in the order of their first edges, while the edges that leave a node are
all kept, parallel ones and loops included.
-/

namespace PipelineGraph

/-- A graph whose edges connect its nodes. -/
structure FlowGraph where
  nodes : List Node
  edges : List Edge
  /-- No two nodes share an id. -/
  distinct : (nodes.map (·.id)).Nodup
  /-- Each end of an edge is a node. -/
  closed : ∀ e ∈ edges, e.source ∈ nodes.map (·.id) ∧ e.target ∈ nodes.map (·.id)

namespace Snapshot

/-- Whether both ends of an edge are nodes. -/
def connects (s : Snapshot) (e : Edge) : Bool :=
  decide (e.source ∈ s.ids ∧ e.target ∈ s.ids)

/-- The flow graph of a snapshot. -/
def flow (s : Snapshot) : FlowGraph where
  nodes := s.nodes
  edges := s.edges.filter s.connects
  distinct := s.distinct
  closed e he := by simpa [connects, ids] using (List.mem_filter.1 he).2

/-- The report of an end of an edge that is no node. -/
def danglingEnd (s : Snapshot) (e : Edge) (role : Text) (id : Text) : List LogRecord :=
  if id ∈ s.ids then []
  else [⟨.warning, "[Graph] Edge " ++ e.id ++ ": " ++ role ++ " '" ++ id ++ "' not found in nodes"⟩]

/-- The reports of all ends that are no nodes, edge by edge, the source first. -/
def danglingReports (s : Snapshot) : List LogRecord :=
  s.edges.flatMap fun e =>
    s.danglingEnd e "source" e.source ++ s.danglingEnd e "target" e.target

end Snapshot

/-- The elements of a list without those that stand earlier in it. -/
def firstOccurrences {α : Type} [DecidableEq α] : List α → List α
  | [] => []
  | a :: rest => a :: (firstOccurrences rest).filter (· ≠ a)

namespace FlowGraph

/-- The ids of the nodes. -/
def ids (g : FlowGraph) : List Text :=
  g.nodes.map (·.id)

/-- The node with a given id. -/
def node? (g : FlowGraph) (id : Text) : Option Node :=
  g.nodes.find? fun n => n.id = id

/-- The node where a simulation starts: the first trigger, or else the first node. -/
def start? (g : FlowGraph) : Option Node :=
  (g.nodes.find? fun n => n.kind = .trigger) <|> g.nodes.head?

/-- The edges that leave a node. -/
def outgoing (g : FlowGraph) (id : Text) : List Edge :=
  g.edges.filter fun e => e.source = id

/-- The ends of the edges that leave a node, edge by edge. -/
def targets (g : FlowGraph) (id : Text) : List Text :=
  (g.outgoing id).map (·.target)

/-- The other nodes to which edges lead from a node. -/
def consumers (g : FlowGraph) (id : Text) : List Text :=
  firstOccurrences ((g.targets id).filter (· ≠ id))

/-- The other nodes from which edges lead to a node. -/
def producers (g : FlowGraph) (id : Text) : List Text :=
  firstOccurrences
    (((g.edges.filter fun e => e.target = id).map (·.source)).filter (· ≠ id))

/-- The nodes that no other node consumes. -/
def sinks (g : FlowGraph) : List Text :=
  g.ids.filter fun id => (g.consumers id).isEmpty

end FlowGraph

end PipelineGraph
