import PipelineGraph.Json.Value

/-!
# Nodes

A pipeline graph is drawn from nodes of five kinds. The label is what a person reads, the config
holds the node's settings as they were entered, and the position only matters to a canvas.
-/

namespace PipelineGraph

/-- The kinds of nodes. -/
inductive NodeKind where
  /-- An entry of the pipeline: chat input, web hook, file upload. -/
  | trigger
  /-- A step of work: model call, text splitting, scraping. -/
  | processing
  /-- A store of data. -/
  | data
  /-- A branch. -/
  | logic
  /-- An effect at the end of the pipeline: mail, message, answer. -/
  | action
deriving DecidableEq

namespace NodeKind

/-- The kinds in the order in which messages list them. -/
def all : List NodeKind :=
  [trigger, processing, data, logic, action]

/-- The name of a kind. -/
def name : NodeKind → Text
  | trigger => "trigger"
  | processing => "processing"
  | data => "data"
  | logic => "logic"
  | action => "action"

/-- The kind with a given name. -/
def ofName? (t : Text) : Option NodeKind :=
  all.find? fun kind => kind.name = t

end NodeKind

/-- Coordinates on a canvas. -/
structure Position where
  x : Binary64
  y : Binary64
deriving DecidableEq

/-- The position of a node that gives none. -/
def Position.origin : Position :=
  ⟨.signedZero false, .signedZero false⟩

/-- A node of a pipeline graph. -/
structure Node where
  id : Text
  kind : NodeKind
  label : Text
  config : Fields
  position : Position

/-- A directed edge between two nodes, which are named by their ids. -/
structure Edge where
  id : Text
  source : Text
  target : Text
  /-- Only drawing takes note of it. -/
  animated : Bool
deriving DecidableEq

end PipelineGraph
