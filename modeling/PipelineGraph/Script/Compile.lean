import PipelineGraph.Graph.Order
import PipelineGraph.Graph.Summary
import PipelineGraph.Script.Block
import PipelineGraph.Script.Names
import PipelineGraph.Text.Blank

/-!
# From a graph to a script

Edges become the flow of data: a block reads the variables of its node's producers. Blocks come
in the order of the nodes, so every producer of an ordered node comes before it. A node on a
cycle, or behind one, may stand before a producer; such a producer is left out of its input and
reported, and no variable is read before it is assigned.

All nodes get their variables before any auxiliary variable is named, so a node's variable does
not depend on what other blocks need.
-/

namespace PipelineGraph

namespace Script

/-- The block of a node: what it is made from, and what its role makes of that. -/
structure Block where
  context : BlockContext
  fragment : Fragment

end Script

/-- A script as its parts. -/
structure Script where
  nodeCount : Nat
  edgeCount : Nat
  blocks : List Script.Block
  /-- The nodes whose values the script returns, with their variables. -/
  results : List (Text × Text)

namespace Script

/-- Nodes with their variables. -/
abbrev Variables := List (Text × Text)

/-- The variable of a node. -/
def Variables.of (vars : Variables) (id : Text) : Text :=
  (vars.lookup id).getD []

/-- The report of producers that come after a node. -/
def droppedReport (id : Text) (dropped : List Text) : List LogRecord :=
  if dropped.isEmpty then []
  else [⟨.warning, "[Compiler] Node " ++ id ++ ": dropping reference(s) to " ++
    Text.quotedList dropped ++ " (cycle, not yet defined)"⟩]

/-- The auxiliary variable for a node's block, and the names behind it. -/
def claimAuxiliary (names : Names) (n : Node) (output : Text) : Text × Names :=
  match auxiliaryEnding? n.role with
  | some ending => names.claim (output ++ "_" ++ ending)
  | none => ([], names)

/-- The blocks of some nodes behind those already emitted, and the notes that go with them. -/
def blocksFrom (d : Defaults) (g : FlowGraph) (vars : Variables) :
    Names → (emitted : List Text) → List Node → List Block × List LogRecord
  | _, _, [] => ([], [])
  | names, emitted, n :: rest =>
    let producers := g.producers n.id
    let available := producers.filter (· ∈ emitted)
    let output := vars.of n.id
    let (auxiliary, names) := claimAuxiliary names n output
    let context : BlockContext := ⟨n, output, available.map vars.of, auxiliary⟩
    let (blocks, notes) := blocksFrom d g vars names (n.id :: emitted) rest
    (⟨context, context.fragment d⟩ :: blocks,
      droppedReport n.id (producers.filter (· ∉ emitted)) ++ n.settingsNotes (n.settings d) ++ notes)

/-- The base of each node's variable. -/
def variableBases (g : FlowGraph) : List (Text × Text) :=
  g.nodes.zipIdx.map fun (n, position) => (n.id, variableBase n.id n.label position)

/-- The variables of the nodes of a sequence, and the names behind them. -/
def claimVariables (g : FlowGraph) (sequence : List Text) : Variables × Names :=
  let bases := variableBases g
  let (names, after) :=
    Names.claimAll ⟨reservedNames⟩ (sequence.map fun id => (bases.lookup id).getD [])
  (sequence.zip names, after)

/-- The script of a graph, and the notes made on the way. -/
def compile (d : Defaults) (s : Snapshot) : Script × List LogRecord :=
  let g := s.flow
  let sequence := g.sequence
  let (vars, names) := claimVariables g sequence
  let (blocks, notes) := blocksFrom d g vars names [] (sequence.filterMap g.node?)
  (⟨g.nodes.length, g.edges.length, blocks, g.sinks.map fun id => (id, vars.of id)⟩,
    s.danglingReports ++ g.leftoverReport ++ notes ++
      [⟨.debug, "[Compiler] Script compiled: " ++ s.summary⟩])

/-! ## The text of a script -/

/-- A text on one line: its words with single blanks, and escapes for what cannot be printed. -/
def oneLine (t : Text) : Text :=
  (Text.join " " t.words).flatMap fun c => if Text.isPrintable c then [c] else Text.escape c

namespace Block

/-- The comment that marks a block. -/
def marker (b : Block) : Text :=
  let n := b.context.node
  let label : Text := if oneLine n.label = [] then "(unnamed)" else oneLine n.label
  "# [" ++ n.kind.name ++ "] " ++ label ++ " (" ++ oneLine n.id ++ ")"

/-- The lines of a block. -/
def lines (b : Block) : List Text :=
  b.marker :: b.fragment.statements.flatMap Statement.lines

end Block

/-- The helpers that a script declares. -/
def helpers (s : Script) : List Helper :=
  Helper.close (s.blocks.flatMap (·.fragment.helpers))

/-- What a script imports, for its blocks and for its helpers. -/
def imports (s : Script) : List Import :=
  s.blocks.flatMap (·.fragment.imports) ++ s.helpers.flatMap Helper.imports

/-- The lines that return the results. -/
def returnLines (s : Script) : List Text :=
  if s.results.isEmpty then ["return \x7b\x7d"]
  else
    (if s.blocks.isEmpty then [] else [[]]) ++ [Text.ofString "return \x7b"] ++
      (s.results.map fun (id, x) => indented (id.quoted ++ ": " ++ x ++ ",")) ++
      [Text.ofString "\x7d"]

/-- The lines of the function that runs the pipeline; a blank line divides the blocks. -/
def body (s : Script) : List Text :=
  [([] : Text)].intercalate (s.blocks.map Block.lines) ++ s.returnLines

/-- The lines of the script's description. -/
def description (s : Script) : List Text :=
  ["\"\"\"",
    "Pipeline script exported by NeuroFlow.",
    "",
    "Graph: " ++ Text.ofNat s.nodeCount ++ " nodes, " ++ Text.ofNat s.edgeCount ++ " edges.",
    "Call run_pipeline(inputs) with a mapping of trigger node id -> input value.",
    "\"\"\"",
    ""]

/-- The lines of the imports, with a blank line behind them. -/
def importLines (s : Script) : List Text :=
  let lines := Import.lines s.imports
  if lines.isEmpty then [] else lines ++ [[]]

/-- The lines that run the pipeline when the script is the main program. -/
def closing : List Text :=
  ["", "", "if __name__ == \"__main__\":", "    print(run_pipeline(\x7b\x7d))", ""]

/-- The lines of a script. -/
def lines (s : Script) : List Text :=
  s.description ++ s.importLines ++
    (s.helpers.flatMap fun helper => [] :: helper.source ++ [[]]) ++
    [[], Text.ofString "def run_pipeline(inputs: dict) -> dict:"] ++
    (s.body.map fun line => if line.isEmpty then line else indented line) ++
    closing

/-- The text of a script. -/
def text (s : Script) : Text :=
  Text.join "\n" s.lines

end Script

end PipelineGraph
