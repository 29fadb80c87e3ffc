import PipelineGraph.Graph.Order
import PipelineGraph.Graph.Summary
import PipelineGraph.Simulation.Session

/-!
# What the console shows

The console shows texts with markup between brackets, tables, and panels of code. A line of a
simulation is shown for each event that says something new to the user.
-/

namespace PipelineGraph.CommandLine

/-- The languages of code in panels. -/
inductive CodeLanguage where
  | json
  | script
deriving DecidableEq

/-- Something that is shown, or a setting of what is shown. -/
inductive Output where
  /-- Which log records are shown: all of them, or those that warn. -/
  | logging (verbose : Bool)
  | text (t : Text)
  | table (title : Text) (headers : List Text) (rows : List (List Text))
  | panel (language : CodeLanguage) (code : Text)

namespace CodeLanguage

/-- The title of a panel. -/
def title : CodeLanguage → Text
  | json => "[bold blue]Pipeline Schema (JSON)[/bold blue]"
  | script => "[bold green]Python Script (LangChain)[/bold green]"

/-- The colour of a panel's border. -/
def border : CodeLanguage → Text
  | json => "blue"
  | script => "green"

/-- The name of a language. -/
def name : CodeLanguage → Text
  | json => "JSON"
  | script => "Python"

end CodeLanguage

/-- A text in a style. -/
def styled (style t : Text) : Text :=
  "[" ++ style ++ "]" ++ t ++ "[/" ++ style ++ "]"

/-- The style of a kind. -/
def kindStyle : NodeKind → Text
  | .trigger => "bold green"
  | .processing => "bold blue"
  | .data => "bold magenta"
  | .logic => "bold yellow"
  | .action => "bold red"

/-- The headers of the overview. -/
def overviewHeaders : List Text :=
  ["#", "ID", "Kind", "Label", "Consumers"]

/-- The row of a node in the overview. -/
def overviewRow (g : FlowGraph) (n : Node) (number : Nat) : List Text :=
  [Text.ofNat number, n.id, styled (kindStyle n.kind) n.kind.name, n.label,
    Text.join ", " (g.consumers n.id)]

/-- The overview of a graph: its nodes in the order in which they can be placed. -/
def overview (s : Snapshot) : Output :=
  let g := s.flow
  .table s.summary overviewHeaders
    (((g.sequence.filterMap g.node?).zipIdx 1).map fun (n, number) => overviewRow g n number)

/-- The line for a node that becomes active, indented by its depth. -/
def nodeLine (n : Node) (depth : Nat) : Text :=
  let title := if n.label = [] then n.id else n.label
  List.replicate (2 * depth) (CodePoint.ofChar ' ') ++ styled (kindStyle n.kind) "●" ++ " " ++
    title ++ " " ++ styled "dim" ("(" ++ n.id ++ ", " ++ n.kind.name ++ ")")

open Simulation in
/-- The line that an event is shown by, if it is shown. -/
def eventLine? : Event → Option Text
  | .started summary =>
    some ("\n[bold cyan]>>> Simulation started[/bold cyan] " ++ styled "dim" summary)
  | .nodeActive n depth => some (nodeLine n depth)
  | .nodeCleared _ => none
  | .fanOut id targets =>
    if 1 < targets.length then
      some (styled "dim" ("  fan-out " ++ id ++ " -> " ++ Text.join ", " targets))
    else none
  | .cycleDetected cycle => some ("[red]Cycle detected:[/red] " ++ walkText cycle)
  | .ended .finished => some "[bold green]>>> Simulation finished[/bold green]"
  | .ended .cancelled => some "[yellow]>>> Simulation cancelled[/yellow]"
  | .ended (.failed reason) => some ("[red]>>> Simulation failed:[/red] " ++ reason)

end PipelineGraph.CommandLine
