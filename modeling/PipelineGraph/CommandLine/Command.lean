import PipelineGraph.CommandLine.Arguments
import PipelineGraph.CommandLine.Console
import PipelineGraph.CommandLine.GraphFile
import PipelineGraph.Document
import PipelineGraph.Script.Compile
import PipelineGraph.Simulation.Timetable

/-!
# Commands

`simulate` plays a graph and shows what happens; `export` shows its document, its script, or
both. A command line gives a report: what is shown and when, the log, and the exit. Whatever is
wrong with the arguments or the file is shown and gives an exit code; a value that cannot be read
at all ends the command with its fault, and so do delays and documents that do not exist.

An interruption at some time cancels the simulation. It comes before anything else that is due
at that time.
-/

namespace PipelineGraph.CommandLine

open Simulation

/-- How a command ends. -/
inductive Exit where
  | code (n : Nat)
  | fault (f : Fault)
  /-- The graph has no document. -/
  | noDocument (e : DocumentError)

/-- What a command line leads to. -/
structure Report where
  /-- What is shown, with the time at which it is, in microseconds. -/
  output : List (Nat × Output)
  logs : List LogRecord := []
  exit : Exit

/-- What is shown when no command is given. -/
def usage : Text :=
  Text.join "\n"
    ["",
      "NeuroFlow - Command line entry point.",
      "NeuroFlow —— 命令行入口。",
      "",
      "Runs the core outside the visual editor: simulate a pipeline graph with a",
      "live activity log, or print its export artifacts.",
      "在可视化编辑器之外运行核心功能：模拟流水线图并实时打印节点活动，或输出导出产物。",
      "",
      "Usage / 用法:",
      "    python main.py simulate [graph.json] [--fast] [-v]",
      "    python main.py export   [graph.json] [--format json|python|both]",
      "",
      "Without a graph file the editor's demo graph is used.",
      "未指定图文件时使用编辑器自带的演示图。",
      ""]

/-! ## Simulating -/

/-- How a simulation works on the command line; a fast one takes a tenth of the time. -/
def plan (d : Defaults) (fast : Bool) : Except DelayError Plan := do
  let delay := if fast then Delay.ofTenth else Delay.ofMilliseconds
  return {
    dwell := ← delay (.whole d.dwell)
    edgeDelay := ← delay (.whole d.edgeDelay)
    maxDepth := d.maxDepth }

/-- The session of one caller, with an interruption at some time. -/
def session (p : Plan) (s : Snapshot) (interruption : Option Nat) : Session :=
  let call : Action := .simulate (.ok s)
  let begun := Engine.act {} call
  let begun :=
    match interruption with
    | none => begun
    | some time =>
      { begun with scheduler := begun.scheduler.setTimer time (.act (.cancelCaller none)) }
  Engine.run p (call.stepBound + (Action.cancelCaller none).stepBound) begun

/-- The lines that a session is shown by. -/
def sessionOutput (s : Session) : List (Nat × Output) :=
  s.trace.filterMap fun (time, entry) =>
    match entry with
    | .event e => (eventLine? e).map fun line => (time, .text line)
    | _ => none

/-- How a session's only call ended. -/
def sessionResult (s : Session) : CallResult :=
  (s.trace.findSome? fun (_, entry) =>
    match entry with
    | .result _ r => some r
    | _ => none).getD .neverStarted

/-- The exit after a simulation, and what is shown before it. -/
def conclusion (time : Nat) : CallResult → List (Nat × Output) × Exit
  | .returned => ([], .code 0)
  | .failed (.cycle _) => ([], .code 1)
  | .failed (.depth _ _) => ([], .code 1)
  | .failed f => ([], .fault f)
  | _ => ([(time, .text "\n[yellow]Simulation interrupted.[/yellow]")], .code 130)

/-- A report of nothing but a fault. -/
def Report.fault (f : Fault) : Report :=
  { output := [], exit := .fault f }

/-- Simulate a graph; nothing is shown if a delay is out of range. -/
def simulate (d : Defaults) (s : Snapshot) (fast : Bool) (interruption : Option Nat) : Report :=
  match plan d fast with
  | .error e => .fault (.delay e)
  | .ok p =>
    let played := session p s interruption
    let (last, exit) := conclusion played.scheduler.now (sessionResult played)
    { output := (0, overview s) :: sessionOutput played ++ last
      logs := s.danglingReports ++ s.flow.leftoverReport ++ played.logs
      exit := exit }

/-! ## Exporting -/

/-- What can be exported. -/
inductive ExportFormat where
  | json
  | script
  | both
deriving DecidableEq

/-- The format with a given name. -/
def ExportFormat.ofName? (t : Text) : Option ExportFormat :=
  if t = Text.ofString "json" then some json
  else if t = Text.ofString "python" then some script
  else if t = Text.ofString "both" then some both
  else none

/-- Whether a format has a document. -/
def ExportFormat.hasDocument : ExportFormat → Bool
  | script => false
  | _ => true

/-- Whether a format has a script. -/
def ExportFormat.hasScript : ExportFormat → Bool
  | json => false
  | _ => true

/-- The panels with the document of a graph. -/
def documentPanels (d : Defaults) (s : Snapshot) : Except DocumentError (List Output) :=
  (s.documentText d.jsonIndent).map fun t => [.panel .json t]

/-- Export a graph, the document before the script; nothing is shown if there is no document. -/
def exportGraph (d : Defaults) (s : Snapshot) (format : ExportFormat) : Report :=
  match if format.hasDocument then documentPanels d s else .ok [] with
  | .error e => { output := [], exit := .noDocument e }
  | .ok panels =>
    let (script, notes) := Script.compile d s
    let (panels, logs) :=
      if format.hasScript then (panels ++ [.panel .script script.text], notes) else (panels, [])
    { output := panels.map (0, ·), logs := logs, exit := .code 0 }

/-! ## Command lines -/

/-- The commands. -/
inductive Command where
  | simulating
  | exporting
deriving DecidableEq

/-- The command with a given name. -/
def Command.ofName? (t : Text) : Option Command :=
  if t = Text.ofString "simulate" then some simulating
  else if t = Text.ofString "export" then some exporting
  else none

/-- A report that is one text and an exit code. -/
def Report.message (t : Text) (code : Nat) : Report :=
  { output := [(0, .text t)], exit := .code code }

/-- The report about a graph that is not loaded. -/
def loadReport (e : GraphFileError) : Report :=
  match e, e.isReport with
  | .notGraph f, false => .fault (.graph f)
  | _, _ => .message ("[red]Cannot load graph:[/red] " ++ e.message) 1

/-- The report of a command for a graph. -/
def Command.run (command : Command) (d : Defaults) (s : Snapshot) (arguments : List Text)
    (format : Text) (interruption : Option Nat) : Report :=
  match command with
  | .simulating => simulate d s (arguments.contains "--fast") interruption
  | .exporting =>
    match ExportFormat.ofName? format with
    | some format => exportGraph d s format
    | none => .message ("[red]Unknown format:[/red] " ++ format) 2

/-- Whether all log records are shown. -/
def isVerbose (arguments : List Text) : Bool :=
  arguments.contains "--verbose" || arguments.contains "-v"

/-- The report of a command line, before the setting of the log. -/
def dispatch (d : Defaults) (files : Files) (interruption : Option Nat) (arguments : List Text) :
    Report :=
  let parsed := Arguments.ofList arguments
  match parsed.positional.head?.bind Command.ofName? with
  | none => .message usage 2
  | some command =>
    match loadGraph files parsed.positional[1]? with
    | .error e => loadReport e
    | .ok s => command.run d s arguments (parsed.format.getD "both") interruption

/-- The report of a command line. -/
def report (d : Defaults) (files : Files) (interruption : Option Nat) (arguments : List Text) :
    Report :=
  let r := dispatch d files interruption arguments
  { r with output := (0, .logging (isVerbose arguments)) :: r.output }

end PipelineGraph.CommandLine
