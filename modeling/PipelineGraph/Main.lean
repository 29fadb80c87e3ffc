import PipelineGraph.CommandLine.Command

/-!
# The program

The program reads its arguments, its environment and the graph file, and shows the report of the
command line. Outputs of a simulation are shown at their times.
-/

namespace PipelineGraph.CommandLine

/-- The string of a text; a surrogate, which no string holds, becomes a replacement character. -/
def displayString (t : Text) : String :=
  String.ofList (t.map fun c => c.toChar?.getD '\uFFFD')

/-- The variables of the environment that replace defaults. -/
def environmentNames : List String :=
  ["SIM_NODE_DWELL_MS", "SIM_EDGE_DELAY_MS", "SIM_MAX_DEPTH", "DEFAULT_LLM_MODEL",
    "DEFAULT_LLM_TEMPERATURE", "DEFAULT_CHUNK_SIZE", "DEFAULT_VECTOR_INDEX",
    "DEFAULT_VECTOR_TOP_K", "DEFAULT_SLACK_CHANNEL", "DEFAULT_EMAIL_SUBJECT", "EXPORT_JSON_INDENT"]

/-- The environment of the program. -/
def readEnvironment : IO Environment :=
  environmentNames.filterMapM fun name => do
    return (← IO.getEnv name).map fun value => (Text.ofString name, Text.ofString value)

/-- What a path leads to, if it leads anywhere. -/
def readEntry (path : String) : IO Files := do
  try
    return [(path, .file (← IO.FS.readBinFile path).toList)]
  catch
    | .inappropriateType .. => return [(path, .directory)]
    | _ => return []

/-- The lines of an output. -/
def outputLines : Output → List Text
  | .logging _ => []
  | .text t => [t]
  | .table title headers rows => title :: (headers :: rows).map (Text.join "  ")
  | .panel language code => [language.title, code]

/-- Show outputs, each at its time. -/
def showOutputs (now : Nat) : List (Nat × Output) → IO Unit
  | [] => return
  | (time, output) :: rest => do
    if now < time then IO.sleep ((time - now) / 1000).toUInt32
    (outputLines output).forM fun line => IO.println (displayString line)
    (← IO.getStdout).flush
    showOutputs time rest

/-- Show the log records that warn, or all of them. -/
def showLogs (verbose : Bool) (logs : List LogRecord) : IO Unit :=
  logs.forM fun r =>
    if verbose || r.level = .warning || r.level = .error then
      IO.eprintln (displayString r.line)
    else return

/-- Show a message and give the exit code of a failure. -/
def refuse (message : Text) : IO UInt32 := do
  IO.eprintln (displayString message)
  return 1

/-- Run a command line; the answer is the exit code. -/
def execute (arguments : List String) : IO UInt32 := do
  match (← readEnvironment).defaults with
  | .error e => refuse e.message
  | .ok defaults =>
    let texts := arguments.map Text.ofString
    let files ← match (Arguments.ofList texts).positional[1]? with
      | some path => readEntry (displayString path)
      | none => pure []
    let r := report defaults files none texts
    showOutputs 0 r.output
    showLogs (isVerbose texts) r.logs
    match r.exit with
    | .code n => return n.toUInt32
    | .fault f => refuse f.message
    | .noDocument e => refuse e.message

end PipelineGraph.CommandLine

/-- Run the command line. -/
def main (arguments : List String) : IO UInt32 :=
  PipelineGraph.CommandLine.execute arguments
