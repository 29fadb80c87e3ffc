import PipelineGraph.Number.Integer
import PipelineGraph.Text.Quoted

/-!
# Defaults

What a graph leaves open is filled in from defaults: how long a simulation dwells, how deep it
may go, and the settings of nodes that give none. Each default may be replaced by a variable of
the environment; the variables are read in the order of the fields, and the first one that
cannot be read is reported.
-/

namespace PipelineGraph

/-- The values that fill in what a graph leaves open. -/
structure Defaults where
  /-- How long a simulated node stays active, in milliseconds. -/
  dwell : Int := 1500
  /-- How long a simulated edge takes, in milliseconds. -/
  edgeDelay : Int := 300
  /-- The greatest depth of a simulated visit. -/
  maxDepth : Int := 1000
  model : Text := "gpt-4"
  temperature : Binary64 := .ofDecimal false 7 (-1)
  chunkSize : Int := 1000
  vectorIndex : Text := "default-index"
  topK : Int := 4
  channel : Text := "#general"
  subject : Text := "NeuroFlow notification"
  /-- How many blanks indent a level of a document. -/
  jsonIndent : Int := 2

/-- Why a variable of the environment is refused, with its text. -/
inductive EnvironmentError where
  | notInteger (t : Text)
  | notNumber (t : Text)
  | longInteger (digits : Nat)
deriving DecidableEq

/-- The message of an error; a long literal of the text is cut after 200 code points for integers. -/
def EnvironmentError.message : EnvironmentError → Text
  | longInteger digits => integerLengthMessage digits
  | notInteger t => "invalid literal for int() with base 10: " ++ t.quoted.take 200
  | notNumber t => "could not convert string to float: " ++ t.quoted

/-- The variables of an environment with their texts. -/
abbrev Environment := List (Text × Text)

namespace Environment

/-- The text of a variable, or a default. -/
def text (env : Environment) (name : Text) (default : Text) : Text :=
  (env.lookup name).getD default

/-- The integer of a variable, or a default. -/
def int (env : Environment) (name : Text) (default : Int) : Except EnvironmentError Int :=
  match env.lookup name with
  | none => .ok default
  | some t =>
    match integerOfText t with
    | .ok n => .ok n
    | .error .notInteger => .error (.notInteger t)
    | .error (.tooLong digits) => .error (.longInteger digits)

/-- The number of a variable, or a default. -/
def number (env : Environment) (name : Text) (default : Binary64) :
    Except EnvironmentError Binary64 :=
  match env.lookup name with
  | none => .ok default
  | some t =>
    match Binary64.ofText? t with
    | some x => .ok x
    | none => .error (.notNumber t)

/-- The defaults under an environment. -/
def defaults (env : Environment) : Except EnvironmentError Defaults := do
  let standard : Defaults := {}
  let dwell ← env.int "SIM_NODE_DWELL_MS" standard.dwell
  let edgeDelay ← env.int "SIM_EDGE_DELAY_MS" standard.edgeDelay
  let maxDepth ← env.int "SIM_MAX_DEPTH" standard.maxDepth
  let temperature ← env.number "DEFAULT_LLM_TEMPERATURE" standard.temperature
  let chunkSize ← env.int "DEFAULT_CHUNK_SIZE" standard.chunkSize
  let topK ← env.int "DEFAULT_VECTOR_TOP_K" standard.topK
  let jsonIndent ← env.int "EXPORT_JSON_INDENT" standard.jsonIndent
  return {
    dwell, edgeDelay, maxDepth, temperature, chunkSize, topK, jsonIndent
    model := env.text "DEFAULT_LLM_MODEL" standard.model
    vectorIndex := env.text "DEFAULT_VECTOR_INDEX" standard.vectorIndex
    channel := env.text "DEFAULT_SLACK_CHANNEL" standard.channel
    subject := env.text "DEFAULT_EMAIL_SUBJECT" standard.subject }

end Environment

end PipelineGraph
