import PipelineGraph.Defaults
import PipelineGraph.Log
import PipelineGraph.Role

/-!
# Settings

The config of a node is loose; its settings are what its role needs, with every entry that is
missing or cannot be used replaced by a default. Reading settings never fails.

An entry that is there and differs from the value in use is noted. The comparison is numeric
between numbers and truth values, and a numeral as text differs from every number.
-/

namespace PipelineGraph

/-! ## Single entries -/

/-- The text of an entry; a blank text is only used if it is allowed. -/
def textSetting? (entry : Option Value) (allowBlank : Bool) : Option Text :=
  match entry with
  | some (.text t) => if allowBlank || !t.all Text.isBlank then some t else none
  | _ => none

/-- The text of an entry, or a default. -/
def textSetting (entry : Option Value) (default : Text) (allowBlank : Bool) : Text :=
  (textSetting? entry allowBlank).getD default

/-- The finite number of an entry: a number, or a text that writes one between blanks. -/
def numberSetting? : Option Value → Option Binary64
  | some (.int n) => Binary64.ofInt? n
  | some (.float x) => if x.isFinite then some x else none
  | some (.text t) => (Binary64.ofText? (t.trim Text.isBlank)).filter Binary64.isFinite
  | _ => none

/-- The finite number of an entry, or a default. -/
def numberSetting (entry : Option Value) (default : Binary64) : Binary64 :=
  (numberSetting? entry).getD default

/-- The integer of an entry, at least a minimum; it is read as a number first. -/
def countSetting? (entry : Option Value) (minimum : Int) : Option Int :=
  ((numberSetting? entry).bind Binary64.toInt?).filter (minimum ≤ ·)

/-- The integer of an entry, at least a minimum, or a default. -/
def countSetting (entry : Option Value) (default minimum : Int) : Int :=
  (countSetting? entry minimum).getD default

/-! ## Settings by role -/

/-- The settings of a language model. -/
structure ModelSettings where
  model : Text
  temperature : Binary64
  systemPrompt : Text

/-- The settings of a text splitter. -/
structure SplitterSettings where
  chunkSize : Int
  chunkOverlap : Int

/-- The settings of a vector store. -/
structure StoreSettings where
  index : Text
  topK : Int

/-- The settings of a mail. -/
structure EmailSettings where
  recipient : Text
  subject : Text

/-- The settings of a message to a channel. -/
structure ChannelSettings where
  channel : Text

/-- The settings that a config gives for a language model. -/
def ModelSettings.ofConfig (d : Defaults) (config : Fields) : ModelSettings where
  model := textSetting (config.get? "model") d.model false
  temperature := numberSetting (config.get? "temperature") d.temperature
  systemPrompt := textSetting (config.get? "systemPrompt") [] true

/-- The settings that a config gives for a splitter; an overlap has to be less than a chunk. -/
def SplitterSettings.ofConfig (d : Defaults) (config : Fields) : SplitterSettings :=
  let size := countSetting (config.get? "chunkSize") d.chunkSize 1
  let overlap := countSetting (config.get? "chunkOverlap") 0 0
  ⟨size, if size ≤ overlap then 0 else overlap⟩

/-- The settings that a config gives for a vector store. -/
def StoreSettings.ofConfig (d : Defaults) (config : Fields) : StoreSettings where
  index := textSetting (config.get? "index") d.vectorIndex false
  topK := countSetting (config.get? "topK") d.topK 1

/-- The settings that a config gives for a mail. -/
def EmailSettings.ofConfig (d : Defaults) (config : Fields) : EmailSettings where
  recipient := textSetting (config.get? "to") [] true
  subject := textSetting (config.get? "subject") d.subject false

/-- The settings that a config gives for a message to a channel. -/
def ChannelSettings.ofConfig (d : Defaults) (config : Fields) : ChannelSettings where
  channel := textSetting (config.get? "channel") d.channel false

/-- The settings of a node, as its role needs them. -/
inductive Settings where
  | model (s : ModelSettings)
  | splitter (s : SplitterSettings)
  | store (s : StoreSettings)
  | channel (s : ChannelSettings)
  | email (s : EmailSettings)
  | none

namespace Settings

/-- The settings that a config gives for a role. -/
def ofConfig (d : Defaults) (role : Role) (config : Fields) : Settings :=
  match role with
  | .llm => .model (.ofConfig d config)
  | .textSplitter => .splitter (.ofConfig d config)
  | .vectorStore => .store (.ofConfig d config)
  | .slack => .channel (.ofConfig d config)
  | .email => .email (.ofConfig d config)
  | _ => .none

/-- The values in use under the keys that a config may hold for them. -/
def entries : Settings → Fields
  | .model s =>
    [("model", .text s.model), ("temperature", .float s.temperature),
      ("systemPrompt", .text s.systemPrompt)]
  | .splitter s => [("chunkSize", .int s.chunkSize), ("chunkOverlap", .int s.chunkOverlap)]
  | .store s => [("index", .text s.index), ("topK", .int s.topK)]
  | .channel s => [("channel", .text s.channel)]
  | .email s => [("to", .text s.recipient), ("subject", .text s.subject)]
  | .none => []

end Settings

/-! ## Notes -/

/-- The integer that a truth value counts as. -/
def truthInt (b : Bool) : Int :=
  if b then 1 else 0

/-- Whether an entry equals a value in use, which is a text, an integer or a number. -/
def Value.equalsUsed : (entry used : Value) → Bool
  | .text t, .text u => t = u
  | .int m, .int n => m = n
  | .bool b, .int n => truthInt b = n
  | .float x, .int n => x.toInt? = some n
  | .int m, .float y => y.toInt? = some m
  | .bool b, .float y => y.toInt? = some (truthInt b)
  | .float x, .float y => x.numEq y
  | _, _ => false

/-- The note about an entry of a node that is not used as it stands. -/
def Node.unusedNote (n : Node) (key : Text) (entry used : Value) : LogRecord :=
  ⟨.debug, "[Compiler] Node " ++ n.id ++ ": config " ++ key ++ "=" ++ entry.literal ++
    " unusable, using " ++ used.literal⟩

/-- The notes about the entries of a node that differ from the settings in use. -/
def Node.settingsNotes (n : Node) (settings : Settings) : List LogRecord :=
  settings.entries.filterMap fun (key, used) =>
    match n.config.get? key with
    | some entry => if entry.equalsUsed used then none else some (n.unusedNote key entry used)
    | none => none

/-- The settings of a node in its role. -/
def Node.settings (n : Node) (d : Defaults) : Settings :=
  .ofConfig d n.role n.config

end PipelineGraph
