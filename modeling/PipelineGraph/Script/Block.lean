import PipelineGraph.Script.Expr
import PipelineGraph.Script.Helper
import PipelineGraph.Settings

/-!
# Blocks

Each node of a graph becomes one block of statements that assigns the node's variable. What a
block does depends on the node's role; it reads the variables of the node's producers, or the
script's inputs if there are none. Some roles need an auxiliary variable besides.
-/

namespace PipelineGraph.Script

/-- The variables from which a block takes its input. -/
abbrev Sources := List Text

/-- The input of a block: one variable, a list of several, or the script's inputs. -/
def Sources.expr : Sources → Expr
  | [] => .name "inputs"
  | [x] => .name x
  | xs => .list (xs.map .name)

/-- What a block is made from. -/
structure BlockContext where
  node : Node
  /-- The variable that the block assigns. -/
  output : Text
  sources : Sources
  /-- The auxiliary variable, for the roles that need one. -/
  auxiliary : Text

/-- What a role contributes to a script: statements, and what they need from outside. -/
structure Fragment where
  statements : List Statement
  imports : List Import := []
  helpers : List Helper := []

/-- The ending of the auxiliary variable of a role, if it needs one. -/
def auxiliaryEnding? : Role → Option Text
  | .fileUpload => some "path"
  | .llm => some "llm"
  | .textSplitter => some "splitter"
  | .transcription => some "audio"
  | .vectorStore => some "store"
  | .slack => some "client"
  | _ => none

/-- A method of an expression, called with arguments. -/
def Expr.method (owner : Expr) (field : Text) (arguments : List Expr) : Expr :=
  .call (.member owner field) arguments

namespace BlockContext

variable (c : BlockContext)

/-- The input of a block. -/
def input : Expr :=
  c.sources.expr

/-- The input of a block, made one text. -/
def inputText : Expr :=
  .call (.name Helper.asText.name) [c.input]

/-- The input of a block, made a list of texts. -/
def inputTexts : Expr :=
  .call (.name Helper.asTexts.name) [c.input]

/-- What the script's inputs hold for a trigger; without it, what leads to the trigger or a default. -/
def triggerInput (default : Expr) : Expr :=
  Expr.method (.name "inputs") "get"
    [.quoted c.node.id, if c.sources.isEmpty then default else c.input]

/-- The label of a node, or another text if it has none. -/
def labelOr (other : Text) : Text :=
  if c.node.label = [] then other else c.node.label

/-- The fragment of a trigger with a default. -/
def trigger (default : Expr) : Fragment :=
  { statements := [.assign c.output (c.triggerInput default)] }

/-- The fragment of a file upload: the file is read unless its path is empty. -/
def fileUpload : Fragment :=
  let read := Expr.method (.call (.name "Path") [.name c.auxiliary]) "read_text"
    [.named "encoding" (.word "utf-8")]
  { statements :=
      [.assign c.auxiliary (c.triggerInput (.quoted [])),
        .assign c.output (.choice read (.name c.auxiliary) (.word ""))]
    imports := [⟨"pathlib", some "Path"⟩] }

/-- The fragment of a language model; an empty system prompt is left out. -/
def llm (s : ModelSettings) : Fragment :=
  let human := Expr.call (.name "HumanMessage") [.named "content" c.inputText]
  let system := Expr.call (.name "SystemMessage") [.named "content" (.quoted s.systemPrompt)]
  let prompted := s.systemPrompt ≠ []
  let messages := if prompted then [system, human] else [human]
  { statements :=
      [.assign c.auxiliary (.call (.name "ChatOpenAI")
          [.named "model" (.quoted s.model), .named "temperature" (.number s.temperature)]),
        .assign c.output
          (.member (Expr.method (.name c.auxiliary) "invoke" [.list messages]) "content")]
    imports :=
      [⟨"langchain_openai", some "ChatOpenAI"⟩, ⟨"langchain_core.messages", some "HumanMessage"⟩] ++
        (if prompted then [⟨"langchain_core.messages", some "SystemMessage"⟩] else [])
    helpers := [.asText] }

/-- The fragment of a text splitter. -/
def textSplitter (s : SplitterSettings) : Fragment :=
  { statements :=
      [.assign c.auxiliary (.call (.name "RecursiveCharacterTextSplitter")
          [.named "chunk_size" (.integer s.chunkSize),
            .named "chunk_overlap" (.integer s.chunkOverlap)]),
        .assign c.output (Expr.method (.name c.auxiliary) "split_text" [c.inputText])]
    imports := [⟨"langchain_text_splitters", some "RecursiveCharacterTextSplitter"⟩]
    helpers := [.asText] }

/-- The fragment of a web scraper. -/
def webScraper : Fragment :=
  { statements :=
      [.assign c.output (Expr.method (.call (.name "WebBaseLoader") [c.inputTexts]) "load" [])]
    imports := [⟨"langchain_community.document_loaders", some "WebBaseLoader"⟩]
    helpers := [.asTexts] }

/-- The fragment of a step that runs a tool on one text. -/
def runTool (source tool : Text) : Fragment :=
  { statements := [.assign c.output (Expr.method (.call (.name tool) []) "run" [c.inputText])]
    imports := [⟨source, some tool⟩]
    helpers := [.asText] }

/-- The fragment of a transcription. -/
def transcription : Fragment :=
  let service := Expr.member (.member (.call (.name "OpenAI") []) "audio") "transcriptions"
  let transcript := Expr.method service "create"
    [.named "model" (.word "whisper-1"), .named "file" (.name c.auxiliary)]
  { statements :=
      [.within (.call (.name "open") [c.inputText, .word "rb"]) c.auxiliary
        (.assign c.output (.member transcript "text"))]
    imports := [⟨"openai", some "OpenAI"⟩]
    helpers := [.asText] }

/-- The fragment of a step of no special role: its input is passed on under its name. -/
def processing : Fragment :=
  let step := Expr.call (.name "RunnableLambda")
    [.function "value" (.name "value"), .named "name" (.quoted (c.labelOr c.output))]
  { statements := [.assign c.output (Expr.method step "invoke" [c.input])]
    imports := [⟨"langchain_core.runnables", some "RunnableLambda"⟩] }

/-- The fragment of a vector store: the input is added and searched for. -/
def vectorStore (s : StoreSettings) : Fragment :=
  let store := Expr.name c.auxiliary
  { statements :=
      [.assign c.auxiliary (.call (.name "Chroma")
          [.named "collection_name" (.quoted s.index),
            .named "embedding_function" (.call (.name "OpenAIEmbeddings") [])]),
        .evaluate (store.method "add_texts" [c.inputTexts]),
        .assign c.output
          (store.method "similarity_search" [c.inputText, .named "k" (.integer s.topK)])]
    imports := [⟨"langchain_chroma", some "Chroma"⟩, ⟨"langchain_openai", some "OpenAIEmbeddings"⟩]
    helpers := [.asTexts, .asText] }

/-- The fragment of a router: what counts as true passes, anything else becomes nothing. -/
def router : Fragment :=
  let runnable (body : Expr) := Expr.call (.name "RunnableLambda") [.function "value" body]
  let test := Expr.function "value" (.call (.name "bool") [.name "value"])
  { statements :=
      [.assignSpread c.output (.name "RunnableBranch")
        [.pair test (runnable (.name "value")), runnable .nothing] "invoke" c.input]
    imports :=
      [⟨"langchain_core.runnables", some "RunnableBranch"⟩,
        ⟨"langchain_core.runnables", some "RunnableLambda"⟩] }

/-- The fragment of a mail. -/
def email (s : EmailSettings) : Fragment :=
  { statements :=
      [.assign c.output (.call (.name Helper.sendEmail.name)
        [.quoted s.recipient, .quoted s.subject, c.inputText])]
    helpers := [.sendEmail, .asText] }

/-- The fragment of a message to a channel. -/
def slack (s : ChannelSettings) : Fragment :=
  let token := Expr.entry (.member (.name "os") "environ") (.word "SLACK_BOT_TOKEN")
  { statements :=
      [.assign c.auxiliary (.call (.name "WebClient") [.named "token" token]),
        .assign c.output (Expr.method (.name c.auxiliary) "chat_postMessage"
          [.named "channel" (.quoted s.channel), .named "text" c.inputText])]
    imports := [⟨"os", none⟩, ⟨"slack_sdk", some "WebClient"⟩]
    helpers := [.asText] }

/-- The fragment of an effect of no special role: the input is delivered under the node's name. -/
def action : Fragment :=
  { statements :=
      [.assign c.output (.call (.name Helper.deliver.name)
        [.quoted (c.labelOr c.node.id), c.input])]
    helpers := [.deliver] }

/-- The fragment of a node in its role. -/
def fragment (d : Defaults) : Fragment :=
  match c.node.role with
  | .chatInput => c.trigger (.quoted [])
  | .webhook => c.trigger .emptyTable
  | .fileUpload => c.fileUpload
  | .trigger => c.trigger .nothing
  | .llm => c.llm (.ofConfig d c.node.config)
  | .textSplitter => c.textSplitter (.ofConfig d c.node.config)
  | .webScraper => c.webScraper
  | .imageGeneration =>
    c.runTool "langchain_community.utilities.dalle_image_generator" "DallEAPIWrapper"
  | .transcription => c.transcription
  | .codeInterpreter => c.runTool "langchain_experimental.utilities" "PythonREPL"
  | .processing => c.processing
  | .vectorStore => c.vectorStore (.ofConfig d c.node.config)
  | .router => c.router
  | .email => c.email (.ofConfig d c.node.config)
  | .slack => c.slack (.ofConfig d c.node.config)
  | .action => c.action

end BlockContext

end PipelineGraph.Script
