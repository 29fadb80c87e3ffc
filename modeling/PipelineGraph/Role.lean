import PipelineGraph.Graph.Node
import PipelineGraph.Text.Keyword

/-!
# Roles

The role of a node says what the node does, one level below its kind. It is read off the label
by rules of keywords: the first rule of the node's kind with a keyword in the label decides, and
a label without a keyword leaves the default role of the kind.
-/

namespace PipelineGraph

/-- What a node does. -/
inductive Role where
  | chatInput
  | webhook
  | fileUpload
  | trigger
  | llm
  | textSplitter
  | webScraper
  | imageGeneration
  | transcription
  | codeInterpreter
  | processing
  | vectorStore
  | router
  | email
  | slack
  | action
deriving DecidableEq

namespace Role

/-- All roles. -/
def all : List Role :=
  [chatInput, webhook, fileUpload, trigger, llm, textSplitter, webScraper, imageGeneration,
    transcription, codeInterpreter, processing, vectorStore, router, email, slack, action]

/-- The name of a role. -/
def name : Role → Text
  | chatInput => "chat_input"
  | webhook => "webhook"
  | fileUpload => "file_upload"
  | trigger => "trigger"
  | llm => "llm"
  | textSplitter => "text_splitter"
  | webScraper => "web_scraper"
  | imageGeneration => "image_gen"
  | transcription => "transcribe"
  | codeInterpreter => "code_interpreter"
  | processing => "processing"
  | vectorStore => "vector_store"
  | router => "router"
  | email => "email"
  | slack => "slack"
  | action => "action"

/-- The role with a given name. -/
def ofName? (t : Text) : Option Role :=
  all.find? fun role => role.name = t

/-- The role of a kind when no keyword says more. -/
def ofKind : NodeKind → Role
  | .trigger => trigger
  | .processing => processing
  | .data => vectorStore
  | .logic => router
  | .action => action

end Role

/-- A rule that gives nodes of a kind a role if one of some keywords stands in the label. -/
structure RoleRule where
  kind : NodeKind
  keywords : List String
  role : Role
  /-- Whether letter case counts. -/
  exact : Bool := false

namespace RoleRule

/-- The rules, in the order in which they are tried. -/
def all : List RoleRule :=
  [{ kind := .trigger, keywords := ["webhook"], role := .webhook },
    { kind := .trigger, keywords := ["file", "upload"], role := .fileUpload },
    { kind := .trigger, keywords := ["chat", "input", "message"], role := .chatInput },
    { kind := .processing, keywords := ["LLM"], role := .llm, exact := true },
    { kind := .processing, keywords := ["split", "chunk"], role := .textSplitter },
    { kind := .processing, keywords := ["scrap", "crawl", "web"], role := .webScraper },
    { kind := .processing, keywords := ["image"], role := .imageGeneration },
    { kind := .processing, keywords := ["transcri", "speech", "whisper"], role := .transcription },
    { kind := .processing, keywords := ["code", "interpreter"], role := .codeInterpreter },
    { kind := .action, keywords := ["email", "e-mail"], role := .email },
    { kind := .action, keywords := ["slack"], role := .slack }]

/-- Whether a rule applies to nodes of a kind with a label. -/
def applies (rule : RoleRule) (kind : NodeKind) (label : Text) : Bool :=
  rule.kind = kind && rule.keywords.any fun keyword =>
    if rule.exact then label.holdsExactly keyword else label.holdsKeyword keyword

end RoleRule

/-- The role of nodes of a kind with a label. -/
def Role.infer (kind : NodeKind) (label : Text) : Role :=
  match RoleRule.all.find? (·.applies kind label) with
  | some rule => rule.role
  | none => .ofKind kind

/-- The role of a node. -/
def Node.role (n : Node) : Role :=
  .infer n.kind n.label

end PipelineGraph
