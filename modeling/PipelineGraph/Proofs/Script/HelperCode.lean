import PipelineGraph.Proofs.Script.Reading

/-!
# The code of helper functions

The source of a helper is the written form of a function: its parameters, a line that describes it,
and a body. From the function one reads off which names of the script it uses, and which of them it
calls; names that it binds itself are not among them. A helper uses only names that the script's
language knows, helpers that it lists and names that it imports, and it uses all that it lists.
-/

namespace PipelineGraph.Script

/-- A name that is used, and whether what it names is called there. -/
structure Use where
  name : Text
  called : Bool
deriving DecidableEq

/-- The uses of names that are not bound. -/
def freeOf (bound : List Text) (uses : List Use) : List Use :=
  uses.filter (·.name ∉ bound)

/-- The names that the script's language knows and that scripts use. -/
def knownNames : List Text :=
  ["bool", "dict", "hasattr", "isinstance", "list", "open", "print", "str", "tuple"]

/-- An expression of a helper. -/
inductive Term where
  | ident (x : String)
  /-- A literal, as it is written between its quotes. -/
  | word (source : String)
  | nothing
  | member (owner : Term) (field : String)
  | entry (table key : Term)
  | call (callee : Term) (arguments : List Term)
  | pair (first second : Term)
  | isNothing (t : Term)
  | either (first second : Term)
  /-- A literal with the text of an expression behind each of its pieces, and a last piece. -/
  | template (pieces : List (String × Term)) (last : String)
  /-- What an expression gives for each way of binding some names to an element. -/
  | each (item : Term) (bound : List String) (elements : Term)
  | listOf (t : Term)

namespace Term

/-- Words with commas between them. -/
def commas : List String → String
  | [] => ""
  | [x] => x
  | x :: rest => x ++ ", " ++ commas rest

mutual

/-- The text of an expression. -/
def text : Term → String
  | ident x => x
  | word source => "\"" ++ source ++ "\""
  | nothing => "None"
  | member owner field => text owner ++ "." ++ field
  | entry table key => text table ++ "[" ++ text key ++ "]"
  | call callee arguments => text callee ++ "(" ++ commas (texts arguments) ++ ")"
  | pair first second => "(" ++ text first ++ ", " ++ text second ++ ")"
  | isNothing t => text t ++ " is None"
  | either first second => text first ++ " or " ++ text second
  | template pieces last => "f\"" ++ pieceText pieces ++ last ++ "\""
  | each item bound elements => text item ++ " for " ++ commas bound ++ " in " ++ text elements
  | listOf t => "[" ++ text t ++ "]"

/-- The texts of expressions. -/
def texts : List Term → List String
  | [] => []
  | t :: rest => text t :: texts rest

/-- The text of the pieces of a template. -/
def pieceText : List (String × Term) → String
  | [] => ""
  | (piece, t) :: rest => piece ++ "\x7b" ++ text t ++ "\x7d" ++ pieceText rest

end

mutual

/-- The names that an expression uses and does not bind. -/
def uses : Term → List Use
  | ident x => [⟨x, false⟩]
  | word _ => []
  | nothing => []
  | member owner _ => uses owner
  | entry table key => uses table ++ uses key
  | call (ident x) arguments => ⟨x, true⟩ :: usesAll arguments
  | call callee arguments => uses callee ++ usesAll arguments
  | pair first second => uses first ++ uses second
  | isNothing t => uses t
  | either first second => uses first ++ uses second
  | template pieces _ => usesOfPieces pieces
  | each item bound elements => uses elements ++ freeOf (bound.map Text.ofString) (uses item)
  | listOf t => uses t

/-- The names that expressions use. -/
def usesAll : List Term → List Use
  | [] => []
  | t :: rest => uses t ++ usesAll rest

/-- The names that the pieces of a template use. -/
def usesOfPieces : List (String × Term) → List Use
  | [] => []
  | (_, t) :: rest => uses t ++ usesOfPieces rest

end

end Term

/-- A step of a helper. -/
inductive Step where
  | give (t : Term)
  /-- Give a result at once if a test holds. -/
  | giveIf (test result : Term)
  | assign (x : String) (t : Term)
  | store (table key value : Term)
  | run (t : Term)
  /-- Run an expression under a resource that is named while it is open. -/
  | within (resource : Term) (x : String) (t : Term)

namespace Step

/-- The lines of a step. -/
def lines : Step → List String
  | give t => ["return " ++ t.text]
  | giveIf test result => ["if " ++ test.text ++ ":", "    return " ++ result.text]
  | assign x t => [x ++ " = " ++ t.text]
  | store table key value => [table.text ++ "[" ++ key.text ++ "] = " ++ value.text]
  | run t => [t.text]
  | within resource x t => ["with " ++ resource.text ++ " as " ++ x ++ ":", "    " ++ t.text]

/-- The names that a step uses. -/
def uses : Step → List Use
  | give t => t.uses
  | giveIf test result => test.uses ++ result.uses
  | assign _ t => t.uses
  | store table key value => value.uses ++ table.uses ++ key.uses
  | run t => t.uses
  | within resource _ t => resource.uses ++ t.uses

/-- The names that a step assigns. -/
def assigns : Step → List String
  | assign x _ => [x]
  | within _ x _ => [x]
  | _ => []

end Step

/-- A helper as a function. -/
structure Function where
  name : String
  parameters : List String
  /-- What the function does, in a line. -/
  summary : String
  steps : List Step

namespace Function

/-- The lines of a function. -/
def lines (f : Function) : List String :=
  ("def " ++ f.name ++ "(" ++ Term.commas f.parameters ++ "):") ::
    ("    \"\"\"" ++ f.summary ++ "\"\"\"") :: (f.steps.flatMap Step.lines).map ("    " ++ ·)

/-- The names from outside that a function uses: neither parameters nor assigned in its body. -/
def uses (f : Function) : List Use :=
  freeOf ((f.parameters ++ f.steps.flatMap Step.assigns).map Text.ofString)
    (f.steps.flatMap Step.uses)

end Function

namespace Helper

open Term in
/-- The function that a helper is. -/
def function : Helper → Function
  | asText =>
    let value := ident "value"
    let textOf (t : Term) := call (ident "_as_text") [t]
    let is (kind : Term) := call (ident "isinstance") [value, kind]
    { name := "_as_text"
      parameters := ["value"]
      summary := "Flatten any upstream value into plain text."
      steps :=
        [.giveIf (isNothing value) (word ""),
          .giveIf (is (ident "str")) value,
          .giveIf (is (pair (ident "list") (ident "tuple")))
            (call (member (word "\\n\\n") "join") [each (textOf (ident "item")) ["item"] value]),
          .giveIf (is (ident "dict"))
            (call (member (word "\\n") "join")
              [each (template [("", ident "key"), (": ", textOf (ident "item"))] "") ["key", "item"]
                (call (member value "items") [])]),
          .giveIf (call (ident "hasattr") [value, word "page_content"]) (member value "page_content"),
          .giveIf (call (ident "hasattr") [value, word "content"]) (textOf (member value "content")),
          .give (call (ident "str") [value])] }
  | asTexts =>
    let value := ident "value"
    let textOf (t : Term) := call (ident "_as_text") [t]
    { name := "_as_texts"
      parameters := ["value"]
      summary := "Split an upstream value into a list of texts."
      steps :=
        [.giveIf (call (ident "isinstance") [value, pair (ident "list") (ident "tuple")])
            (listOf (each (textOf (ident "item")) ["item"] value)),
          .give (listOf (textOf value))] }
  | deliver =>
    { name := "_deliver"
      parameters := ["destination", "payload"]
      summary := "Print the payload for a generic output node and pass it through."
      steps :=
        [.assign "text" (call (ident "_as_text") [ident "payload"]),
          .run (call (ident "print") [template [("[", ident "destination"), ("] ", ident "text")] ""]),
          .give (ident "text")] }
  | sendEmail =>
    let message := ident "message"
    let setting (arguments : List Term) := call (member (member (ident "os") "environ") "get") arguments
    { name := "_send_email"
      parameters := ["to", "subject", "body"]
      summary := "Send `body` through the SMTP server configured in the environment."
      steps :=
        [.assign "message" (call (ident "EmailMessage") []),
          .store message (word "From") (setting [word "SMTP_FROM", word "neuroflow@localhost"]),
          .store message (word "To") (either (ident "to") (setting [word "SMTP_TO", word ""])),
          .store message (word "Subject") (ident "subject"),
          .run (call (member message "set_content") [ident "body"]),
          .within (call (member (ident "smtplib") "SMTP") [setting [word "SMTP_HOST", word "localhost"]])
            "smtp" (call (member (ident "smtp") "send_message") [message]),
          .give (ident "body")] }

/-- The source of a helper is the written form of its function. -/
theorem source_eq (h : Helper) : h.source = h.function.lines.map Text.ofString := by
  cases h <;> simp [source, function, Function.lines, Step.lines, Term.text, Term.texts, Term.commas, Term.pieceText]

/-- A helper declares the function of its name. -/
theorem name_function (h : Helper) : Text.ofString h.function.name = h.name := by
  cases h <;> rfl

/--
A helper uses only names that the script's language knows, helpers that it may call, itself among
them, and names that it imports.
-/
theorem uses_function (h : Helper) : ∀ u ∈ h.function.uses,
    u.name ∈ knownNames ∨ (∃ k ∈ h :: h.calls, u.name = k.name) ∨ u.name ∈ h.imports.map Import.known := by
  cases h <;> decide

/-- A helper calls every helper that it lists. -/
theorem calls_function (h : Helper) : ∀ k ∈ h.calls, ⟨k.name, true⟩ ∈ h.function.uses := by
  cases h <;> decide

/-- A helper uses all that it imports. -/
theorem imports_function (h : Helper) :
    ∀ i ∈ h.imports, i.known ∈ h.function.uses.map (·.name) := by
  cases h <;> decide

end Helper

end PipelineGraph.Script
