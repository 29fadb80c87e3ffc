import PipelineGraph.Script.Import

/-!
# Helper functions of a script

A script brings along the helper functions that its blocks call. A helper may call another and
may need imports of its own; both are listed beside its source.
-/

namespace PipelineGraph.Script

/-- The helper functions. -/
inductive Helper where
  | asText
  | asTexts
  | deliver
  | sendEmail
deriving DecidableEq

namespace Helper

/-- The helpers in the order in which a script declares them. -/
def all : List Helper :=
  [asText, asTexts, deliver, sendEmail]

/-- The name of a helper. -/
def name : Helper → Text
  | asText => "_as_text"
  | asTexts => "_as_texts"
  | deliver => "_deliver"
  | sendEmail => "_send_email"

/-- The helper with a given name. -/
def ofName? (t : Text) : Option Helper :=
  all.find? fun helper => helper.name = t

/-- The lines of a helper's source. -/
def source : Helper → List Text
  | asText =>
    ["def _as_text(value):",
      "    \"\"\"Flatten any upstream value into plain text.\"\"\"",
      "    if value is None:",
      "        return \"\"",
      "    if isinstance(value, str):",
      "        return value",
      "    if isinstance(value, (list, tuple)):",
      "        return \"\\n\\n\".join(_as_text(item) for item in value)",
      "    if isinstance(value, dict):",
      "        return \"\\n\".join(f\"\x7bkey\x7d: \x7b_as_text(item)\x7d\" for key, item in value.items())",
      "    if hasattr(value, \"page_content\"):",
      "        return value.page_content",
      "    if hasattr(value, \"content\"):",
      "        return _as_text(value.content)",
      "    return str(value)"]
  | asTexts =>
    ["def _as_texts(value):",
      "    \"\"\"Split an upstream value into a list of texts.\"\"\"",
      "    if isinstance(value, (list, tuple)):",
      "        return [_as_text(item) for item in value]",
      "    return [_as_text(value)]"]
  | deliver =>
    ["def _deliver(destination, payload):",
      "    \"\"\"Print the payload for a generic output node and pass it through.\"\"\"",
      "    text = _as_text(payload)",
      "    print(f\"[\x7bdestination\x7d] \x7btext\x7d\")",
      "    return text"]
  | sendEmail =>
    ["def _send_email(to, subject, body):",
      "    \"\"\"Send `body` through the SMTP server configured in the environment.\"\"\"",
      "    message = EmailMessage()",
      "    message[\"From\"] = os.environ.get(\"SMTP_FROM\", \"neuroflow@localhost\")",
      "    message[\"To\"] = to or os.environ.get(\"SMTP_TO\", \"\")",
      "    message[\"Subject\"] = subject",
      "    message.set_content(body)",
      "    with smtplib.SMTP(os.environ.get(\"SMTP_HOST\", \"localhost\")) as smtp:",
      "        smtp.send_message(message)",
      "    return body"]

/-- The helpers that a helper calls. -/
def calls : Helper → List Helper
  | asTexts => [asText]
  | deliver => [asText]
  | _ => []

/-- The imports that a helper needs. -/
def imports : Helper → List Import
  | sendEmail => [⟨"os", none⟩, ⟨"smtplib", none⟩, ⟨"email.message", some "EmailMessage"⟩]
  | _ => []

/-- The helpers of a list and those that they call, in the order of declaration. -/
def close (helpers : List Helper) : List Helper :=
  all.filter fun helper => helper ∈ helpers ∨ helper ∈ helpers.flatMap calls

end Helper

/-- The names that a script uses itself, besides those of its nodes. -/
def reservedNames : List Text :=
  (["inputs", "run_pipeline", "value", "print", "open", "bool", "str", "dict", "list"] : List Text) ++
    Helper.all.map Helper.name

end PipelineGraph.Script
