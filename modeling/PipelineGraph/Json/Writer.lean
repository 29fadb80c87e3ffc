import PipelineGraph.Json.Value

/-!
# Writing JSON text

A value is written over several lines: the items of a list and the fields of an object stand one
to a line, indented by their depth, and what is empty stays on its line. Code points other than
the quote, the backslash and the control characters stand for themselves.
-/

namespace PipelineGraph.Json

/-- A code point inside a JSON string. -/
def escapeOne (c : CodePoint) : Text :=
  if c = '"' then "\\\""
  else if c = '\\' then "\\\\"
  else if c = '\n' then "\\n"
  else if c = '\r' then "\\r"
  else if c = '\t' then "\\t"
  else if c.val = 0x08 then "\\b"
  else if c.val = 0x0C then "\\f"
  else if c.val < 0x20 then "\\u" ++ Text.hex 4 c.val
  else [c]

/-- The JSON string of a text. -/
def writeText (t : Text) : Text :=
  "\"" ++ t.flatMap escapeOne ++ "\""

/-- The JSON form of a number; a number that is not finite is a word. -/
def writeFloat : Binary64 → Text
  | .nan => "NaN"
  | .infinite negative => if negative then "-Infinity" else "Infinity"
  | x => x.text

/-- A line break with the indentation of a depth. -/
def breakLine (indent depth : Nat) : Text :=
  CodePoint.ofChar '\n' :: List.replicate (indent * depth) (CodePoint.ofChar ' ')

/-- Parts between brackets, one to a line, where the brackets stand at a given depth. -/
def writeBlock (indent depth : Nat) (opening closing : Text) (parts : List Text) : Text :=
  if parts.isEmpty then opening ++ closing
  else
    opening ++ breakLine indent (depth + 1) ++
      Text.join ("," ++ breakLine indent (depth + 1)) parts ++ breakLine indent depth ++ closing

mutual

/-- The JSON text of a value at a depth. -/
def writeAt (indent depth : Nat) : Value → Text
  | .null => "null"
  | .bool b => if b then "true" else "false"
  | .int n => .ofInt n
  | .float x => writeFloat x
  | .text t => writeText t
  | .list items => writeBlock indent depth "[" "]" (writeItems indent (depth + 1) items)
  | .object fields =>
    writeBlock indent depth "\x7b" "\x7d" (writeFields indent (depth + 1) fields)

/-- The JSON texts of the items of a list. -/
def writeItems (indent depth : Nat) : List Value → List Text
  | [] => []
  | item :: rest => writeAt indent depth item :: writeItems indent depth rest

/-- The JSON texts of the fields of an object. -/
def writeFields (indent depth : Nat) : List (Text × Value) → List Text
  | [] => []
  | (key, value) :: rest =>
    (writeText key ++ ": " ++ writeAt indent depth value) :: writeFields indent depth rest

end

/-- The JSON text of a value. Integers of any length are written; one of more than `maxIntegerDigits` digits is
not read again. -/
def write (indent : Nat) (v : Value) : Text :=
  writeAt indent 0 v

end PipelineGraph.Json
