import PipelineGraph.Text.Printable

/-!
# Quoted literals

A quoted literal is a text between two marks. The mark is the single quote, unless the text
holds a single quote and no double quote. Inside, the mark and the backslash stand after a
backslash, and every code point that is not printable is written as an escape, so a literal is
always one line of printable code points.
-/

namespace PipelineGraph.Text

/-- The escape of a code point that is not printable, as short as its number allows. -/
def escape (c : CodePoint) : Text :=
  if c = '\n' then "\\n"
  else if c = '\r' then "\\r"
  else if c = '\t' then "\\t"
  else if c.val ≤ 0xFF then "\\x" ++ hex 2 c.val
  else if c.val ≤ 0xFFFF then "\\u" ++ hex 4 c.val
  else "\\U" ++ hex 8 c.val

/-- The mark around a literal of the text. -/
def quoteMark (t : Text) : CodePoint :=
  if t.contains (CodePoint.ofChar '\'') && !t.contains (CodePoint.ofChar '"') then '"' else '\''

/-- A code point inside a literal with a given mark. -/
def quoteOne (mark c : CodePoint) : Text :=
  if c = mark ∨ c = '\\' then [CodePoint.ofChar '\\', c]
  else if isPrintable c then [c]
  else escape c

/-- The literal of a text. -/
def quoted (t : Text) : Text :=
  let mark := quoteMark t
  mark :: t.flatMap (quoteOne mark) ++ [mark]

/-- The literal of a list of texts. -/
def quotedList (texts : List Text) : Text :=
  "[" ++ join ", " (texts.map quoted) ++ "]"

end PipelineGraph.Text
