import PipelineGraph.Text.Basic

/-!
# Keywords in labels

Keywords are lower-case ASCII words. A keyword is looked for anywhere in a label under simple
case folding, which besides the ASCII letters identifies the Kelvin sign with `k`, the long s
with `s`, and the dotted capital and dotless small i with `i`.
-/

namespace PipelineGraph.Text

/-- Whether a code point is a given lower-case letter, its upper case, or folds to it. -/
def foldsTo (letter : Char) (c : CodePoint) : Bool :=
  c = letter || c = letter.toUpper ||
  (letter = 'k' && c.val = 0x212A) ||
  (letter = 's' && c.val = 0x017F) ||
  (letter = 'i' && (c.val = 0x0130 || c.val = 0x0131))

/-- Whether a text begins with a keyword under a given comparison of letters. -/
def opensWith (same : Char → CodePoint → Bool) : List Char → Text → Bool
  | [], _ => true
  | _ :: _, [] => false
  | letter :: word, c :: rest => same letter c && opensWith same word rest

/-- Whether a keyword stands somewhere in a text under a given comparison of letters. -/
def holdsWith (same : Char → CodePoint → Bool) (word : List Char) : Text → Bool
  | [] => opensWith same word []
  | c :: rest => opensWith same word (c :: rest) || holdsWith same word rest

/-- Whether a keyword stands in a text, letter case apart. -/
def holdsKeyword (t : Text) (keyword : String) : Bool :=
  holdsWith foldsTo keyword.toList t

/-- Whether a word stands in a text exactly as written. -/
def holdsExactly (t : Text) (word : String) : Bool :=
  holdsWith (fun letter c => c = letter) word.toList t

end PipelineGraph.Text
