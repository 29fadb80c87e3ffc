import PipelineGraph.Text.Basic

/-!
# Blank code points

Two sets of blanks are in use. `isBlank` is the wide one: the Unicode property `White_Space`
and the four information separators `U+001C` to `U+001F`. It divides a text into words and
decides whether a setting is blank. `isWhiteSpace` is the property alone, which may surround a
numeral.
-/

namespace PipelineGraph.Text

/-- The blank code points. -/
def blankRanges : CodeRanges :=
  [(0x9, 0xD), (0x1C, 0x20), (0x85, 0x85), (0xA0, 0xA0), (0x1680, 0x1680), (0x2000, 0x200A),
   (0x2028, 0x2029), (0x202F, 0x202F), (0x205F, 0x205F), (0x3000, 0x3000)]

/-- Whether a code point is blank. -/
def isBlank (c : CodePoint) : Bool :=
  blankRanges.has c

/-- Whether a code point has the property `White_Space`. -/
def isWhiteSpace (c : CodePoint) : Bool :=
  isBlank c && !(0x1C ≤ c.val && c.val ≤ 0x1F)

/-- A text without the leading and trailing code points of a class. -/
def trim (drop : CodePoint → Bool) (t : Text) : Text :=
  ((t.dropWhile drop).reverse.dropWhile drop).reverse

/-- The maximal runs of code points that are not blank, in order. -/
def words : Text → List Text
  | [] => []
  | c :: rest =>
    if isBlank c then words rest
    else match rest, words rest with
      | next :: _, word :: more => if isBlank next then [c] :: word :: more else (c :: word) :: more
      | _, more => [c] :: more

end PipelineGraph.Text
