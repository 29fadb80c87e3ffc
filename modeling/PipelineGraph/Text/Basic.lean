/-!
# Text as code points

Labels, identifiers and settings are sequences of Unicode code points. A lone surrogate is a
code point and may stand in a text, so a text is a list of `CodePoint` and not a `String`,
whose characters are scalar values only. Every `String` is a text through `Text.ofString`.

Texts are ordered lexicographically by code point number.
-/

namespace PipelineGraph

/-- A Unicode code point: any number below `0x110000`, surrogates included. -/
structure CodePoint where
  val : Nat
  isLt : val < 0x110000
deriving DecidableEq

namespace CodePoint

/-- The code point of a character. -/
def ofChar (c : Char) : CodePoint :=
  ⟨c.toNat, by
    have h := c.valid
    simp only [Char.toNat, UInt32.isValidChar, Nat.isValidChar] at *
    omega⟩

/-- The code point with a given number, or the replacement character for a number out of range. -/
def ofNat (n : Nat) : CodePoint :=
  if h : n < 0x110000 then ⟨n, h⟩ else ofChar '\uFFFD'

/-- The character that a code point encodes; surrogates encode none. -/
def toChar? (c : CodePoint) : Option Char :=
  if h : c.val.isValidChar then some (Char.ofNatAux c.val h) else none

/-- First halves of surrogate pairs. -/
def isHighSurrogate (c : CodePoint) : Bool :=
  0xD800 ≤ c.val && c.val ≤ 0xDBFF

/-- Second halves of surrogate pairs. -/
def isLowSurrogate (c : CodePoint) : Bool :=
  0xDC00 ≤ c.val && c.val ≤ 0xDFFF

/-- Halves of surrogate pairs. Only they encode no character. -/
def isSurrogate (c : CodePoint) : Bool :=
  c.isHighSurrogate || c.isLowSurrogate

instance : Coe Char CodePoint := ⟨ofChar⟩

instance : LT CodePoint := ⟨fun a b => a.val < b.val⟩

instance : DecidableLT CodePoint := fun a b => inferInstanceAs (Decidable (a.val < b.val))

end CodePoint

/-- A text is a list of code points. -/
abbrev Text := List CodePoint

namespace Text

/-- The text of a string. -/
def ofString (s : String) : Text :=
  s.toList.map CodePoint.ofChar

instance : Coe String Text := ⟨ofString⟩

instance : LawfulBEq Text := inferInstance

/-- The decimal digits of a natural number. -/
def ofNat (n : Nat) : Text :=
  (Nat.toDigits 10 n).map CodePoint.ofChar

/-- The decimal numeral of an integer, with a minus sign if it is negative. -/
def ofInt (n : Int) : Text :=
  if n < 0 then "-" ++ ofNat n.natAbs else ofNat n.natAbs

/-- The lower-case hexadecimal digits of a number, filled up with zeros to a given width. -/
def hex (width n : Nat) : Text :=
  let digits := (Nat.toDigits 16 n).map CodePoint.ofChar
  List.replicate (width - digits.length) (CodePoint.ofChar '0') ++ digits

/-- Texts put together with a separator between neighbours. -/
def join (separator : Text) (parts : List Text) : Text :=
  separator.intercalate parts

/-- Whether a text begins with another. -/
def startsWith (t start : Text) : Bool :=
  start.isPrefixOf t

/-- Whether a text holds a surrogate, and so is no string of characters. -/
def holdsSurrogate (t : Text) : Bool :=
  t.any CodePoint.isSurrogate

/-- Texts in increasing order. -/
def sort (texts : List Text) : List Text :=
  texts.mergeSort fun a b => decide (a ≤ b)

end Text

/-- A set of code points, as a list of closed intervals of their numbers. -/
abbrev CodeRanges := List (Nat × Nat)

/-- Whether one of the intervals holds the code point. -/
def CodeRanges.has (ranges : CodeRanges) (c : CodePoint) : Bool :=
  ranges.any fun r => r.1 ≤ c.val && c.val ≤ r.2

end PipelineGraph
