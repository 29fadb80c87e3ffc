import PipelineGraph.Number.Binary64
import PipelineGraph.Text.Blank
import PipelineGraph.Text.DecimalDigit

/-!
# Numerals in texts

A numeral is what a text says about a number before it is rounded. Its grammar, letter case
apart, is an optional sign and then `inf`, `infinity`, `nan`, or digits with an optional point
and an optional exponent. Which code points are digits is a parameter: a setting may use the
decimal digits of any script, a coordinate only `0` to `9`.

Low lines are no part of the grammar. In a strict text each of them stands between two digits;
a loose text may have them anywhere but at its ends and next to each other, though white space
around it is then refused.
-/

namespace PipelineGraph

/-- What a text says about a number. -/
inductive Numeral where
  | nan
  | infinite (negative : Bool)
  | decimal (negative : Bool) (digits : Nat) (scale : Int)
deriving DecidableEq

namespace Numeral

/-- The number nearest to a numeral. -/
def toBinary64 : Numeral → Binary64
  | nan => .nan
  | infinite negative => .infinite negative
  | decimal negative digits scale => .ofDecimal negative digits scale

/-- The number that a list of decimal digits writes. -/
def valueOfDigits (digits : List Nat) : Nat :=
  digits.foldl (fun value digit => 10 * value + digit) 0

/-- The integer of a sign and decimal digits. -/
def signedValue (negative : Bool) (digits : List Nat) : Int :=
  let magnitude : Int := ↑(valueOfDigits digits)
  if negative then -magnitude else magnitude

variable (digit? : CodePoint → Option Nat)

/-- The longest run of digits at the front of a text, and what follows it. -/
def takeDigits : Text → List Nat × Text
  | [] => ([], [])
  | c :: rest =>
    match digit? c with
    | some d =>
      let (digits, behind) := takeDigits rest
      (d :: digits, behind)
    | none => ([], c :: rest)

/-- The text without its low lines, if each of them stands between two digits. -/
def dropLowLines (afterDigit : Bool) : Text → Option Text
  | [] => some []
  | c :: rest =>
    if c = '_' then
      match rest with
      | next :: _ => if afterDigit && (digit? next).isSome then dropLowLines false rest else none
      | [] => none
    else (dropLowLines (digit? c).isSome rest).map (c :: ·)

/-- Whether a sign at the front is a minus, and the text behind the sign. -/
def takeSign : Text → Bool × Text
  | [] => (false, [])
  | c :: rest => if c = '-' then (true, rest) else if c = '+' then (false, rest) else (false, c :: rest)

/-- The scale that an exponent part gives; no exponent part gives zero. -/
def exponent? : Text → Option Int
  | [] => some 0
  | c :: rest =>
    if c = 'e' ∨ c = 'E' then
      let (negative, behind) := takeSign rest
      match takeDigits digit? behind with
      | (d :: ds, []) => some (signedValue negative (d :: ds))
      | _ => none
    else none

/-- The numeral of digits with an optional point and an optional exponent. -/
def decimal? (negative : Bool) (t : Text) : Option Numeral :=
  let (whole, behind) := takeDigits digit? t
  let (fraction, rest) :=
    match behind with
    | c :: more => if c = '.' then takeDigits digit? more else ([], behind)
    | [] => ([], [])
  if whole = [] ∧ fraction = [] then none
  else (exponent? digit? rest).map fun scale =>
    .decimal negative (valueOfDigits (whole ++ fraction)) (scale - fraction.length)

/-- An ASCII letter in lower case; other code points as they are. -/
def lowerAscii (c : CodePoint) : CodePoint :=
  if 0x41 ≤ c.val ∧ c.val ≤ 0x5A then .ofNat (c.val + 0x20) else c

/-- The numeral that a text without low lines writes. -/
def plain? (t : Text) : Option Numeral :=
  let (negative, body) := takeSign t
  let word := body.map lowerAscii
  if word = Text.ofString "inf" ∨ word = Text.ofString "infinity" then some (.infinite negative)
  else if word = Text.ofString "nan" then some .nan
  else decimal? digit? negative body

/-- The numeral that a strict text without surrounding blanks writes. -/
def ofText? (t : Text) : Option Numeral :=
  (dropLowLines digit? false t).bind (plain? digit?)

/-- Whether two low lines stand next to each other. -/
def hasLowLinePair : Text → Bool
  | [] => false
  | c :: rest => (c = '_' && rest.head? = some (CodePoint.ofChar '_')) || hasLowLinePair rest

/-- The text without its low lines, if none is at an end and no two stand next to each other. -/
def dropLooseLowLines (t : Text) : Option Text :=
  let lowLine := CodePoint.ofChar '_'
  if t.head? = some lowLine ∨ t.getLast? = some lowLine ∨ hasLowLinePair t then none
  else some (t.filter (· ≠ lowLine))

/-- The numeral of a text between white space, or of a loose text. -/
def ofLooseText? (t : Text) : Option Numeral :=
  plain? digit? (t.trim Text.isWhiteSpace) <|> (dropLooseLowLines t).bind (plain? digit?)

end Numeral

/-- The number that a text writes with digits of any script between white space. -/
def Binary64.ofText? (t : Text) : Option Binary64 :=
  (Numeral.ofText? Text.decimalDigit? (t.trim Text.isWhiteSpace)).map Numeral.toBinary64

end PipelineGraph
