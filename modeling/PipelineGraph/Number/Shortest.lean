import PipelineGraph.Number.Binary64
import PipelineGraph.Text.Basic

/-!
# Shortest decimal text of a number

A number is written with the fewest significant digits that read back as the same number, and
among those with the ones nearest to it. The digits are found by trying 1, 2, … 17 digits: of
the two decimals around the number on each grid, those are candidates that read back, and the
reader is `Binary64.ofDecimal` itself.

How digits are laid out is the record `DecimalLayout`.
-/

namespace PipelineGraph

/-- Significant digits without trailing zeros, and the power of ten of the first of them. -/
structure Decimal where
  digits : List Char
  exponent : Int
deriving DecidableEq

/-- Where positional writing ends and how an exponent is written. -/
structure DecimalLayout where
  /-- The least exponent that is written positionally. -/
  leastPositional : Int
  /-- The least exponent above those that are written positionally. -/
  firstScientific : Int
  /-- The least number of digits of a written exponent. -/
  exponentWidth : Nat

/-- Decimals from `0.0001` to below `10 ^ 16` are positional; exponents have two digits or more. -/
def DecimalLayout.standard : DecimalLayout where
  leastPositional := -4
  firstScientific := 16
  exponentWidth := 2

namespace Decimal

/-- The decimal `digits * 10 ^ scale`. -/
def ofScaled (digits : Nat) (scale : Int) : Decimal :=
  let all := Nat.toDigits 10 digits
  let significant := (all.reverse.dropWhile (· = '0')).reverse
  ⟨if significant = [] then ['0'] else significant, scale + all.length - 1⟩

/-- The written form of an exponent: a mark, its sign, and its digits. -/
def exponentText (layout : DecimalLayout) (exponent : Int) : List Char :=
  let digits := Nat.toDigits 10 exponent.natAbs
  'e' :: (if exponent < 0 then '-' else '+') ::
    (List.replicate (layout.exponentWidth - digits.length) '0' ++ digits)

/-- The written form of a decimal; there is always a digit on each side of a point. -/
def text (layout : DecimalLayout) (d : Decimal) : List Char :=
  if layout.leastPositional ≤ d.exponent ∧ d.exponent < layout.firstScientific then
    if d.exponent < 0 then
      '0' :: '.' :: (List.replicate (-d.exponent - 1).toNat '0' ++ d.digits)
    else
      let whole := d.exponent.toNat + 1
      if d.digits.length ≤ whole then
        d.digits ++ List.replicate (whole - d.digits.length) '0' ++ ['.', '0']
      else d.digits.take whole ++ '.' :: d.digits.drop whole
  else
    d.digits.take 1 ++ (if d.digits.length ≤ 1 then [] else '.' :: d.digits.drop 1) ++
      exponentText layout d.exponent

end Decimal

namespace Binary64

/-- The power of ten of the first significant digit of a positive number of units. -/
def leadingExponent (units : Nat) : Int :=
  (Nat.toDigits 10 (units * Nat.pow 10 400 / unitsPerOne)).length - 401

/-- The decimal of a given number of digits that reads back as the magnitude and is nearest to it. -/
def decimalWith? (rank : Fin finiteMagnitudes) (count : Nat) : Option Decimal :=
  let units := unitsOfRank rank
  let scale := leadingExponent units - count + 1
  let numerator := units * Nat.pow 10 (-scale).toNat
  let denominator := unitsPerOne * Nat.pow 10 scale.toNat
  let nearest := roundQuotient numerator denominator
  let lower := numerator / denominator
  let other := if nearest = lower then lower + 1 else lower
  let reads (digits : Nat) : Bool := ofDecimal false digits scale = .finite false rank
  if reads nearest then some (.ofScaled nearest scale)
  else if reads other then some (.ofScaled other scale)
  else none

/-- The shortest decimal that reads back as the magnitude; 17 digits always do. -/
def shortest (rank : Fin finiteMagnitudes) : Decimal :=
  if rank.val = 0 then ⟨['0'], 0⟩
  else ((List.range 17).findSome? fun n => decimalWith? rank (n + 1)).getD ⟨['0'], 0⟩

/-- The text of a number. -/
def text (x : Binary64) : Text :=
  match x with
  | .nan => "nan"
  | .infinite negative => if negative then "-inf" else "inf"
  | .finite negative rank =>
    let magnitude := ((shortest rank).text .standard).map CodePoint.ofChar
    if negative then "-" ++ magnitude else magnitude

end Binary64

end PipelineGraph
