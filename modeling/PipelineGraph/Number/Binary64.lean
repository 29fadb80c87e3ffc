/-!
# Binary64 numbers

Binary64 numbers are exact data. A finite number is a sign and the rank of its magnitude among
all finite magnitudes, so every number has one representation and equality is decidable. Each
magnitude is a whole number of units of `2 ^ -1074`; reading, rounding and comparing are
arithmetic on those units.

Rounding goes to the nearest number, a tie to the even rank, and what rounds beyond the
greatest finite number is infinite.
-/

namespace PipelineGraph

/-- The number of magnitudes that share a binary exponent. -/
def binadeSize : Nat := Nat.pow 2 52

/-- The number of finite magnitudes. -/
def finiteMagnitudes : Nat := 2047 * binadeSize

/-- How many units make one. -/
def unitsPerOne : Nat := Nat.pow 2 1074

/-- A binary64 number, with one NaN. -/
inductive Binary64 where
  | nan
  | infinite (negative : Bool)
  | finite (negative : Bool) (rank : Fin finiteMagnitudes)
deriving DecidableEq

namespace Binary64

/-- The magnitude of a rank, in units. -/
def unitsOfRank (rank : Nat) : Nat :=
  if rank < binadeSize then rank
  else (binadeSize + rank % binadeSize) * Nat.pow 2 (rank / binadeSize - 1)

/-- The nearest integer to a quotient, a tie going to the even one. -/
def roundQuotient (numerator denominator : Nat) : Nat :=
  let lower := numerator / denominator
  let twice := 2 * (numerator % denominator)
  if twice < denominator then lower
  else if denominator < twice then lower + 1
  else lower + lower % 2

/--
The rank nearest to a quotient. The quotient in units is scaled down by `2 ^ shift` so that
its whole part has at most 53 bits; that part plus `shift` binades is then its rank.
-/
def rankOfQuotient (numerator denominator : Nat) : Nat :=
  let units := numerator * unitsPerOne
  let shift := (units / denominator).log2 - 52
  shift * binadeSize + roundQuotient units (denominator * Nat.pow 2 shift)

/-- The number with a given sign and rank, infinite past the greatest finite rank. -/
def ofRank (negative : Bool) (rank : Nat) : Binary64 :=
  if h : rank < finiteMagnitudes then .finite negative ⟨rank, h⟩ else .infinite negative

/-- The number zero with a sign. -/
def signedZero (negative : Bool) : Binary64 :=
  ofRank negative 0

/-- The number nearest to a quotient with a positive denominator. -/
def ofQuotient (negative : Bool) (numerator denominator : Nat) : Binary64 :=
  ofRank negative (rankOfQuotient numerator denominator)

/--
The number nearest to `digits * 10 ^ scale`. With `n` decimal digits the magnitude lies between
`10 ^ (n + scale - 1)` and `10 ^ (n + scale)`, so for `n + scale` above 310 it is infinite and
below -330 it is zero; between the two the powers of ten are small.
-/
def ofDecimal (negative : Bool) (digits : Nat) (scale : Int) : Binary64 :=
  let magnitude := (Nat.toDigits 10 digits).length + scale
  if digits = 0 ∨ magnitude < -330 then signedZero negative
  else if 310 < magnitude then .infinite negative
  else if 0 ≤ scale then ofQuotient negative (digits * Nat.pow 10 scale.toNat) 1
  else ofQuotient negative digits (Nat.pow 10 (-scale).toNat)

/-- The number nearest to an integer. -/
def nearestInt (n : Int) : Binary64 :=
  ofQuotient (n < 0) n.natAbs 1

/-- Whether the number is finite. -/
def isFinite : Binary64 → Bool
  | .finite _ _ => true
  | _ => false

/-- The number itself if it is finite. -/
def finite? (x : Binary64) : Option Binary64 :=
  if x.isFinite then some x else none

/-- The number nearest to an integer divided by a positive number, unless that is infinite. -/
def ofIntQuotient? (n : Int) (denominator : Nat) : Option Binary64 :=
  (ofQuotient (n < 0) n.natAbs denominator).finite?

/-- The number nearest to an integer, unless that is infinite. -/
def ofInt? (n : Int) : Option Binary64 :=
  ofIntQuotient? n 1

/-- The number nearest to a number times a positive quotient. -/
def scaled (x : Binary64) (numerator denominator : Nat) : Binary64 :=
  match x with
  | .finite negative rank =>
    ofQuotient negative (unitsOfRank rank * numerator) (unitsPerOne * denominator)
  | other => other

/-- Whether the number is one of the two zeros. -/
def isZero : Binary64 → Bool
  | .finite _ rank => rank.val == 0
  | _ => false

/-- The integer that the number equals, if there is one. -/
def toInt? : Binary64 → Option Int
  | .finite negative rank =>
    let units := unitsOfRank rank
    if units % unitsPerOne = 0 then
      let whole : Int := ↑(units / unitsPerOne)
      some (if negative then -whole else whole)
    else none
  | _ => none

/-- The integer nearest to the number, a tie going to the even one. -/
def round? : Binary64 → Option Int
  | .finite negative rank =>
    let whole : Int := ↑(roundQuotient (unitsOfRank rank) unitsPerOne)
    some (if negative then -whole else whole)
  | _ => none

/-- Numeric equality: a NaN differs from itself and the two zeros are equal. -/
def numEq (x y : Binary64) : Bool :=
  x ≠ .nan && (x = y || (x.isZero && y.isZero))

end Binary64

end PipelineGraph
