import PipelineGraph.Number.Numeral

/-!
# Integers in texts

An integer is written by an optional sign and decimal digits of any script, between white space.
One low line may stand between two digits. Texts of too many digits are refused; the digits are
counted first, so what stands behind them does not matter then.
-/

namespace PipelineGraph

/-- The greatest number of digits of an integer that is read; leading zeros count. -/
def maxIntegerDigits : Nat := 4300

/-- Why a text is read as no integer. -/
inductive IntegerError where
  | notInteger
  | tooLong (digits : Nat)
deriving DecidableEq

/-- The message about an integer of too many digits. -/
def integerLengthMessage (digits : Nat) : Text :=
  "Exceeds the limit (" ++ .ofNat maxIntegerDigits ++
    " digits) for integer string conversion: value has " ++ .ofNat digits ++
    " digits; use sys.set_int_max_str_digits() to increase the limit"

/--
The digits at the front of a text and what follows them. There has to be one, and each low line
has to stand between two; `behindDigit` says whether the text stands behind a digit.
-/
def takeDigitRun (behindDigit : Bool) : Text → Option (List Nat × Text)
  | [] => if behindDigit then some ([], []) else none
  | c :: rest =>
    match Text.decimalDigit? c with
    | some d => (takeDigitRun true rest).map fun (digits, behind) => (d :: digits, behind)
    | none =>
      if !behindDigit then none
      else if c = '_' then takeDigitRun false rest
      else some ([], c :: rest)

/-- The integer that a text writes. -/
def integerOfText (t : Text) : Except IntegerError Int :=
  let (negative, body) := Numeral.takeSign (t.trim Text.isWhiteSpace)
  match takeDigitRun false body with
  | none => .error .notInteger
  | some (digits, rest) =>
    if maxIntegerDigits < digits.length then .error (.tooLong digits.length)
    else if rest = [] then .ok (Numeral.signedValue negative digits)
    else .error .notInteger

end PipelineGraph
