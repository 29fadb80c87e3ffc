import PipelineGraph.Json.Value
import PipelineGraph.Number.Numeral

/-!
# Tokens of JSON text

A JSON text is a row of tokens between blanks. Scanning never fails: a string that breaks a rule
becomes a token that carries its fault, and a code point that opens no token is a stray one.
Whether a reader meets such a token, and what it then expected, is for the reader to say.

Besides the numbers of JSON, the words `NaN`, `Infinity` and `-Infinity` are scalars.
-/

namespace PipelineGraph.Json

/-- What can be wrong with a JSON text. -/
inductive Fault where
  | expectingValue
  | expectingKey
  | expectingColon
  | expectingComma
  | extraData
  | unterminatedString
  | controlCharacter
  | invalidEscape
  | invalidUnicodeEscape
  | byteOrderMark
deriving DecidableEq

/-- A token; a faulty string carries its fault and the offset of it. -/
inductive Token where
  | openBracket
  | closeBracket
  | openBrace
  | closeBrace
  | comma
  | colon
  | text (t : Text)
  | scalar (v : Value)
  | faulty (fault : Fault) (offset : Nat)
  | stray

/-- A token with the offset at which it begins. -/
structure Lexeme where
  offset : Nat
  token : Token

/-- The blanks between tokens. -/
def isBlank (c : CodePoint) : Bool :=
  c = ' ' || c = '\t' || c = '\n' || c = '\r'

/-- The value of a hexadecimal digit. -/
def hexDigit? (c : CodePoint) : Option Nat :=
  if 0x30 ≤ c.val ∧ c.val ≤ 0x39 then some (c.val - 0x30)
  else if 0x41 ≤ c.val ∧ c.val ≤ 0x46 then some (c.val - 0x37)
  else if 0x61 ≤ c.val ∧ c.val ≤ 0x66 then some (c.val - 0x57)
  else none

/-- The code point that four hexadecimal digits name. -/
def hexCode? (a b c d : CodePoint) : Option CodePoint := do
  let a ← hexDigit? a
  let b ← hexDigit? b
  let c ← hexDigit? c
  let d ← hexDigit? d
  return .ofNat (((a * 16 + b) * 16 + c) * 16 + d)

/-- What a backslash and one more code point stand for. -/
def shortEscape? (c : CodePoint) : Option CodePoint :=
  if c = '"' ∨ c = '\\' ∨ c = '/' then some c
  else if c = 'b' then some (.ofNat 0x08)
  else if c = 'f' then some (.ofNat 0x0C)
  else if c = 'n' then some '\n'
  else if c = 'r' then some '\r'
  else if c = 't' then some '\t'
  else none

/-- Whether a text begins with the escape of a low surrogate. -/
def opensLowEscape : Text → Bool
  | slash :: u :: a :: b :: c :: d :: _ =>
    slash = '\\' && u = 'u' && (hexCode? a b c d).any (·.isLowSurrogate)
  | _ => false

/-- The code point of a surrogate pair. -/
def joinSurrogates (high low : CodePoint) : CodePoint :=
  .ofNat (0x10000 + (high.val - 0xD800) * 0x400 + (low.val - 0xDC00))

/-- An escaped code point before the rest of a string; a pair of surrogate escapes is one. -/
def prependEscaped (code : CodePoint) (behind : Text) (content : Text) : Text :=
  match content with
  | low :: more =>
    if code.isHighSurrogate && opensLowEscape behind then joinSurrogates code low :: more
    else code :: low :: more
  | [] => [code]

/--
The content of a string from behind its opening quote, and how many code points it takes with
its closing quote. `start` is the offset of the opening quote and `offset` that of the text.
The four digits of an escape must have something behind them.
-/
def scanString (start offset : Nat) : Text → Except (Fault × Nat) (Text × Nat)
  | [] => .error (.unterminatedString, start)
  | c :: rest =>
    if c = '"' then .ok ([], 1)
    else if c = '\\' then
      match rest with
      | [] => .error (.unterminatedString, start)
      | e :: behind =>
        if e = 'u' then
          match behind with
          | a :: b :: c :: d :: tail =>
            match tail with
            | [] => .error (.invalidUnicodeEscape, offset + 1)
            | f :: more =>
              match hexCode? a b c d with
              | none => .error (.invalidUnicodeEscape, offset + 1)
              | some code => do
                let (content, width) ← scanString start (offset + 6) (f :: more)
                return (prependEscaped code (f :: more) content, width + 6)
          | _ => .error (.invalidUnicodeEscape, offset + 1)
        else
          match shortEscape? e with
          | none => .error (.invalidEscape, offset)
          | some code => do
            let (content, width) ← scanString start (offset + 2) behind
            return (code :: content, width + 2)
    else if c.val < 0x20 then .error (.controlCharacter, offset)
    else do
      let (content, width) ← scanString start (offset + 1) rest
      return (c :: content, width + 1)

/-- The whole part of a number: one zero, or digits that do not begin with a zero. -/
def scanWhole : Text → List Nat × Text
  | [] => ([], [])
  | c :: rest => if c = '0' then ([0], rest) else Numeral.takeDigits Text.asciiDigit? (c :: rest)

/-- The fraction digits behind a point; a point without digits is not part of a number. -/
def scanFraction (t : Text) : List Nat × Text :=
  match t with
  | c :: rest =>
    if c = '.' then
      match Numeral.takeDigits Text.asciiDigit? rest with
      | ([], _) => ([], t)
      | (digits, behind) => (digits, behind)
    else ([], t)
  | [] => ([], [])

/-- The exponent behind its mark; a mark without digits is not part of a number. -/
def scanExponent (t : Text) : Option Int × Text :=
  match t with
  | c :: rest =>
    if c = 'e' ∨ c = 'E' then
      let (negative, behind) := Numeral.takeSign rest
      match Numeral.takeDigits Text.asciiDigit? behind with
      | ([], _) => (none, t)
      | (digits, behind) => (some (Numeral.signedValue negative digits), behind)
    else (none, t)
  | [] => (none, [])

/-- The number at the front of a text and what follows it. -/
def scanNumber (t : Text) : Option (Value × Text) :=
  let (negative, unsigned) :=
    match t with
    | c :: rest => if c = '-' then (true, rest) else (false, t)
    | [] => (false, [])
  let (whole, rest) := scanWhole unsigned
  if whole = [] then none
  else
    let (fraction, rest) := scanFraction rest
    let (exponent?, rest) := scanExponent rest
    if fraction = [] ∧ exponent? = none then
      some (.int (Numeral.signedValue negative whole), rest)
    else
      let digits := Numeral.valueOfDigits (whole ++ fraction)
      some (.float (.ofDecimal negative digits (exponent?.getD 0 - fraction.length)), rest)

/-- The scalars that are words. -/
def wordScalars : List (String × Value) :=
  [("null", .null), ("true", .bool true), ("false", .bool false), ("NaN", .float .nan),
    ("Infinity", .float (.infinite false)), ("-Infinity", .float (.infinite true))]

/-- The token at the front of a text without blanks, and how many code points it takes. -/
def scanToken (offset : Nat) (c : CodePoint) (rest : Text) : Token × Nat :=
  if c = '[' then (.openBracket, 1)
  else if c = ']' then (.closeBracket, 1)
  else if c = CodePoint.ofNat 0x7B then (.openBrace, 1)
  else if c = CodePoint.ofNat 0x7D then (.closeBrace, 1)
  else if c = ',' then (.comma, 1)
  else if c = ':' then (.colon, 1)
  else if c = '"' then
    match scanString offset (offset + 1) rest with
    | .ok (t, width) => (.text t, width + 1)
    | .error (fault, place) => (.faulty fault place, 1)
  else
    match wordScalars.find? fun w => Text.startsWith (c :: rest) w.1 with
    | some (word, value) => (.scalar value, word.length)
    | none =>
      match scanNumber (c :: rest) with
      | some (value, behind) => (.scalar value, rest.length + 1 - behind.length)
      | none => (.stray, 1)

/-- The lexemes of a text at an offset whose first `skip` code points belong to the last token. -/
def lexemesFrom (skip offset : Nat) : Text → List Lexeme
  | [] => []
  | c :: rest =>
    if 0 < skip then lexemesFrom (skip - 1) (offset + 1) rest
    else if isBlank c then lexemesFrom 0 (offset + 1) rest
    else
      let (token, width) := scanToken offset c rest
      ⟨offset, token⟩ :: lexemesFrom (width - 1) (offset + 1) rest

/-- The lexemes of a text. -/
def lexemes (t : Text) : List Lexeme :=
  lexemesFrom 0 0 t

end PipelineGraph.Json
