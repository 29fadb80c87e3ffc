import PipelineGraph.Json.Token
import PipelineGraph.Number.Integer

/-!
# Reading JSON text

The reader takes the lexemes of a text one after another. Its state says what may come next,
and a stack holds the lists and objects that are still open. A text is a value if the last state
is a finished value with nothing open around it; otherwise the first lexeme that cannot come is
reported, or the end of the text.

A key that comes twice in an object keeps its first place and takes the last value.

A reader has limits: how many lists and objects may be open at the same time, and how many digits
an integer may have. Who goes beyond a limit is refused at that lexeme, whatever comes later.
-/

namespace PipelineGraph.Json

/-- How far a reader goes. A limit that is absent is none. -/
structure Limits where
  /-- The greatest number of lists and objects that are open at the same time. -/
  nesting : Option Nat
  /-- The greatest number of digits of an integer. -/
  digits : Option Nat

namespace Limits

/-- The limits for texts of unknown origin. -/
def standard : Limits where
  nesting := some 988
  digits := some maxIntegerDigits

/-- No limits. -/
def unbounded : Limits where
  nesting := none
  digits := none

end Limits

/-- What goes beyond a limit. -/
inductive Excess where
  /-- One more list or object of the given shape. -/
  | nesting (shape : Shape)
  /-- An integer of so many digits. -/
  | digits (count : Nat)
deriving DecidableEq

/-- Why lexemes are refused: a fault at an offset, or a limit. -/
inductive Refusal where
  | fault (f : Fault) (offset : Nat)
  | excess (e : Excess)

/-- A list or object that is still open: what it holds so far, and the key waiting for a value. -/
inductive Frame where
  | items (done : List Value)
  | fields (done : Fields) (key : Text)

/-- What may come next. -/
inductive State where
  /-- A value. -/
  | value (stack : List Frame)
  /-- The first item of a list, or its end. -/
  | firstItem (stack : List Frame)
  /-- The first key of an object, or its end. -/
  | firstKey (stack : List Frame)
  /-- A key behind a comma. -/
  | key (done : Fields) (stack : List Frame)
  /-- The colon behind a key. -/
  | colon (done : Fields) (key : Text) (stack : List Frame)
  /-- What follows a finished value. -/
  | after (v : Value) (stack : List Frame)

namespace State

/-- What is wrong if none of what may come comes. -/
def expectation : State → Fault
  | value _ => .expectingValue
  | firstItem _ => .expectingValue
  | firstKey _ => .expectingKey
  | key _ _ => .expectingKey
  | colon _ _ _ => .expectingColon
  | after _ [] => .extraData
  | after _ (_ :: _) => .expectingComma

/-- The state behind the first token of a value. -/
def beginValue? (stack : List Frame) : Token → Option State
  | .scalar v => some (after v stack)
  | .text t => some (after (.text t) stack)
  | .openBracket => some (firstItem stack)
  | .openBrace => some (firstKey stack)
  | _ => none

/-- The state behind a key. -/
def beginField? (done : Fields) (stack : List Frame) : Token → Option State
  | .text t => some (colon done t stack)
  | _ => none

/-- The state behind a token that may come. -/
def next? : State → Token → Option State
  | value stack, token => beginValue? stack token
  | firstItem stack, .closeBracket => some (after (.list []) stack)
  | firstItem stack, token => beginValue? (.items [] :: stack) token
  | firstKey stack, .closeBrace => some (after (.object []) stack)
  | firstKey stack, token => beginField? [] stack token
  | key done stack, token => beginField? done stack token
  | colon done k stack, .colon => some (value (.fields done k :: stack))
  | after v (.items done :: stack), .comma => some (value (.items (done ++ [v]) :: stack))
  | after v (.items done :: stack), .closeBracket => some (after (.list (done ++ [v])) stack)
  | after v (.fields done k :: stack), .comma => some (key (done.put k v) stack)
  | after v (.fields done k :: stack), .closeBrace => some (after (.object (done.put k v)) stack)
  | _, _ => none

/-- Whether a string may come. -/
def takesString : State → Bool
  | colon _ _ _ => false
  | after _ _ => false
  | _ => true

/-- What is open around a value that may come. -/
def around? : State → Option (List Frame)
  | value stack => some stack
  | firstItem stack => some (.items [] :: stack)
  | _ => none

/-- What goes beyond a limit if one more list or object opens. -/
def nestingExcess? (limits : Limits) (stack : List Frame) (shape : Shape) : Option Excess :=
  if limits.nesting.any (· ≤ stack.length) then some (.nesting shape) else none

/-- What goes beyond a limit as a value begins inside what is open. -/
def valueExcess? (limits : Limits) (stack : List Frame) : Token → Option Excess
  | .openBracket => nestingExcess? limits stack .list
  | .openBrace => nestingExcess? limits stack .object
  | .scalar (.int n) =>
    if limits.digits.any (Nat.pow 10 · ≤ n.natAbs) then some (.digits (Text.ofNat n.natAbs).length)
    else none
  | _ => none

/-- What goes beyond a limit as a token comes; a token that cannot come does not. -/
def excess? (limits : Limits) (s : State) (token : Token) : Option Excess :=
  s.around?.bind fun stack => valueExcess? limits stack token

/-- Why a lexeme that cannot come is refused. -/
def refuse (s : State) (l : Lexeme) : Refusal :=
  match l.token with
  | .faulty fault place =>
    if s.takesString then .fault fault place else .fault s.expectation l.offset
  | _ => .fault s.expectation l.offset

/-- The value that the lexemes complete, where `stop` is the offset of the end. -/
def read (limits : Limits) (stop : Nat) : State → List Lexeme → Except Refusal Value
  | after v [], [] => .ok v
  | s, [] => .error (.fault s.expectation stop)
  | s, l :: rest =>
    match s.excess? limits l.token, s.next? l.token with
    | some e, _ => .error (.excess e)
    | none, some s' => s'.read limits stop rest
    | none, none => .error (s.refuse l)

end State

/-- Why a text is no value; lines and columns count from one, offsets from zero. -/
inductive ReadError where
  | malformed (fault : Fault) (line column offset : Nat)
  | excess (e : Excess)
deriving DecidableEq

namespace ReadError

/-- The error for a fault at an offset of a text. -/
def locate (t : Text) (fault : Fault) (offset : Nat) : ReadError :=
  let before := t.take offset
  .malformed fault (before.count (CodePoint.ofChar '\n') + 1)
    ((before.reverse.takeWhile (· ≠ CodePoint.ofChar '\n')).length + 1) offset

/-- The error for a refusal of the lexemes of a text. -/
def ofRefusal (t : Text) : Refusal → ReadError
  | .fault f offset => locate t f offset
  | .excess e => excess e

/-- The words for a fault. -/
def faultText : Fault → Text
  | .expectingValue => "Expecting value"
  | .expectingKey => "Expecting property name enclosed in double quotes"
  | .expectingColon => "Expecting ':' delimiter"
  | .expectingComma => "Expecting ',' delimiter"
  | .extraData => "Extra data"
  | .unterminatedString => "Unterminated string starting at"
  | .controlCharacter => "Invalid control character at"
  | .invalidEscape => "Invalid \\escape"
  | .invalidUnicodeEscape => "Invalid \\uXXXX escape"
  | .byteOrderMark => "Unexpected UTF-8 BOM (decode using utf-8-sig)"

/-- The message about what goes beyond a limit. -/
def excessMessage : Excess → Text
  | .nesting shape =>
    let opened : Text := if shape = .list then "array" else "object"
    "maximum recursion depth exceeded while decoding a JSON " ++ opened ++ " from a unicode string"
  | .digits count => integerLengthMessage count

/-- The message of an error. -/
def message : ReadError → Text
  | malformed fault line column offset =>
    faultText fault ++ ": line " ++ .ofNat line ++ " column " ++ .ofNat column ++
      " (char " ++ .ofNat offset ++ ")"
  | excess e => excessMessage e

end ReadError

/-- The value of a JSON text within limits. A text may not begin with a byte order mark. -/
def readWithin (limits : Limits) (t : Text) : Except ReadError Value :=
  if t.head? = some (CodePoint.ofNat 0xFEFF) then .error (.locate t .byteOrderMark 0)
  else ((State.value []).read limits t.length (lexemes t)).mapError (.ofRefusal t)

/-- The value of a JSON text. -/
def read (t : Text) : Except ReadError Value :=
  readWithin .standard t

end PipelineGraph.Json
