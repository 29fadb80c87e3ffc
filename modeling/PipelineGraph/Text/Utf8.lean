import PipelineGraph.Text.Basic

/-!
# Text from bytes

Bytes are read as UTF-8. A code point of more than one byte begins with a byte that says how
many follow and in which range the second byte has to be; the ranges leave out overlong forms,
surrogates, and what lies beyond the last code point. The first bytes that cannot be read are
reported with their place.
-/

namespace PipelineGraph.Text

/-- Why bytes cannot be read. -/
inductive Utf8Fault where
  | invalidStart
  | invalidContinuation
  | unexpectedEnd
deriving DecidableEq

/-- Bytes that cannot be read: how many, where they begin, and the first of them. -/
structure Utf8Error where
  fault : Utf8Fault
  position : Nat
  length : Nat
  first : UInt8
deriving DecidableEq

/-- The words for a fault. -/
def Utf8Fault.text : Utf8Fault → Text
  | invalidStart => "invalid start byte"
  | invalidContinuation => "invalid continuation byte"
  | unexpectedEnd => "unexpected end of data"

/-- The message of an error; a single byte is shown. -/
def Utf8Error.message (e : Utf8Error) : Text :=
  let place : Text :=
    if e.length = 1 then
      "byte 0x" ++ Text.hex 2 e.first.toNat ++ " in position " ++ Text.ofNat e.position
    else
      "bytes in position " ++ Text.ofNat e.position ++ "-" ++ Text.ofNat (e.position + e.length - 1)
  "'utf-8' codec can't decode " ++ place ++ ": " ++ e.fault.text

/-- A code point of which some bytes are read. -/
structure PartialCode where
  first : UInt8
  /-- How many bytes are read. -/
  length : Nat
  /-- How many bytes are owed. -/
  owed : Nat
  /-- The least and the greatest next byte. -/
  low : Nat
  high : Nat
  /-- The bits of the bytes read. -/
  value : Nat

/-- The code point that a byte above ASCII begins. -/
def beginCode? (b : UInt8) : Option PartialCode :=
  let n := b.toNat
  let begun (owed low high value : Nat) : Option PartialCode := some ⟨b, 1, owed, low, high, value⟩
  if n < 0xC2 then none
  else if n < 0xE0 then begun 1 0x80 0xBF (n - 0xC0)
  else if n = 0xE0 then begun 2 0xA0 0xBF 0
  else if n = 0xED then begun 2 0x80 0x9F 0xD
  else if n < 0xF0 then begun 2 0x80 0xBF (n - 0xE0)
  else if n = 0xF0 then begun 3 0x90 0xBF 0
  else if n < 0xF4 then begun 3 0x80 0xBF (n - 0xF0)
  else if n = 0xF4 then begun 3 0x80 0x8F 4
  else none

/-- The text of the bytes from a position on, behind a code point that is partly read. -/
def ofUtf8From (position : Nat) (pending : Option PartialCode) :
    List UInt8 → Except Utf8Error Text
  | [] =>
    match pending with
    | none => .ok []
    | some p => .error ⟨.unexpectedEnd, position - p.length, p.length, p.first⟩
  | b :: rest =>
    match pending with
    | none =>
      if b.toNat < 0x80 then (ofUtf8From (position + 1) none rest).map (.ofNat b.toNat :: ·)
      else
        match beginCode? b with
        | none => .error ⟨.invalidStart, position, 1, b⟩
        | some p => ofUtf8From (position + 1) (some p) rest
    | some p =>
      if p.low ≤ b.toNat ∧ b.toNat ≤ p.high then
        let value := p.value * 64 + b.toNat % 64
        if p.owed ≤ 1 then (ofUtf8From (position + 1) none rest).map (.ofNat value :: ·)
        else
          ofUtf8From (position + 1) (some ⟨p.first, p.length + 1, p.owed - 1, 0x80, 0xBF, value⟩) rest
      else .error ⟨.invalidContinuation, position - p.length, p.length, p.first⟩

/-- The text of bytes. -/
def ofUtf8 (bytes : List UInt8) : Except Utf8Error Text :=
  ofUtf8From 0 none bytes

/-- A text with a line feed for each carriage return, alone or before a line feed. -/
def plainLines : Text → Text
  | [] => []
  | c :: rest =>
    if c = '\r' then
      match rest with
      | next :: more =>
        if next = '\n' then next :: plainLines more else CodePoint.ofChar '\n' :: plainLines (next :: more)
      | [] => [CodePoint.ofChar '\n']
    else c :: plainLines rest

end PipelineGraph.Text
