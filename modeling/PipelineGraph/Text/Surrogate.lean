import PipelineGraph.Text.Quoted

/-!
# Surrogates that cannot be written

A surrogate is a code point of texts but of no UTF-8 file, so a text that holds one cannot be
encoded. What is reported is the first code point that cannot be written, with the surrogates
that follow it at once.
-/

namespace PipelineGraph.Text

/-- Surrogates that cannot be written: where they begin, how many, and the first of them. -/
structure EncodeError where
  position : Nat
  count : Nat
  first : CodePoint
deriving DecidableEq

/-- The message of an error; a single surrogate is shown. -/
def EncodeError.message (e : EncodeError) : Text :=
  let place : Text :=
    if e.count = 1 then
      "character '" ++ escape e.first ++ "' in position " ++ ofNat e.position
    else
      "characters in position " ++ ofNat e.position ++ "-" ++ ofNat (e.position + e.count - 1)
  "'utf-8' codec can't encode " ++ place ++ ": surrogates not allowed"

/-- The error about the first code point of a class of surrogates in a text, if it holds one. -/
def refuse? (refused : CodePoint → Bool) (t : Text) : Option EncodeError :=
  let position := (t.takeWhile (!refused ·)).length
  match t.drop position with
  | [] => none
  | c :: rest => some ⟨position, (rest.takeWhile CodePoint.isSurrogate).length + 1, c⟩

/-- Why a text cannot be encoded, if it cannot. -/
def encodeError? (t : Text) : Option EncodeError :=
  t.refuse? CodePoint.isSurrogate

/-- The text with three replacement characters, one for each of its bytes, for each surrogate. -/
def replaceSurrogates (t : Text) : Text :=
  t.flatMap fun c =>
    if c.isSurrogate then List.replicate 3 (CodePoint.ofChar '\uFFFD') else [c]

end PipelineGraph.Text
