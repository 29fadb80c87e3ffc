import PipelineGraph.Text.Digit
import PipelineGraph.Text.Identifier
import PipelineGraph.Text.Blank

/-!
# Names in a script

Names are handed out in the order of the requests. A request asks for a base; it gets the base
itself if that is free, and otherwise the base with the least number from two on that is free.
A name is free if it was not handed out or reserved before and is no keyword of the script's
language. Of more numbered names than there are names to avoid one is free, which bounds the
search; it can also be made without a bound of its own.
-/

namespace PipelineGraph.Script

/-- The keywords of the script's language. -/
def keywords : List Text :=
  ["False", "None", "True", "and", "as", "assert", "async", "await", "break", "class",
    "continue", "def", "del", "elif", "else", "except", "finally", "for", "from", "global", "if",
    "import", "in", "is", "lambda", "nonlocal", "not", "or", "pass", "raise", "return", "try",
    "while", "with", "yield"].map Text.ofString

/-- The names that are taken. -/
structure Names where
  taken : List Text

namespace Names

/-- Whether a name can be handed out. -/
def isFree (names : Names) (name : Text) : Bool :=
  !names.taken.contains name && !keywords.contains name

/-- A base as it is if it is an identifier, and otherwise with a word in front. -/
def adjust (base : Text) : Text :=
  if Text.isIdentifier base then base else "node_" ++ base

/-- A base with a number. -/
def numbered (base : Text) (n : Nat) : Text :=
  base ++ "_" ++ Text.ofNat n

/-- The first free name among a count of numbered ones, or else the one behind them. -/
def firstFree (names : Names) (base : Text) : (count n : Nat) → Text
  | 0, n => numbered base n
  | count + 1, n =>
    if names.isFree (numbered base n) then numbered base n else firstFree names base count (n + 1)

/-- The name that a request for a base gets. -/
def choose (names : Names) (base : Text) : Text :=
  if names.isFree (adjust base) then adjust base
  else names.firstFree (adjust base) (names.taken.length + keywords.length) 2

/-- Hand out a name for a base. -/
def claim (names : Names) (base : Text) : Text × Names :=
  let name := names.choose base
  (name, ⟨name :: names.taken⟩)

/-- Hand out names for bases one after another. -/
def claimAll (names : Names) : List Text → List Text × Names
  | [] => ([], names)
  | base :: rest =>
    let (name, names) := names.claim base
    let (more, names) := names.claimAll rest
    (name :: more, names)

/-! ## Requests without a bound -/

/-- The search for a free name from a candidate on. A candidate that is free is the result; behind one
that is not, the base with the next number is the next candidate. -/
inductive Search (names : Names) (base : Text) : (candidate : Text) → (next : Nat) → Text → Prop where
  | found {candidate : Text} {next : Nat} (free : names.isFree candidate = true) :
    Search names base candidate next candidate
  | passed {candidate x : Text} {next : Nat} (busy : names.isFree candidate = false)
    (behind : Search names base (numbered base next) (next + 1) x) :
    Search names base candidate next x

/-- A request for a base and the name that it gets. The search is for the base itself if it is an
identifier and begins with no digit, and otherwise for the base with a word in front. -/
def Request (names : Names) (base x : Text) : Prop :=
  let wanted := if Text.isIdentifier base && !Text.opensWithDigit base then base else "node_" ++ base
  names.Search wanted wanted 2 x

/-- Requests in a row and the names that they get, each of which is taken from then on. -/
inductive Requests : Names → (bases given : List Text) → Prop where
  | nil {names : Names} : Requests names [] []
  | cons {names : Names} {base x : Text} {bases given : List Text} (first : names.Request base x)
    (behind : Requests ⟨x :: names.taken⟩ bases given) :
    Requests names (base :: bases) (x :: given)

end Names

/-! ## Bases -/

/-- Whether a code point is an ASCII letter or digit. -/
def isAsciiAlnum (c : CodePoint) : Bool :=
  (0x30 ≤ c.val && c.val ≤ 0x39) || (0x41 ≤ c.val && c.val ≤ 0x5A) || (0x61 ≤ c.val && c.val ≤ 0x7A)

/-- An ASCII letter in lower case. -/
def lowerLetter (c : CodePoint) : CodePoint :=
  if 0x41 ≤ c.val ∧ c.val ≤ 0x5A then .ofNat (c.val + 0x20) else c

/-- ASCII letters in lower case and digits, with one low line for each run of anything else. -/
def joinWords (afterGap : Bool) : Text → Text
  | [] => []
  | c :: rest =>
    if isAsciiAlnum c then lowerLetter c :: joinWords false rest
    else if afterGap then joinWords true rest
    else CodePoint.ofChar '_' :: joinWords true rest

/-- The first forty code points of the joined words of a text. -/
def slug (t : Text) : Text :=
  (Text.trim (· = CodePoint.ofChar '_') (joinWords true t)).take 40

/-- The base for a node: its label and its id, or its place in the snapshot if the id says nothing. -/
def variableBase (id label : Text) (position : Int) : Text :=
  let idPart : Text := if slug id = [] then "n" ++ Text.ofInt position else slug id
  let labelPart : Text := if slug label = [] then "node" else slug label
  labelPart ++ "_" ++ idPart

end PipelineGraph.Script
