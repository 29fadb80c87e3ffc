import PipelineGraph.Graph.NodeCapture

/-!
# Edges from values

An edge is read from an object, or from a sequence of pairs of a key and a value. An edge
without an id is named after its ends.
-/

namespace PipelineGraph

namespace Value

/-- The elements of a value that has some: items, code points, or keys. -/
def elements? : Value → Option (List Value)
  | .list items => some items
  | .text t => some (t.map fun c => .text [c])
  | .object fields => some (fields.map fun field => .text field.1)
  | _ => none

/-- Set a field from an element that should be a pair; a key that is no text names no field. -/
def putPair (fields : Fields) (index : Nat) (element : Value) : Except CaptureError Fields :=
  match element.elements? with
  | none => .error (.notPair index)
  | some [key, value] =>
    match key with
    | .text t => .ok (fields.put t value)
    | .list _ => .error (.badKey .list)
    | .object _ => .error (.badKey .object)
    | _ => .ok fields
  | some other => .error (.pairLength index other.length)

/-- The fields that a value lists: those of an object, or the pairs of a sequence. -/
def toFields : Value → Except CaptureError Fields
  | .object fields => .ok fields
  | value =>
    match value.elements? with
    | none => .error (.noElements value.shape)
    | some elements =>
      elements.zipIdx.foldlM (fun fields (element, index) => putPair fields index element) []

end Value

namespace Edge

/-- The words for the two truth values, letter case apart. -/
def flagWords : List (Text × Bool) :=
  [("0", false), ("off", false), ("f", false), ("false", false), ("n", false), ("no", false),
    ("1", true), ("on", true), ("t", true), ("true", true), ("y", true), ("yes", true)]

/-- The integers of 64 bits go from the negative of this number to below it. -/
def int64Bound : Int := 0x8000000000000000

/-- The flag that a number gives, where `low` is the least number that is a candidate. -/
def flagOfInt (low n : Int) : Except FieldProblem Bool :=
  if n = 0 then .ok false
  else if n = 1 then .ok true
  else if low ≤ n ∧ n < int64Bound then .error .unclearFlag
  else .error .notFlag

/--
The flag that a value gives: a truth value, zero or one, or a word. An integer of 64 bits is a
candidate, and so is a number with such a value, the least one excepted.
-/
def flagOfValue : Value → Except FieldProblem Bool
  | .bool b => .ok b
  | .int n => flagOfInt (-int64Bound) n
  | .float x =>
    match x.toInt? with
    | some n => flagOfInt (-int64Bound + 1) n
    | none => .error .notFlag
  | .text t =>
    match flagWords.lookup (t.map Numeral.lowerAscii) with
    | some b => .ok b
    | none => .error (.ofText t .unclearFlag)
  | _ => .error .notFlag

/-- The flag that an entry gives; it is down if there is none. -/
def flagOf (key : Text) : Option Value → Except (List FieldFault) Bool
  | none => .ok false
  | some value => (flagOfValue value).mapError fun problem => [⟨[key], problem⟩]

/-- Whether an entry is there and is not null. -/
def isGiven : Option Value → Bool
  | none => false
  | some .null => false
  | some _ => true

/-- The id of an edge: its own if it says something, else one made of its ends. -/
def idEntry (id source target : Option Value) : Option Value :=
  if (id.getD .null).isVoid && isGiven source && isGiven target then
    some (.text ("e" ++ (source.getD .null).plain ++ "-" ++ (target.getD .null).plain))
  else id

/-- The edge that fields describe. -/
def ofFields (fields : Fields) : Except (List FieldFault) Edge :=
  let source := (fields.get? "source").map Value.nameNumber
  let target := (fields.get? "target").map Value.nameNumber
  let id := idEntry ((fields.get? "id").map Value.nameNumber) source target
  (bothOk (requireText "id" id)
    (bothOk (requireText "source" source)
      (bothOk (requireText "target" target) (flagOf "animated" (fields.get? "animated"))))).map
        fun (id, source, target, animated) => ⟨id, source, target, animated⟩

/-- The edge that a value describes. -/
def ofValue (value : Value) : Except CaptureError Edge := do
  let fields ← value.toFields
  match ofFields fields with
  | .ok edge => return edge
  | .error faults => throw (.invalid .edge faults)

end Edge

end PipelineGraph
