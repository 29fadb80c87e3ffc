import PipelineGraph.Graph.CaptureError
import PipelineGraph.Graph.Node
import PipelineGraph.Number.Numeral

/-!
# Nodes from values

A node comes in one of two shapes. The flat shape has the node's fields side by side. The editor
shape keeps kind, label and config together in an object under `data`, and there a field that is
absent counts as null and an empty position as the empty object. Both shapes are first brought
to the same five entries, and one set of rules turns the entries into a node.

A kind or coordinate is read as characters, so a surrogate in its text is a problem of its own.
What a node keeps is copied from the value it is read from, which limits how deep it may be nested:
of a flat node every entry is copied, of an editor node the config alone.
-/

namespace PipelineGraph

/-- The entries that a node is made from; an entry may be absent. -/
structure NodeEntries where
  id : Option Value
  /-- The key under which the kind stands. -/
  kindKey : Text
  kind : Option Value
  label : Option Value
  config : Option Value
  position : Option Value

namespace NodeEntries

/-- The entries of a flat node; a kind may also stand under the key `kind`. -/
def ofFlat (fields : Fields) : NodeEntries :=
  let typed := fields.get? "type"
  let kinded := fields.get? "kind"
  { id := fields.get? "id"
    kindKey := if typed.isNone && kinded.isSome then "kind" else "type"
    kind := typed <|> kinded
    label := fields.get? "label"
    config := fields.get? "config"
    position := fields.get? "position" }

/-- The entries of an editor node with the given fields under `data`. -/
def ofEditor (fields data : Fields) : NodeEntries :=
  let position := (fields.get? "position").getD .null
  { id := some ((fields.get? "id").getD .null)
    kindKey := "type"
    kind := some ((data.get? "type").getD .null)
    label := data.get? "label"
    config := data.get? "config"
    position := some (if position.isVoid then .object [] else position) }

end NodeEntries

/-- A number as the text that names it; other values are unchanged. -/
def Value.nameNumber : Value → Value
  | .int n => .text (.ofInt n)
  | .float x => .text x.text
  | value => value

/-- The text under a key. -/
def requireText (key : Text) : Option Value → Except (List FieldFault) Text
  | none => .error [⟨[key], .missing⟩]
  | some (.text t) => .ok t
  | some _ => .error [⟨[key], .notText⟩]

namespace Node

/-- The kind that an entry gives. -/
def kindOf (key : Text) : Option Value → Except (List FieldFault) NodeKind
  | none => .error [⟨[key], .missing⟩]
  | some (.text t) =>
    match NodeKind.ofName? t with
    | some kind => .ok kind
    | none => .error [⟨[key], .ofText t .notKind⟩]
  | some _ => .error [⟨[key], .notKind⟩]

/-- The label that an entry gives: null is empty, and what is no text is shown as one. -/
def labelOf : Option Value → Text
  | none => []
  | some .null => []
  | some value => value.plain

/-- The config that an entry gives: an object, or nothing. -/
def configOf : Option Value → Fields
  | some (.object fields) => fields
  | _ => []

/-- The coordinate under a key: a number, a truth value, or a loose numeral with ASCII digits. -/
def coordinateOf (key : Text) (entry : Option Value) : Except (List FieldFault) Binary64 :=
  let fault (problem : FieldProblem) := Except.error [⟨[Text.ofString "position", key], problem⟩]
  match entry with
  | none => .ok (.signedZero false)
  | some (.float x) => .ok x
  | some (.bool b) => .ok (.nearestInt (if b then 1 else 0))
  | some (.int n) =>
    match Binary64.ofInt? n with
    | some x => .ok x
    | none => fault .notNumber
  | some (.text t) =>
    match Numeral.ofLooseText? Text.asciiDigit? t with
    | some numeral => .ok numeral.toBinary64
    | none => fault (.ofText t .notNumeral)
  | some _ => fault .notNumber

/-- The position that an entry gives. -/
def positionOf : Option Value → Except (List FieldFault) Position
  | none => .ok .origin
  | some (.object fields) =>
    (bothOk (coordinateOf "x" (Fields.get? fields "x"))
        (coordinateOf "y" (Fields.get? fields "y"))).map
      fun (x, y) => ⟨x, y⟩
  | some _ => .error [⟨[Text.ofString "position"], .notPosition⟩]

/-- The node that its entries describe. -/
def ofEntries (e : NodeEntries) : Except (List FieldFault) Node :=
  (bothOk (requireText "id" (e.id.map Value.nameNumber))
    (bothOk (kindOf e.kindKey e.kind) (positionOf e.position))).map
      fun (id, kind, position) => ⟨id, kind, labelOf e.label, configOf e.config, position⟩

/-- The entries of a node in either shape. -/
def entriesOf (fields : Fields) : NodeEntries :=
  match fields.get? "data" with
  | some (.object data) => .ofEditor fields data
  | _ => .ofFlat fields

/-- The greatest depth of a value that can be copied. -/
def maxCopyDepth : Nat := 491

/-- How deep the value is that is copied for a node: a flat node is copied as a whole, of an editor's
node the config alone. -/
def copyDepth (fields : Fields) : Nat :=
  match fields.get? "data" with
  | some (.object data) => ((Fields.get? data "config").getD .null).depth
  | _ => (Value.object fields).depth

/-- The node that a value describes. -/
def ofValue : Value → Except CaptureError Node
  | .object fields =>
    if maxCopyDepth < copyDepth fields then .error .tooDeep
    else
      match ofEntries (entriesOf fields) with
      | .ok node => .ok node
      | .error faults => .error (.invalid .node faults)
  | value => .error (.noFields value.shape)

end Node

end PipelineGraph
