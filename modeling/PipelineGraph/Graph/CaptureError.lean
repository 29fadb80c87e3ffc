import PipelineGraph.Json.Value
import PipelineGraph.Text.Surrogate

/-!
# Why a graph is refused

A graph is captured from loose values. What is refused is either of a shape that cannot be read
at all, or a record whose fields break the rules; then every fault of that record is reported,
in the order of its fields.
-/

namespace PipelineGraph

/-- What can be wrong with a field. -/
inductive FieldProblem where
  | missing
  | notText
  /-- A text that holds a surrogate. -/
  | notUnicode
  | notKind
  | notPosition
  | notNumeral
  | notNumber
  | unclearFlag
  | notFlag
  | repeatedId (id : Text)
deriving DecidableEq

namespace FieldProblem

/-- The problem with a text that has some problem; a surrogate in it is the greater one. -/
def ofText (t : Text) (problem : FieldProblem) : FieldProblem :=
  if t.holdsSurrogate then notUnicode else problem

/-- The words for an id that comes twice. -/
def repetitionText (id : Text) : Text :=
  "Duplicate node id '" ++ id ++ "' in snapshot"

/-- The code of a problem. -/
def code : FieldProblem → Text
  | missing => "missing"
  | notText => "string_type"
  | notUnicode => "string_unicode"
  | notKind => "enum"
  | notPosition => "model_type"
  | notNumeral => "float_parsing"
  | notNumber => "float_type"
  | unclearFlag => "bool_parsing"
  | notFlag => "bool_type"
  | repeatedId _ => "value_error"

/-- The message of a problem. -/
def message : FieldProblem → Text
  | missing => "Field required"
  | notText => "Input should be a valid string"
  | notUnicode => "Input should be a valid string, unable to parse raw data as a unicode string"
  | notKind => "Input should be 'trigger', 'processing', 'data', 'logic' or 'action'"
  | notPosition => "Input should be a valid dictionary or instance of Position"
  | notNumeral => "Input should be a valid number, unable to parse string as a number"
  | notNumber => "Input should be a valid number"
  | unclearFlag => "Input should be a valid boolean, unable to interpret input"
  | notFlag => "Input should be a valid boolean"
  | repeatedId id => "Value error, " ++ repetitionText id

end FieldProblem

/-- A problem and the path to the field that has it. -/
structure FieldFault where
  path : List Text
  problem : FieldProblem
deriving DecidableEq

/-- The records that a graph is made of. -/
inductive RecordKind where
  | node
  | edge
  | snapshot
deriving DecidableEq

/-- The name of a record in error messages. -/
def RecordKind.name : RecordKind → Text
  | node => "FlowNode"
  | edge => "FlowEdge"
  | snapshot => "GraphSnapshot"

/-- Why a graph is refused. -/
inductive CaptureError where
  /-- A value has no fields to look up. -/
  | noFields (shape : Shape)
  /-- A value has no elements to go through. -/
  | noElements (shape : Shape)
  /-- An element that should be a pair of a key and a value has no elements. -/
  | notPair (index : Nat)
  /-- An element that should be a pair has another length. -/
  | pairLength (index length : Nat)
  /-- The first part of a pair cannot be a key. -/
  | badKey (shape : Shape)
  /-- A node is nested too deep to be copied. -/
  | tooDeep
  /-- The words about a snapshot hold surrogates and cannot be written. -/
  | unencodable (e : Text.EncodeError)
  /-- The fields of a record break the rules. -/
  | invalid (record : RecordKind) (faults : List FieldFault)
deriving DecidableEq

namespace CaptureError

/-- The message of an error. -/
def message : CaptureError → Text
  | noFields shape => "'" ++ shape.name ++ "' object has no attribute 'get'"
  | noElements shape => "'" ++ shape.name ++ "' object is not iterable"
  | notPair index =>
    "cannot convert dictionary update sequence element #" ++ .ofNat index ++ " to a sequence"
  | pairLength index length =>
    "dictionary update sequence element #" ++ .ofNat index ++ " has length " ++ .ofNat length ++
      "; 2 is required"
  | badKey shape => "unhashable type: '" ++ shape.name ++ "'"
  | tooDeep => "maximum recursion depth exceeded while calling a Python object"
  | unencodable e => e.message
  | invalid record faults =>
    .ofNat faults.length ++ " validation error" ++ (if faults.length = 1 then "" else "s") ++
      " for " ++ record.name

end CaptureError

/-- Two results together; if one or both fail, all faults in order. -/
def bothOk {α β : Type} :
    Except (List FieldFault) α → Except (List FieldFault) β → Except (List FieldFault) (α × β)
  | .ok a, .ok b => .ok (a, b)
  | .ok _, .error faults => .error faults
  | .error faults, .ok _ => .error faults
  | .error faults, .error more => .error (faults ++ more)

end PipelineGraph
