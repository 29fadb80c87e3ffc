import PipelineGraph.Number.Shortest
import PipelineGraph.Text.Quoted

/-!
# Values

Graph files and node settings hold JSON values. Integers and binary64 numbers are kept apart, as
a numeral with a point or an exponent says more than its value: it decides how the number is
written again. The fields of an object keep the order in which their keys first came.

Two texts of a value are in use. `Value.literal` is the notation of log messages and of
generated code, and `Value.plain` leaves a text bare.
-/

namespace PipelineGraph

/-- A JSON value. -/
inductive Value where
  | null
  | bool (b : Bool)
  | int (n : Int)
  | float (x : Binary64)
  | text (t : Text)
  | list (items : List Value)
  | object (fields : List (Text × Value))

/-- Keys with their values, in the order of the keys. -/
abbrev Fields := List (Text × Value)

namespace Fields

/-- The value under a key. -/
def get? (fields : Fields) (key : Text) : Option Value :=
  fields.lookup key

/-- Set the value under a key; a new key goes to the end and an old one keeps its place. -/
def put (key : Text) (value : Value) : Fields → Fields
  | [] => [(key, value)]
  | (k, v) :: rest => if k = key then (k, value) :: rest else (k, v) :: put key value rest

end Fields

/-- The seven shapes of values. -/
inductive Shape where
  | null
  | bool
  | int
  | float
  | text
  | list
  | object
deriving DecidableEq

/-- The name of a shape in error messages. -/
def Shape.name : Shape → Text
  | null => "NoneType"
  | bool => "bool"
  | int => "int"
  | float => "float"
  | text => "str"
  | list => "list"
  | object => "dict"

namespace Value

/-- The shape of a value. -/
def shape : Value → Shape
  | null => .null
  | bool _ => .bool
  | int _ => .int
  | float _ => .float
  | text _ => .text
  | list _ => .list
  | object _ => .object

/-- Whether a value says nothing: null, false, a zero, or something empty. -/
def isVoid : Value → Bool
  | null => true
  | bool b => !b
  | int n => n == 0
  | float x => x.isZero
  | text t => t.isEmpty
  | list items => items.isEmpty
  | object fields => fields.isEmpty

mutual

/-- How deep a value is nested: a list or object is one deeper than what it holds. -/
def depth : Value → Nat
  | list items => depthOfItems items + 1
  | object fields => depthOfFields fields + 1
  | _ => 0

/-- The greatest depth of the items of a list. -/
def depthOfItems : List Value → Nat
  | [] => 0
  | item :: rest => max (depth item) (depthOfItems rest)

/-- The greatest depth of the values of fields. -/
def depthOfFields : List (Text × Value) → Nat
  | [] => 0
  | (_, value) :: rest => max (depth value) (depthOfFields rest)

end

mutual

/-- How many levels of values a value has: a value without parts is one level, and what holds others
adds one to them. -/
def levels : Value → Nat
  | list items => levelsOfItems items + 1
  | object fields => levelsOfFields fields + 1
  | _ => 1

/-- The greatest number of levels of the items of a list. -/
def levelsOfItems : List Value → Nat
  | [] => 0
  | item :: rest => max (levels item) (levelsOfItems rest)

/-- The greatest number of levels of the values of fields. -/
def levelsOfFields : List (Text × Value) → Nat
  | [] => 0
  | (_, value) :: rest => max (levels value) (levelsOfFields rest)

end

/-- The literal of a truth value. -/
def boolText (b : Bool) : Text :=
  if b then "True" else "False"

mutual

/-- The literal of a value. -/
def literal : Value → Text
  | null => "None"
  | bool b => boolText b
  | int n => .ofInt n
  | float x => x.text
  | text t => t.quoted
  | list items => "[" ++ Text.join ", " (literals items) ++ "]"
  | object fields => "\x7b" ++ Text.join ", " (fieldLiterals fields) ++ "\x7d"

/-- The literals of the items of a list. -/
def literals : List Value → List Text
  | [] => []
  | item :: rest => literal item :: literals rest

/-- The literals of the fields of an object. -/
def fieldLiterals : List (Text × Value) → List Text
  | [] => []
  | (key, value) :: rest => (key.quoted ++ ": " ++ literal value) :: fieldLiterals rest

end

/-- The text of a value: a text is itself, anything else its literal. -/
def plain : Value → Text
  | text t => t
  | value => literal value

end Value

end PipelineGraph
