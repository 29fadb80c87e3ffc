import PipelineGraph.Graph.Snapshot
import PipelineGraph.Json.Writer

/-!
# Pipeline documents

A document is the structure of a graph without its canvas: nodes with id, kind, label and
config, and edges with their ends, both in the order of the snapshot. Dangling edges stay.
JSON has no numbers that are not finite, so they are written as null.

A surrogate in a text stays, but a key of a document is written as characters. A key of the config
itself has replacement characters for its surrogates, and keys that become the same are one; a
surrogate in a key further inside, or a value nested too deep, is an error. The first one counts.
-/

namespace PipelineGraph

/-- Why a graph has no document. -/
inductive DocumentError where
  | tooDeep
  | badKey (e : Text.EncodeError)
deriving DecidableEq

/-- The message of an error. -/
def DocumentError.message : DocumentError → Text
  | tooDeep => "Maximum serialization depth exceeded"
  | badKey e => e.message

namespace Value

mutual

/-- The value with null in place of every number that is not finite. -/
def finiteOnly : Value → Value
  | .float x => if x.isFinite then .float x else .null
  | .list items => .list (finiteItems items)
  | .object fields => .object (finiteFields fields)
  | value => value

/-- The items with null in place of every number that is not finite. -/
def finiteItems : List Value → List Value
  | [] => []
  | item :: rest => finiteOnly item :: finiteItems rest

/-- The fields with null in place of every number that is not finite. -/
def finiteFields : List (Text × Value) → List (Text × Value)
  | [] => []
  | (key, value) :: rest => (key, finiteOnly value) :: finiteFields rest

end

mutual

/-- What keeps a value out of a document, where `room` is how many levels of values are left. -/
def documentError? : (room : Nat) → Value → Option DocumentError
  | 0, _ => some .tooDeep
  | room + 1, .list items => documentErrorOfItems? room items
  | room + 1, .object fields => documentErrorOfFields? room fields
  | _ + 1, _ => none

/-- What keeps items out of a document. -/
def documentErrorOfItems? (room : Nat) : List Value → Option DocumentError
  | [] => none
  | item :: rest => documentError? room item <|> documentErrorOfItems? room rest

/-- What keeps fields out of a document; a key comes before its value. -/
def documentErrorOfFields? (room : Nat) : List (Text × Value) → Option DocumentError
  | [] => none
  | (key, value) :: rest =>
    (Text.encodeError? key).map .badKey <|> documentError? room value <|>
      documentErrorOfFields? room rest

end

end Value

/-- The greatest number of levels of values in an entry of a config. -/
def maxDocumentDepth : Nat := 255

/-- What keeps the config of a node out of a document. -/
def Node.documentError? (n : Node) : Option DocumentError :=
  n.config.findSome? fun (_, value) => value.documentError? maxDocumentDepth

/-- The config of a node in a document. -/
def Node.documentConfig (n : Node) : Fields :=
  (Value.finiteFields n.config).foldl
    (fun fields (key, value) => fields.put key.replaceSurrogates value) []

/-- The entry of a node in a document. -/
def Node.documentEntry (n : Node) : Value :=
  .object
    [("id", .text n.id), ("type", .text n.kind.name), ("label", .text n.label),
      ("config", .object n.documentConfig)]

/-- The entry of an edge in a document. -/
def Edge.documentEntry (e : Edge) : Value :=
  .object [("id", .text e.id), ("source", .text e.source), ("target", .text e.target)]

namespace Snapshot

/-- The document of a graph. -/
def document (s : Snapshot) : Except DocumentError Value :=
  match s.nodes.findSome? Node.documentError? with
  | some e => .error e
  | none =>
    .ok (.object
      [("nodes", .list (s.nodes.map Node.documentEntry)),
        ("edges", .list (s.edges.map Edge.documentEntry))])

/-- The text of a document; an indent below zero counts as zero. -/
def documentText (s : Snapshot) (indent : Int) : Except DocumentError Text :=
  s.document.map (Json.write indent.toNat)

end Snapshot

end PipelineGraph
