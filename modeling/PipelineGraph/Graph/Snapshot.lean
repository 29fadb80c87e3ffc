import PipelineGraph.Graph.EdgeCapture
import PipelineGraph.Json.Reader

/-!
# Snapshots

A snapshot is a graph at one moment: nodes with distinct ids, and edges. An edge may name a node
that is not there. Nodes and edges keep the order in which they were given.

All nodes are read before any edge, and the ids are compared last.
-/

namespace PipelineGraph

/-- The first text of a list that is among some texts or stands earlier in the list. -/
def firstRepeated? (seen : List Text) : List Text → Option Text
  | [] => none
  | t :: rest => if t ∈ seen then some t else firstRepeated? (t :: seen) rest

/-- A list without a repeated text shares nothing with the texts seen and has no duplicates. -/
theorem firstRepeated?_eq_none_iff {seen texts : List Text} :
    firstRepeated? seen texts = none ↔ texts.Nodup ∧ ∀ t ∈ texts, t ∉ seen := by
  induction texts generalizing seen with
  | nil => simp [firstRepeated?]
  | cons t rest ih =>
    by_cases h : t ∈ seen
    · simp [firstRepeated?, h]
    · simp only [firstRepeated?, h, if_false, ih, List.nodup_cons, List.mem_cons, not_or,
        forall_eq_or_imp, not_false_eq_true, true_and]
      constructor
      · rintro ⟨hrest, hnew⟩
        exact ⟨⟨fun ht => (hnew t ht).1 rfl, hrest⟩, fun u hu => (hnew u hu).2⟩
      · rintro ⟨⟨ht, hrest⟩, hseen⟩
        exact ⟨hrest, fun u hu => ⟨fun hut => ht (hut ▸ hu), hseen u hu⟩⟩

/-- A graph at one moment. -/
structure Snapshot where
  nodes : List Node
  edges : List Edge
  /-- No two nodes share an id. -/
  distinct : (nodes.map (·.id)).Nodup

/-- Why a graph file is refused: its text is no JSON, or its value no graph. -/
inductive LoadError where
  | json (e : Json.ReadError)
  | capture (e : CaptureError)

/-- The message of an error. -/
def LoadError.message : LoadError → Text
  | json e => e.message
  | capture e => e.message

namespace Snapshot

/-- The ids of the nodes. -/
def ids (s : Snapshot) : List Text :=
  s.nodes.map (·.id)

/-- The error about an id that repeats; its words are written down before they are reported. -/
def repetitionError (id : Text) : CaptureError :=
  match (FieldProblem.repetitionText id).encodeError? with
  | some e => .unencodable e
  | none => .invalid .snapshot [⟨[], .repeatedId id⟩]

/-- The snapshot of nodes and edges, unless an id repeats. -/
def ofParts (nodes : List Node) (edges : List Edge) : Except CaptureError Snapshot :=
  match h : firstRepeated? [] (nodes.map (·.id)) with
  | some id => .error (repetitionError id)
  | none => .ok ⟨nodes, edges, (firstRepeated?_eq_none_iff.1 h).1⟩

/-- The elements of a value that nodes or edges are read from. -/
def elementsOf (value : Value) : Except CaptureError (List Value) :=
  match value.elements? with
  | some elements => .ok elements
  | none => .error (.noElements value.shape)

/-- The snapshot of a value with nodes and a value with edges. -/
def capture (nodes edges : Value) : Except CaptureError Snapshot := do
  let nodes ← (← elementsOf nodes).mapM Node.ofValue
  let edges ← (← elementsOf edges).mapM Edge.ofValue
  ofParts nodes edges

/-- What a graph's object holds under a key; a void entry is the empty list. -/
def part (fields : Fields) (key : Text) : Value :=
  let value := (fields.get? key).getD .null
  if value.isVoid then .list [] else value

/-- The snapshot that a value describes. -/
def ofValue : Value → Except CaptureError Snapshot
  | .object fields => capture (part fields "nodes") (part fields "edges")
  | value => .error (.noFields value.shape)

/-- The snapshot that a JSON text describes. -/
def ofText (t : Text) : Except LoadError Snapshot :=
  match Json.read t with
  | .error e => .error (.json e)
  | .ok value =>
    match ofValue value with
    | .error e => .error (.capture e)
    | .ok s => .ok s

end Snapshot

end PipelineGraph
