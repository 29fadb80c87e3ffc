import PipelineGraph.Graph.Snapshot

/-!
# The demo graph

A question-answering pipeline in a row of five nodes: an input is split, stored, handed to a
language model, and answered.
-/

namespace PipelineGraph.Snapshot

/-- A node of the demo graph. -/
def demoNode (id : Text) (kind : NodeKind) (label : Text) (config : Fields) (x y : Int) : Node :=
  ⟨id, kind, label, config, ⟨.nearestInt x, .nearestInt y⟩⟩

/-- An edge of the demo graph. -/
def demoEdge (source target : Text) : Edge :=
  ⟨"e" ++ source ++ "-" ++ target, source, target, true⟩

/-- The demo graph. -/
def demo : Snapshot where
  nodes :=
    [demoNode "1" .trigger "User Input" [] 100 100,
      demoNode "2" .processing "Text Splitter" [("chunkSize", .int 1000)] 400 100,
      demoNode "3" .data "Vector DB" [("index", .text "main-index")] 700 100,
      demoNode "4" .processing "LLM (GPT-4)"
        [("model", .text "gpt-4"), ("temperature", .float (.ofDecimal false 7 (-1)))] 700 300,
      demoNode "5" .action "Output Response" [] 1000 300]
  edges := [demoEdge "1" "2", demoEdge "2" "3", demoEdge "3" "4", demoEdge "4" "5"]
  distinct := by simp only [demoNode, List.map_cons, List.map_nil]; decide

end PipelineGraph.Snapshot
