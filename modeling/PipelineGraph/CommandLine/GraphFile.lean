import PipelineGraph.CommandLine.FilePath
import PipelineGraph.Graph.Demo
import PipelineGraph.Text.Utf8

/-!
# Graph files

A graph is loaded from a file in UTF-8 whose lines may end in any of the usual ways, or is the
demo graph if no file is named.
-/

namespace PipelineGraph.CommandLine

/-- Why no graph is loaded. -/
inductive GraphFileError where
  | cannotOpen (e : OpenError) (path : Text)
  | notText (e : Text.Utf8Error)
  | notGraph (e : LoadError)

namespace GraphFileError

/-- The message of an error. -/
def message : GraphFileError → Text
  | cannotOpen e path => e.message path
  | notText e => e.message
  | notGraph e => e.message

/--
Whether an error is a report for the user. Values of shapes that cannot be read are not, nor is
what is nested too deep.
-/
def isReport : GraphFileError → Bool
  | notGraph (.json (.excess (.nesting _))) => false
  | notGraph (.capture .tooDeep) => false
  | notGraph (.capture (.noFields _)) => false
  | notGraph (.capture (.noElements _)) => false
  | notGraph (.capture (.notPair _)) => false
  | notGraph (.capture (.badKey _)) => false
  | _ => true

end GraphFileError

/-- Load the graph at a path, or the demo graph if there is none. -/
def loadGraph (files : Files) : Option Text → Except GraphFileError Snapshot
  | none => .ok .demo
  | some name =>
    let path := FilePath.ofText name
    match openFile files path with
    | .error e => .error (.cannotOpen e path.text)
    | .ok bytes =>
      match Text.ofUtf8 bytes with
      | .error e => .error (.notText e)
      | .ok t =>
        match Snapshot.ofText t.plainLines with
        | .error e => .error (.notGraph e)
        | .ok s => .ok s

end PipelineGraph.CommandLine
