import PipelineGraph.Graph.Flow

/-!
# Imports of a script

An import names a module, or something inside a module. However imports are listed, a script
writes the same lines: first the modules of the standard library, then the others, and in each
part first whole modules, then names from modules, in increasing order and once each.
-/

namespace PipelineGraph.Script

/-- A module, or a name inside it. -/
structure Import where
  source : Text
  name : Option Text
deriving DecidableEq

namespace Import

/-- The modules of the standard library that scripts use. -/
def standardModules : List Text :=
  ["os", "smtplib", "email.message", "pathlib"]

/-- The modules that are imported whole. -/
def wholeModules (imports : List Import) : List Text :=
  Text.sort (firstOccurrences ((imports.filter (·.name.isNone)).map (·.source)))

/-- The modules from which names are imported. -/
def namedModules (imports : List Import) : List Text :=
  Text.sort (firstOccurrences ((imports.filter (·.name.isSome)).map (·.source)))

/-- The names that are imported from a module. -/
def namesFrom (imports : List Import) (source : Text) : List Text :=
  Text.sort (firstOccurrences ((imports.filter (·.source = source)).filterMap (·.name)))

/-- The line that imports a module. -/
def wholeLine (source : Text) : Text :=
  "import " ++ source

/-- The line that imports names from a module. -/
def namedLine (imports : List Import) (source : Text) : Text :=
  "from " ++ source ++ " import " ++ Text.join ", " (namesFrom imports source)

/-- The lines for the modules of a class. -/
def part (imports : List Import) (belongs : Text → Bool) : List Text :=
  ((wholeModules imports).filter belongs).map wholeLine ++
    ((namedModules imports).filter belongs).map (namedLine imports)

/-- The lines of all imports; a blank line divides the two parts. -/
def lines (imports : List Import) : List Text :=
  let standard := part imports (· ∈ standardModules)
  let other := part imports (· ∉ standardModules)
  if standard.isEmpty then other
  else if other.isEmpty then standard
  else standard ++ [] :: other

end Import

end PipelineGraph.Script
