import PipelineGraph.Text.Basic

/-!
# Arguments of the command line

An argument that does not begin with a hyphen is positional. The option `--format` takes the
argument behind it, whatever that is; the last one counts. Every other argument that begins with
a hyphen is a flag.
-/

namespace PipelineGraph.CommandLine

/-- The arguments by their use. -/
structure Arguments where
  positional : List Text
  format : Option Text
deriving DecidableEq

namespace Arguments

/-- A positional argument in front. -/
def cons (argument : Text) (a : Arguments) : Arguments :=
  { a with positional := argument :: a.positional }

/-- A format in front; one that comes later counts more. -/
def orFormat (format : Text) (a : Arguments) : Arguments :=
  { a with format := a.format <|> some format }

/-- Whether an argument begins with a hyphen. -/
def isFlag (argument : Text) : Bool :=
  argument.startsWith "-"

/-- The arguments of a command line; an option without a value is a flag. -/
def ofList : List Text → Arguments
  | [] => ⟨[], none⟩
  | [argument] => if isFlag argument then ⟨[], none⟩ else ⟨[argument], none⟩
  | argument :: next :: rest =>
    if argument = Text.ofString "--format" then (ofList rest).orFormat next
    else if isFlag argument then ofList (next :: rest)
    else (ofList (next :: rest)).cons argument

end Arguments

end PipelineGraph.CommandLine
