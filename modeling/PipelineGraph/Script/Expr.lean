import PipelineGraph.Json.Value

/-!
# Expressions and statements of a script

Blocks are built from a small language of expressions and statements, which are written as lines
of the script. Texts that come from a graph only ever enter a script as `Expr.quoted`.
-/

namespace PipelineGraph.Script

/-- An expression of a script. -/
inductive Expr where
  | name (x : Text)
  /-- A literal of any text. -/
  | quoted (t : Text)
  /-- A word of the script itself, between double quotes. -/
  | word (s : String)
  | integer (n : Int)
  | number (x : Binary64)
  | nothing
  | emptyTable
  | list (items : List Expr)
  | pair (first second : Expr)
  | member (owner : Expr) (field : Text)
  | entry (table key : Expr)
  | call (callee : Expr) (arguments : List Expr)
  /-- An argument that is given by the name of its parameter. -/
  | named (parameter : Text) (argument : Expr)
  | function (parameter : Text) (body : Expr)
  | choice (result condition alternative : Expr)

namespace Expr

mutual

/-- The text of an expression. -/
def text : Expr → Text
  | name x => x
  | quoted t => t.quoted
  | word s => "\"" ++ Text.ofString s ++ "\""
  | integer n => .ofInt n
  | number x => x.text
  | nothing => "None"
  | emptyTable => "\x7b\x7d"
  | list items => "[" ++ Text.join ", " (texts items) ++ "]"
  | pair first second => "(" ++ text first ++ ", " ++ text second ++ ")"
  | member owner field => text owner ++ "." ++ field
  | entry table key => text table ++ "[" ++ text key ++ "]"
  | call callee arguments => text callee ++ "(" ++ Text.join ", " (texts arguments) ++ ")"
  | named parameter argument => parameter ++ "=" ++ text argument
  | function parameter body => "lambda " ++ parameter ++ ": " ++ text body
  | choice result condition alternative =>
    text result ++ " if " ++ text condition ++ " else " ++ text alternative

/-- The texts of expressions. -/
def texts : List Expr → List Text
  | [] => []
  | e :: rest => text e :: texts rest

end

end Expr

/-- A line with one more level of indentation. -/
def indented (line : Text) : Text :=
  "    " ++ line

/-- A statement of a script. -/
inductive Statement where
  | assign (x : Text) (e : Expr)
  | evaluate (e : Expr)
  /-- A statement under a resource that is named while it is open. -/
  | within (resource : Expr) (x : Text) (body : Statement)
  /-- Assign what a method of a call gives, with the call's arguments one to a line. -/
  | assignSpread (x : Text) (callee : Expr) (arguments : List Expr) (method : Text) (input : Expr)

namespace Statement

/-- The lines of a statement. -/
def lines : Statement → List Text
  | assign x e => [x ++ " = " ++ e.text]
  | evaluate e => [e.text]
  | within resource x body =>
    ("with " ++ resource.text ++ " as " ++ x ++ ":") :: body.lines.map indented
  | assignSpread x callee arguments method input =>
    (x ++ " = " ++ callee.text ++ "(") ::
      ((Expr.texts arguments).map fun argument => indented (argument ++ ",")) ++
      [")." ++ method ++ "(" ++ input.text ++ ")"]

end Statement

end PipelineGraph.Script
