import LabelBasic.Expr

/-!
# Statements

A statement is a command on a source line, with the labels in front of it. Linking takes the labels
off and leaves an instruction.
-/
namespace LabelBasic

inductive Command where
  | assign (v : Ident) (value : Expr)
  | print (items : List Expr)
  | data (items : List Expr)
  | read (targets : List Ident)
  | input (items : List Expr)
  | gosub (label : String)
  | ret
  | stop
  | loop (v : Ident) (first last step : Expr)
  | next (v : Option Ident)
  | branch (condition : Expr) (label : String)
  | whileLoop (condition : Expr) (label : String)
  deriving Repr

/-- A command and its source line. -/
structure Instruction where
  line : Nat
  command : Command
  deriving Repr

/-- A label in front of a statement, and the line it stands on. -/
structure Label where
  name : String
  line : Nat
  deriving DecidableEq, Repr

/-- An instruction behind its labels, the outermost label first. -/
structure Statement where
  labels : List Label
  instruction : Instruction
  deriving Repr

/-- The line a statement starts on. -/
def Statement.line (s : Statement) : Nat :=
  match s.labels with
  | [] => s.instruction.line
  | label :: _ => label.line

end LabelBasic
