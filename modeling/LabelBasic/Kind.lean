/-!
# Kinds of values and the variables that hold them

There are three kinds of values. A variable says by the last character of its name which kind it
holds, so `a`, `a%` and `a$` are three variables.
-/
namespace LabelBasic

inductive Kind where
  | integer | float | string
  deriving DecidableEq, Repr

/-- As written in messages. -/
def Kind.name : Kind → String
  | .integer => "INTEGER"
  | .float => "FLOAT"
  | .string => "STRING"

/-- A variable, by its full name. -/
structure Ident where
  name : String
  deriving DecidableEq, Repr

/-- `$` ends the name of a string, `%` of a float, and anything else of an integer. -/
def Ident.kind (v : Ident) : Kind :=
  match v.name.toList.getLast? with
  | some '$' => .string
  | some '%' => .float
  | _ => .integer

end LabelBasic
