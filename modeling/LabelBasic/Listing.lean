import LabelBasic.Statement

/-!
# Program listings

The text of expressions and statements. Every arithmetic operation is put in parentheses, so the
grouping can be read off the text.
-/
namespace LabelBasic

/-- Items separated by commas. -/
def commaList (texts : List String) : String := String.intercalate ", " texts

namespace Expr

mutual

def text : Expr → String
  | .literal value => value.literal
  | .variable v => v.name
  | .call f arguments => f.name ++ "(" ++ commaList (texts arguments) ++ ")"
  | .arithmetic op left right => "(" ++ text left ++ " " ++ op.symbol ++ " " ++ text right ++ ")"
  | .comparison relation left right => text left ++ " " ++ relation.symbol ++ " " ++ text right

def texts : List Expr → List String
  | [] => []
  | e :: es => text e :: texts es

end

theorem texts_eq_map (es : List Expr) : texts es = es.map text := by
  induction es with
  | nil => rfl
  | cons e es ih => simp [texts, ih]

end Expr

def Command.text : Command → String
  | .assign v value => v.name ++ " = " ++ value.text
  | .print items => "PRINT " ++ commaList (Expr.texts items)
  | .data items => "DATA " ++ commaList (Expr.texts items)
  | .read targets => "READ " ++ commaList (targets.map Ident.name)
  | .input items => "INPUT " ++ commaList (Expr.texts items)
  | .gosub label => "GOSUB " ++ label
  | .ret => "RETURN"
  | .stop => "END"
  | .loop v first last step =>
    "FOR " ++ v.name ++ " = " ++ first.text ++ " TO " ++ last.text ++ " STEP " ++ step.text
  | .next none => "NEXT"
  | .next (some v) => "NEXT " ++ v.name
  | .branch condition label => "IF " ++ condition.text ++ " THEN " ++ label
  | .whileLoop condition label => "WHILE " ++ condition.text ++ " " ++ label

def Instruction.text (i : Instruction) : String := i.command.text

/-- The labels stand before the command, each with its colon. -/
def Statement.text (s : Statement) : String :=
  String.join (s.labels.map fun label => label.name ++ ": ") ++ s.instruction.text

end LabelBasic
