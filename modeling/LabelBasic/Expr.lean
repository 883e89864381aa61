import LabelBasic.Builtin
import LabelBasic.Value

/-!
# Expressions
-/
namespace LabelBasic

inductive Operator where
  | add | sub | mul | div
  deriving DecidableEq, Repr

def Operator.symbol : Operator → String
  | .add => "+"
  | .sub => "-"
  | .mul => "*"
  | .div => "/"

inductive Relation where
  | less | lessEqual | greater | greaterEqual | notEqual | equal
  deriving DecidableEq, Repr

namespace Relation

def symbol : Relation → String
  | .less => "<"
  | .lessEqual => "<="
  | .greater => ">"
  | .greaterEqual => ">="
  | .notEqual => "<>"
  | .equal => "="

/-- Whether the relation holds of two numbers in this order; without an order only `<>` does. -/
def holds : Relation → Option Ordering → Bool
  | .less, order => order == some .lt
  | .lessEqual, order => order == some .lt || order == some .eq
  | .greater, order => order == some .gt
  | .greaterEqual, order => order == some .gt || order == some .eq
  | .notEqual, order => order != some .eq
  | .equal, order => order == some .eq

end Relation

inductive Expr where
  | literal (value : Value)
  | variable (v : Ident)
  | call (f : Builtin) (arguments : List Expr)
  | arithmetic (op : Operator) (left right : Expr)
  | comparison (relation : Relation) (left right : Expr)
  deriving Repr

/-- The kind an expression announces: that of its leftmost operand. A comparison counts as an
integer. -/
def Expr.kind : Expr → Kind
  | .literal value => value.kind
  | .variable v => v.kind
  | .call f _ => f.returns
  | .arithmetic _ left _ => left.kind
  | .comparison .. => .integer

/-- Induction over expressions, with each argument of a call. -/
@[elab_as_elim]
theorem Expr.ind {P : Expr → Prop} (literal : ∀ value, P (.literal value))
    (named : ∀ v, P (.variable v)) (call : ∀ f es, (∀ e ∈ es, P e) → P (.call f es))
    (arithmetic : ∀ op left right, P left → P right → P (.arithmetic op left right))
    (comparison : ∀ r left right, P left → P right → P (.comparison r left right)) (e : Expr) :
    P e :=
  @Expr.rec P (fun es => ∀ e ∈ es, P e) literal named call arithmetic comparison (by simp)
    (fun _ _ head tail => List.forall_mem_cons.mpr ⟨head, tail⟩) e

end LabelBasic
