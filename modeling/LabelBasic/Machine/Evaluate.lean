import LabelBasic.Arithmetic
import LabelBasic.Machine.Call
import LabelBasic.Store

/-!
# Evaluating expressions

An expression is evaluated as a value of a kind that its place asks for. Operands come from left to
right, and the first fault ends the evaluation. Variables are only read: all that can change is the
generator.
-/
namespace LabelBasic

/-- The kind an argument is evaluated at. -/
def Parameter.kindFor : Parameter → Expr → Kind
  | .of kind, _ => kind
  | .numeric, e => e.kind

mutual

/-- The value of an expression at a kind. -/
def evaluate (store : Store) (kind : Kind) : Expr → Evaluation Value
  | .literal value =>
    if value.kind = kind then pure value else throw (.expressionKind (.literal value) kind)
  | .variable v =>
    if v.kind = kind then ofExcept (store.fetch v) else throw (.variableKind v kind)
  | .call f arguments =>
    if f.returns = kind then do
      let values ← evaluateArguments store f.parameters arguments
      f.call values
    else throw (.expressionKind (.call f arguments) kind)
  | .arithmetic op left right => do
    let x ← evaluate store kind left
    let y ← evaluate store kind right
    ofExcept (op.apply x y)
  | .comparison relation left right =>
    throw (.expressionKind (.comparison relation left right) kind)

/-- The values of arguments, as far as there are parameters for them. -/
def evaluateArguments (store : Store) (parameters : List Parameter) :
    List Expr → Evaluation (List Value)
  | [] => pure []
  | e :: rest =>
    match parameters with
    | [] => pure []
    | parameter :: more => do
      let x ← evaluate store (parameter.kindFor e) e
      let xs ← evaluateArguments store more rest
      pure (x :: xs)

end

/-- The value of an expression as an integer. -/
def evaluateInteger (store : Store) (e : Expr) : Evaluation Int32 := do
  let x ← evaluate store .integer e
  ofExcept x.toInteger

/-- Whether a condition holds. Both sides are evaluated at the kind of the left one. -/
def evaluateCondition (store : Store) : Expr → Evaluation Bool
  | .comparison relation left right => do
    if left.kind = .string then throw .comparedStrings
    let x ← evaluate store left.kind left
    let y ← evaluate store left.kind right
    let order ← ofExcept (x.order? y)
    pure (relation.holds order)
  | _ => throw .expectedComparison

end LabelBasic
