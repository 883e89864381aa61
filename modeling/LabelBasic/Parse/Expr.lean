import LabelBasic.Parse.Reply

/-!
# Parsing expressions

Sums are made of products and products of factors, each joined from the left. A factor is a number,
a string, a variable, an expression in parentheses, or a call of a built-in function. A word that
names one and stands before a parenthesis always starts a call.

The rules call each other on the tokens that follow those already used, or on the same tokens at a
tighter level, which is why they end.
-/
namespace LabelBasic

/-- How tightly the parts of an expression hold together. -/
inductive Level where
  | sum | product | factor
  deriving DecidableEq, Repr

namespace Level

/-- The level of the operands at this level. -/
def tighter : Level → Level
  | .sum => .product
  | .product | .factor => .factor

def rank : Level → Nat
  | .sum => 2
  | .product => 1
  | .factor => 0

end Level

def Operator.level : Operator → Level
  | .add | .sub => .sum
  | .mul | .div => .product

namespace Parse

mutual

/-- An expression at a level: a factor, or an operand and the operations behind it. -/
def expr (level : Level) (s : List Token) : Reply Expr :=
  match level with
  | .factor => factor s
  | .product => (expr .factor s).andThen fun left n => operations .product left (s.drop n)
  | .sum => (expr .product s).andThen fun left n => operations .sum left (s.drop n)
termination_by (s.length, 2 * level.rank + 1)
decreasing_by
  all_goals simp only [Prod.lex_def, Level.rank, List.length_drop, true_and]; omega

/-- The operators of a level and their right operands, behind the expression so far. -/
def operations (level : Level) (left : Expr) (s : List Token) : Reply Expr :=
  match s with
  | ⟨.symbol (.operator op), _, _⟩ :: rest =>
    if op.level = level then
      ((expr level.tighter rest).andThen fun right n =>
        operations level (.arithmetic op left right) (rest.drop n)).after 1
    else .found left 0
  | _ => .found left 0
termination_by (s.length, 2 * level.rank)
decreasing_by
  all_goals simp only [Prod.lex_def, List.length_drop, List.length_cons]; omega

def factor (s : List Token) : Reply Expr :=
  match s with
  | [] => .failed .expectedExpression
  | t :: rest =>
    match t.kind with
    | .word =>
      match Builtin.ofName? t.text, rest with
      | some f, ⟨.symbol .leftParen, _, _⟩ :: inner => (call f inner).after 2
      | _, _ => .found (.variable ⟨t.text⟩) 1
    | .number =>
      match Value.ofNumeral? t.text with
      | some value => .found (.literal value) 1
      | none => .failed .invalidNumber
    | .string => .found (.literal (.string t.text)) 1
    | .symbol .leftParen =>
      ((expr .sum rest).andThen fun e n =>
        match rest.drop n with
        | ⟨.symbol .rightParen, _, _⟩ :: _ => .found e 1
        | _ => .failed .expectedRightParen).after 1
    | _ => .failed .expectedExpression
termination_by (s.length, 0)
decreasing_by
  all_goals simp only [Prod.lex_def, List.length_cons]; omega

/-- A call behind its opening parenthesis. Arguments that do not fit make it no call. -/
def call (f : Builtin) (s : List Token) : Reply Expr :=
  (arguments s).andThen fun arguments _ =>
    -- Only the announced kinds are known here; the values are checked when the call is evaluated.
    if f.accepts (arguments.map Expr.kind) then .found (.call f arguments) 0
    else ⟨.absent, 0, [.refusedCall f arguments.length]⟩
termination_by (s.length, 8)
decreasing_by
  all_goals simp only [Prod.lex_def, true_and]; omega

/-- The arguments of a call and its closing parenthesis. -/
def arguments (s : List Token) : Reply (List Expr) :=
  if s.head?.map Token.kind = some (.symbol .rightParen) then .found [] 1 else argumentList s
termination_by (s.length, 7)
decreasing_by
  all_goals simp only [Prod.lex_def, true_and]; omega

def argumentList (s : List Token) : Reply (List Expr) :=
  (expr .sum s).andThen fun e n =>
    match _h : s.drop n with
    | ⟨.symbol .comma, _, _⟩ :: rest => ((argumentList rest).map (e :: ·)).after 1
    | ⟨.symbol .rightParen, _, _⟩ :: _ => .found [e] 1
    | _ => .absent
termination_by (s.length, 6)
decreasing_by
  · simp only [Prod.lex_def, Level.rank, true_and]; omega
  · have shorter := congrArg List.length _h
    simp only [List.length_drop, List.length_cons] at shorter
    simp only [Prod.lex_def]; omega

end

/-- An expression. -/
def expression : Rule Expr := expr .sum

/-- Expressions separated by commas. -/
def expressionList (s : List Token) : Reply (List Expr) :=
  (expression s).andThen fun e n =>
    match _h : s.drop n with
    | ⟨.symbol .comma, _, _⟩ :: rest => ((expressionList rest).map (e :: ·)).after 1
    | _ => .found [e] 0
termination_by s.length
decreasing_by
  have shorter := congrArg List.length _h
  simp only [List.length_drop, List.length_cons] at shorter
  omega

/-- Two expressions with a relation between them. -/
def comparison : Rule Expr := do
  let left ← expression
  let relation ← fun
    | ⟨.symbol (.relation r), _, _⟩ :: _ => .found r 1
    | _ => .absent
  let right ← expression
  pure (.comparison relation left right)

/-! ### The rules by the first token -/

theorem factor_call {t l : Token} {f : Builtin} (inner : List Token) (kind : t.kind = .word)
    (named : Builtin.ofName? t.text = some f) (opened : l.kind = .symbol .leftParen) :
    factor (t :: l :: inner) = (call f inner).after 2 := by
  obtain ⟨_, text, place⟩ := l
  cases opened
  unfold factor
  simp only [kind]
  split
  next named' same =>
    cases same
    rw [Option.some.inj (named.symm.trans named')]
  next none =>
    exact absurd rfl (none f text place inner named)

theorem factor_variable {t : Token} {rest : List Token} (kind : t.kind = .word)
    (noCall : (Builtin.ofName? t.text).isSome → ∀ l ∈ rest.head?, l.kind ≠ .symbol .leftParen) :
    factor (t :: rest) = .found (.variable ⟨t.text⟩) 1 := by
  unfold factor
  simp only [kind]
  split
  next named =>
    exact absurd rfl (noCall (by simp [named]) _ rfl)
  next => rfl

theorem factor_number {t : Token} {value : Value} (rest : List Token) (kind : t.kind = .number)
    (read : Value.ofNumeral? t.text = some value) :
    factor (t :: rest) = .found (.literal value) 1 := by
  unfold factor
  simp only [kind, read]

theorem factor_string {t : Token} (rest : List Token) (kind : t.kind = .string) :
    factor (t :: rest) = .found (.literal (.string t.text)) 1 := by
  unfold factor
  simp only [kind]

theorem factor_group {t : Token} (rest : List Token) (kind : t.kind = .symbol .leftParen) :
    factor (t :: rest) = ((expr .sum rest).andThen fun e n =>
        match rest.drop n with
        | ⟨.symbol .rightParen, _, _⟩ :: _ => .found e 1
        | _ => .failed .expectedRightParen).after 1 := by
  unfold factor
  simp only [kind]

theorem operations_of_level {level : Level} {op : Operator} {t : Token} (left : Expr)
    (rest : List Token) (kind : t.kind = .symbol (.operator op)) (binds : op.level = level) :
    operations level left (t :: rest) = ((expr level.tighter rest).andThen fun right n =>
        operations level (.arithmetic op left right) (rest.drop n)).after 1 := by
  obtain ⟨_, text, place⟩ := t
  cases kind
  rw [operations, if_pos binds]

theorem operations_done {level : Level} {left : Expr} {s : List Token}
    (done : ∀ t ∈ s.head?, ∀ op, t.kind = .symbol (.operator op) → op.level ≠ level) :
    operations level left s = .found left 0 := by
  unfold operations
  split
  next op text place rest =>
    rw [if_neg (done _ rfl op rfl)]
  next => rfl

end Parse

end LabelBasic
