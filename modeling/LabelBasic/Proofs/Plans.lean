import LabelBasic.Proofs.Lookahead

/-!
# The parser without its recursion

What each rule of the parser does is planned here without a call of any rule that calls others.
Where one is needed, the plan asks for it and goes on with the answer, and a loop asks for its next
turn. Nothing here says that the asking comes to an end. That it does, and that what comes of it is
the answer of the parser, is proved in the modules that follow.
-/
namespace LabelBasic.Parse

/-- What there is to be read. Each turn of a loop is a goal of its own: an operator and its operand,
an item of a list, a line end, a statement of a program. -/
inductive Goal where
  | expr (level : Level)
  | operations (level : Level) (left : Expr)
  | factor
  | call (f : Builtin)
  | arguments
  | argumentList
  | expressionList
  | literalList
  | identifierList
  | lineEnds
  | statement
  | statements
  | program

@[reducible] def Goal.Answer : Goal → Type
  | .expr _ | .operations _ _ | .factor | .call _ => Reply Expr
  | .arguments | .argumentList | .expressionList | .literalList => Reply (List Expr)
  | .identifierList => Reply (List Ident)
  | .lineEnds => Nat
  | .statement => Reply Statement
  | .statements | .program => Progress

/-- How many tokens an answer says are used. -/
def Goal.used : (g : Goal) → g.Answer → Nat
  | .expr _, r | .operations _ _, r | .factor, r | .call _, r => r.used
  | .arguments, r | .argumentList, r | .expressionList, r | .literalList, r => r.used
  | .identifierList, r => r.used
  | .lineEnds, n => n
  | .statement, r => r.used
  | .statements, p | .program, p => p.used

/-- Something that is to be read off the front of some tokens. -/
structure Request where
  goal : Goal
  tokens : List Token

namespace Request

/-- The answer of the parser. -/
def answer : (q : Request) → q.goal.Answer
  | ⟨.expr level, s⟩ => Parse.expr level s
  | ⟨.operations level left, s⟩ => Parse.operations level left s
  | ⟨.factor, s⟩ => Parse.factor s
  | ⟨.call f, s⟩ => Parse.call f s
  | ⟨.arguments, s⟩ => Parse.arguments s
  | ⟨.argumentList, s⟩ => Parse.argumentList s
  | ⟨.expressionList, s⟩ => Parse.expressionList s
  | ⟨.literalList, s⟩ => Rule.tokenList literalItem s
  | ⟨.identifierList, s⟩ => Rule.tokenList identifierItem s
  | ⟨.lineEnds, s⟩ => separators s
  | ⟨.statement, s⟩ => Parse.statement s
  | ⟨.statements, s⟩ => Parse.statements s
  | ⟨.program, s⟩ => Parse.program s

def used (q : Request) : Nat := q.goal.used q.answer

/-- What is left of the tokens. -/
def rest (q : Request) : List Token := q.tokens.drop q.used

end Request

/-- Something that is done, or is done once a request is answered. -/
inductive Plan (α : Type) where
  | done (a : α)
  | ask (q : Request) (next : q.goal.Answer → Plan α)

namespace Plan

variable {α β : Type}

def bind : Plan α → (α → Plan β) → Plan β
  | done a, next => next a
  | ask q more, next => ask q fun answer => (more answer).bind next

def map (f : α → β) (p : Plan α) : Plan β := p.bind fun a => done (f a)

/-- The requests, one after the other, when each is answered as the parser does. -/
def requests : Plan α → List Request
  | done _ => []
  | ask q next => q :: (next q.answer).requests

/-- What the plan comes to, unless a request is not answered. -/
def result? (answer? : (q : Request) → Option q.goal.Answer) : Plan α → Option α
  | done a => some a
  | ask q next => (answer? q).bind fun answer => (next answer).result? answer?

end Plan

/-- The plan of a rule, for any tokens. -/
def Draft (α : Type) := List Token → Plan (Reply α)

namespace Draft

variable {α β : Type}

/-- A rule that looks at the tokens and calls no other. -/
def ofRule (rule : Rule α) : Draft α := fun s => .done (rule s)

/-- Asks for a goal. -/
def ask (g : Goal) (s : List Token) : Plan g.Answer := .ask ⟨g, s⟩ .done

/-- Goes on with the tokens that are left, if something was found. -/
def bind (d : Draft α) (next : α → Draft β) : Draft β := fun s =>
  (d s).bind fun r =>
    match r.outcome with
    | .found a => (next a (s.drop r.used)).map fun more => r.andThen fun _ _ => more
    | _ => .done (r.andThen fun _ _ => .absent)

instance : Monad Draft where
  pure a := ofRule (pure a)
  bind := bind

/-! ### Expressions -/

def expr (level : Level) : Draft Expr := ask (.expr level)

def expression : Draft Expr := expr .sum

/-- The operations of a level behind what they have come to so far. -/
def further (level : Level) (left : Expr) : Draft Expr := ask (.operations level left)

/-- An operand, and the operations of the level behind it. -/
def chain (level : Level) : Draft Expr := do
  let left ← expr level.tighter
  further level left

def operand : Level → Draft Expr
  | .factor => ask .factor
  | .product => chain .product
  | .sum => chain .sum

/-- Behind an operator: its right operand and the operations behind that. -/
def operation (level : Level) (left : Expr) (op : Operator) : Draft Expr := do
  let right ← expr level.tighter
  further level (.arithmetic op left right)

def operations (level : Level) (left : Expr) : Draft Expr
  | ⟨.symbol (.operator op), _, _⟩ :: rest =>
    if op.level = level then (operation level left op rest).map (Reply.after 1)
    else .done (.found left 0)
  | _ => .done (.found left 0)

/-- Behind an opening parenthesis. -/
def group : Draft Expr := do
  let e ← expression
  ofRule (closing e (.failed .expectedRightParen))

def called (f : Builtin) : Draft Expr := ask (.call f)

def factor : Draft Expr
  | [] => .done (.failed .expectedExpression)
  | t :: rest =>
    match t.kind with
    | .word =>
      match Builtin.ofName? t.text, rest with
      | some f, ⟨.symbol .leftParen, _, _⟩ :: inner => (called f inner).map (Reply.after 2)
      | _, _ => .done (.found (.variable ⟨t.text⟩) 1)
    | .number =>
      match Value.ofNumeral? t.text with
      | some value => .done (.found (.literal value) 1)
      | none => .done (.failed .invalidNumber)
    | .string => .done (.found (.literal (.string t.text)) 1)
    | .symbol .leftParen => (group rest).map (Reply.after 1)
    | _ => .done (.failed .expectedExpression)

/-- One argument or more. -/
def someArguments : Draft (List Expr) := ask .argumentList

def arguments : Draft (List Expr) := fun s =>
  if s.head?.map Token.kind = some (.symbol .rightParen) then .done (.found [] 1)
  else someArguments s

def call (f : Builtin) : Draft Expr := do
  let es ← (ask .arguments : Draft (List Expr))
  ofRule (fitting f es)

/-- Behind an argument: a comma and further arguments, or the closing parenthesis. -/
def argumentTail (e : Expr) : Draft (List Expr)
  | ⟨.symbol .comma, _, _⟩ :: rest =>
    (someArguments rest).map fun r => (r.map (e :: ·)).after 1
  | ⟨.symbol .rightParen, _, _⟩ :: _ => .done (.found [e] 1)
  | _ => .done .absent

def argumentList : Draft (List Expr) := do
  let e ← expression
  argumentTail e

def expressions : Draft (List Expr) := ask .expressionList

/-- Behind an item of a list: a comma and further items, or nothing of the list. -/
def listTail (more : Draft (List α)) (a : α) : Draft (List α)
  | t :: rest =>
    if t.kind = .symbol .comma then (more rest).map fun r => (r.map (a :: ·)).after 1
    else .done (.found [a] 0)
  | [] => .done (.found [a] 0)

def expressionList : Draft (List Expr) := do
  let e ← expression
  listTail expressions e

/-- The sign of a relation. -/
def relationSign : Rule Relation
  | ⟨.symbol (.relation r), _, _⟩ :: _ => .found r 1
  | _ => .absent

def comparison : Draft Expr := do
  let left ← expression
  let relation ← ofRule relationSign
  let right ← expression
  pure (.comparison relation left right)

/-! ### Lists of items of one token -/

def tokenList (item : Token → Outcome α) (more : Draft (List α)) : Draft (List α)
  | [] => .done .absent
  | t :: rest =>
    match item t with
    | .absent => .done .absent
    | .failed f => .done (.failed f)
    | .found a => (listTail more a rest).map (Reply.after 1)

def literals : Draft (List Expr) := ask .literalList

def identifiers : Draft (List Ident) := ask .identifierList

def lineEnds : List Token → Plan Nat
  | t :: rest => if t.kind = .endOfLine then (ask .lineEnds rest).map (· + 1) else .done 0
  | [] => .done 0

/-! ### Commands -/

def assignment (v : Ident) : Draft Command := do
  let _ ← ofRule (Rule.expect (.symbol (.relation .equal)) .expectedEquals)
  let value ← expression
  pure (.assign v value)

def printItems : Draft Command := do
  let items ← expressions
  pure (.print items)

def dataItems : Draft Command := do
  let items ← literals
  pure (.data items)

def readTargets : Draft Command := do
  let targets ← identifiers
  pure (.read targets)

def inputVariables (prompt : List Expr) : Draft Command := do
  let targets ← identifiers
  pure (.input (prompt ++ targets.map .variable))

def inputItems : Draft Command
  | ⟨.string, text, place⟩ :: ⟨.symbol .comma, _, _⟩ :: rest =>
    (inputVariables [.literal (.string (Token.text ⟨.string, text, place⟩))] rest).map
      (Reply.after 2)
  | ⟨.string, text, place⟩ :: _ =>
    .done (.found (.input [.literal (.string (Token.text ⟨.string, text, place⟩))]) 1)
  | s => inputVariables [] s

def returnEnd : Draft Command := fun s =>
  .ask ⟨.lineEnds, s⟩ fun ends =>
    .done (if ends ≠ 0 ∨ s = [] then .found .ret ends else .absent)

def loopBounds : Draft Command := do
  let v ← ofRule identifier
  let _ ← ofRule (Rule.expect (.symbol (.relation .equal)) .expectedEquals)
  let first ← expression
  let _ ← ofRule (Rule.token (.keyword .TO))
  let last ← expression
  if ← ofRule (Rule.accept (.keyword .STEP)) then
    let step ← expression
    pure (.loop v first last step)
  else pure (.loop v first last (.literal (.integer 1)))

def branchTarget : Draft Command := do
  let condition ← comparison
  let _ ← ofRule (Rule.token (.keyword .THEN))
  let label ← ofRule labelName
  pure (.branch condition label)

def whileTarget : Draft Command := do
  let condition ← comparison
  let label ← ofRule labelName
  pure (.whileLoop condition label)

def ofKeyword : Keyword → Option (Draft Command)
  | .PRINT => some printItems
  | .DATA => some dataItems
  | .READ => some readTargets
  | .INPUT => some inputItems
  | .GOSUB => some (ofRule gosubLabel)
  | .RETURN => some returnEnd
  | .END => some (pure .stop)
  | .FOR => some loopBounds
  | .NEXT => some (ofRule nextVariable)
  | .IF => some branchTarget
  | .WHILE => some whileTarget
  | .TO | .STEP | .THEN => none

def command : Draft Command
  | [] => .done .absent
  | t :: rest =>
    match t.kind with
    | .word => (assignment ⟨t.text⟩ rest).map (Reply.after 1)
    | .keyword k =>
      match ofKeyword k with
      | some draft => (draft rest).map (Reply.after 1)
      | none => .done .absent
    | _ => .done .absent

/-! ### Statements and programs -/

def labeled : Draft Statement := ask .statement

def statement : Draft Statement
  | [] => .done .absent
  | t :: rest =>
    if t.kind = .label then
      (labeled rest).map fun r =>
        (r.map fun s => { s with labels := ⟨t.text, t.line⟩ :: s.labels }).after 1
    else (command (t :: rest)).map (Reply.map fun c => ⟨[], ⟨t.line, c⟩⟩)

/-- Behind a statement, if one is found, come line ends and statements again. -/
def proceed (r : Reply Statement) (s : List Token) : Plan Progress :=
  match r.outcome with
  | .found _ => (ask .program (s.drop r.used)).map (Progress.ofReply r)
  | _ => .done (.ofReply r ⟨[], none, 0, []⟩)

def statements (s : List Token) : Plan Progress := .ask ⟨.statement, s⟩ fun r => proceed r s

def program (s : List Token) : Plan Progress :=
  .ask ⟨.lineEnds, s⟩ fun ends => (ask .statements (s.drop ends)).map (Progress.behind ends)

end Draft

namespace Request

/-- What the parser does about a request. -/
def plan : (q : Request) → Plan q.goal.Answer
  | ⟨.expr level, s⟩ => Draft.operand level s
  | ⟨.operations level left, s⟩ => Draft.operations level left s
  | ⟨.factor, s⟩ => Draft.factor s
  | ⟨.call f, s⟩ => Draft.call f s
  | ⟨.arguments, s⟩ => Draft.arguments s
  | ⟨.argumentList, s⟩ => Draft.argumentList s
  | ⟨.expressionList, s⟩ => Draft.expressionList s
  | ⟨.literalList, s⟩ => Draft.tokenList literalItem Draft.literals s
  | ⟨.identifierList, s⟩ => Draft.tokenList identifierItem Draft.identifiers s
  | ⟨.lineEnds, s⟩ => Draft.lineEnds s
  | ⟨.statement, s⟩ => Draft.statement s
  | ⟨.statements, s⟩ => Draft.statements s
  | ⟨.program, s⟩ => Draft.program s

/-- The answer, if requests that are made for the sake of requests go no deeper than this. Nothing
but the depth makes it end. -/
def within : Nat → (q : Request) → Option q.goal.Answer
  | 0, _ => none
  | depth + 1, q => q.plan.result? (within depth)

/-- The second request is made for the sake of the first one. -/
def Asks (q r : Request) : Prop := r ∈ q.plan.requests

/-- Where the cursor comes to while a request is answered: where each request made for its sake
starts, and where that one ends, with the like in between, down to a depth. -/
def way : Nat → Request → List (List Token)
  | 0, _ => []
  | depth + 1, q => q.plan.requests.flatMap fun r => r.tokens :: (way depth r ++ [r.rest])

end Request

end LabelBasic.Parse
