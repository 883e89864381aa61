import LabelBasic.Parse.Expr

/-!
# Parsing statements

A statement starts with its labels, then a keyword or the variable of an assignment says which
command it is. Each rule below reads what follows that first token. A command that is not completed
is absent, and so is one that starts with a token no command starts with.
-/
namespace LabelBasic.Parse

/-- The name of a variable. -/
def identifier : Rule Ident := do
  let t ← Rule.token .word
  pure ⟨t.text⟩

/-- The name of a label. -/
def labelName : Rule String := do
  let t ← Rule.token .word
  pure t.text

/-- The item of a list of variables. -/
def identifierItem (t : Token) : Outcome Ident :=
  if t.kind = .word then .found ⟨t.text⟩ else .absent

/-- The item of a list of literals. -/
def literalItem (t : Token) : Outcome Expr :=
  if t.kind = .string then .found (.literal (.string t.text))
  else if t.kind = .number then
    match Value.ofNumeral? t.text with
    | some value => .found (.literal value)
    | none => .failed .invalidNumber
  else .absent

/-- Behind the variable of an assignment. -/
def assignment (v : Ident) : Rule Command := do
  let _ ← Rule.expect (.symbol (.relation .equal)) .expectedEquals
  let value ← expression
  pure (.assign v value)

def printItems : Rule Command := do
  let items ← expressionList
  pure (.print items)

def dataItems : Rule Command := do
  let items ← Rule.tokenList literalItem
  pure (.data items)

def readTargets : Rule Command := do
  let targets ← Rule.tokenList identifierItem
  pure (.read targets)

/-- The variables of an INPUT, behind its prompt if it has one. -/
def inputVariables (prompt : List Expr) : Rule Command := do
  let targets ← Rule.tokenList identifierItem
  pure (.input (prompt ++ targets.map .variable))

/-- A prompt alone, a prompt and variables, or variables. -/
def inputItems : Rule Command
  | ⟨.string, text, place⟩ :: ⟨.symbol .comma, _, _⟩ :: rest =>
    (inputVariables [.literal (.string (Token.text ⟨.string, text, place⟩))] rest).after 2
  | ⟨.string, text, place⟩ :: _ =>
    .found (.input [.literal (.string (Token.text ⟨.string, text, place⟩))]) 1
  | s => inputVariables [] s

def gosubLabel : Rule Command := do
  let label ← labelName
  pure (.gosub label)

/-- How many line ends come first. -/
def separators (s : List Token) : Nat := (s.takeWhile fun t => t.kind == .endOfLine).length

/-- RETURN has to end its line, and takes the line ends behind it. -/
def returnEnd : Rule Command := fun s =>
  if separators s ≠ 0 ∨ s = [] then .found .ret (separators s) else .absent

/-- Without STEP the step is one. -/
def loopBounds : Rule Command := do
  let v ← identifier
  let _ ← Rule.expect (.symbol (.relation .equal)) .expectedEquals
  let first ← expression
  let _ ← Rule.token (.keyword .TO)
  let last ← expression
  if ← Rule.accept (.keyword .STEP) then
    let step ← expression
    pure (.loop v first last step)
  else pure (.loop v first last (.literal (.integer 1)))

def nextVariable : Rule Command
  | ⟨.word, text, place⟩ :: _ => .found (.next (some ⟨Token.text ⟨.word, text, place⟩⟩)) 1
  | _ => .found (.next none) 0

def branchTarget : Rule Command := do
  let condition ← comparison
  let _ ← Rule.token (.keyword .THEN)
  let label ← labelName
  pure (.branch condition label)

def whileTarget : Rule Command := do
  let condition ← comparison
  let label ← labelName
  pure (.whileLoop condition label)

/-- The rule for what follows a keyword. -/
def ofKeyword : Keyword → Option (Rule Command)
  | .PRINT => some printItems
  | .DATA => some dataItems
  | .READ => some readTargets
  | .INPUT => some inputItems
  | .GOSUB => some gosubLabel
  | .RETURN => some returnEnd
  | .END => some (pure .stop)
  | .FOR => some loopBounds
  | .NEXT => some nextVariable
  | .IF => some branchTarget
  | .WHILE => some whileTarget
  | .TO | .STEP | .THEN => none

/-- The command that starts with this token. -/
def command (first : Token) (rest : List Token) : Reply Command :=
  match first.kind with
  | .word => (assignment ⟨first.text⟩ rest).after 1
  | .keyword k =>
    match ofKeyword k with
    | some rule => (rule rest).after 1
    | none => .absent
  | _ => .absent

/-- A command behind any number of labels. -/
def statement : Rule Statement
  | [] => .absent
  | t :: rest =>
    if t.kind = .label then
      ((statement rest).map fun s => { s with labels := ⟨t.text, t.line⟩ :: s.labels }).after 1
    else (command t rest).map fun c => ⟨[], ⟨t.line, c⟩⟩

end LabelBasic.Parse
