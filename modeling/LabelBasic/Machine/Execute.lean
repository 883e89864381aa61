import LabelBasic.Machine.State

/-!
# Executing commands

One definition for each command that does more than evaluate. `execute` runs a command at an address
and says where control goes. IF runs the command at its label in place, with its own address, so a
GOSUB there returns behind the IF; the chain of IFs is bounded.
-/
namespace LabelBasic

/-- Where control goes after an instruction. -/
inductive Flow where
  | next
  | jump (address : Nat)
  | halt
  deriving DecidableEq, Repr

namespace Machine

/-- A string literal is printed as it is, and anything else on a line of its own. -/
def printItem : Expr → Execution Unit
  | .literal (.string s) => emit s
  | e => do
    let x ← value e.kind e
    emit (x.text ++ "\n")

/-- Takes a value off the DATA for a variable. It is gone even if it is of the wrong kind. -/
def readItem (v : Ident) (x : Value) : Execution Unit := do
  modify fun m => { m with data := m.data.tail }
  if x.kind ≠ v.kind then throw (.cannotRead v x)
  assign v x

/-- READ takes all the DATA there is left. -/
def read (targets : List Ident) : Execution Unit := do
  let data := (← get).data
  if targets.length ≠ data.length then throw (.outOfData targets.length data.length)
  (targets.zip data).forM fun (v, x) => readItem v x

/-- A prompt is printed, and a variable gets the next word of the input. -/
def inputItem : Expr → Execution Unit
  | .literal (.string s) => emit s
  | .variable v => do
    let x ← onReader (Reader.value v.kind)
    assign v x
  | _ => throw .inputOfExpression

/-- The frame of this loop is on top. -/
def isOpen (header : Nat) (m : Machine) : Bool :=
  m.loops.top?.any fun frame => frame.header == header

/-- The value of a loop variable at its FOR: one step further when NEXT came back to it, and the
first value otherwise. -/
def loopValue (reentry : Bool) (v : Ident) (first : Expr) (step : Int32) : Execution Int32 := do
  if reentry then
    let n ← ofExcept (← fetch v).toInteger
    ofExcept (checked (n.toInt + step.toInt))
  else integer first

/-- Where control goes behind a loop that is over. A NEXT that names another variable closes an outer
loop and still has to run. -/
def loopExit (p : Program) (pc : Nat) (v : Ident) : Execution Flow :=
  match p.matchingNext? pc v with
  | none => throw .forWithoutNext
  | some i =>
    match p.at? i with
    | some ⟨_, .next (some w)⟩ => if w = v then pure (.jump (i + 1)) else pure (.jump i)
    | _ => pure (.jump (i + 1))

/-- FOR, both when it is entered and when NEXT comes back to it. -/
def loop (p : Program) (pc : Nat) (v : Ident) (first last step : Expr) : Execution Flow := do
  if v.kind ≠ .integer then throw .loopVariableKind
  let reentry := (← get).isOpen pc
  let step ← integer step
  let n ← loopValue reentry v first step
  assign v (.integer n)
  -- The bound is evaluated anew each time, and may read the variable just assigned.
  let last ← integer last
  let done := if step < 0 then n ≤ last else last ≤ n
  if reentry then
    if done then
      let _ ← onLoops (Stack.pop (.nextWithoutFor none))
      loopExit p pc v
    else pure .next
  else
    -- A loop that was left by other means than its NEXT is given up when its FOR is entered anew.
    modify fun m => { m with loops := m.loops.dropFromLowest fun frame => frame.header == pc }
    if done then loopExit p pc v
    else
      onLoops (Stack.push .tooManyLoops ⟨v, pc⟩)
      pure .next

/-- Goes back to the FOR of the innermost loop. -/
def continueLoop : Execution Flow := do
  match (← get).loops.top? with
  | some frame => pure (.jump frame.header)
  | none => throw (.nextWithoutFor none)

/-- NEXT with a variable first gives up the loops inside the one on that variable. -/
def next : Option Ident → Execution Flow
  | none => continueLoop
  | some v => do
    modify fun m => { m with loops := m.loops.dropUntil fun frame => frame.v == v }
    if (← get).loops.top?.isNone then throw (.nextWithoutFor (some v))
    continueLoop

/-- The address of a label. -/
def label (p : Program) (name : String) : Execution Nat :=
  match p.label? name with
  | some i => pure i
  | none => throw (.undefinedLabel name)

def gosub (p : Program) (pc : Nat) (name : String) : Execution Flow := do
  let target ← label p name
  onCalls (Stack.push .tooManyCalls (pc + 1))
  pure (.jump target)

def ret : Execution Flow := do
  let address ← onCalls (Stack.pop .returnWithoutGosub)
  pure (.jump address)

/-- How many IFs may run each other in place. -/
def branchLimit : Nat := 64

/-- The instruction IF runs in place. It cannot be a FOR or NEXT. -/
def branchTarget (p : Program) (name : String) : Execution Command := do
  let target ← label p name
  match p.at? target with
  | some ⟨_, .loop ..⟩ | some ⟨_, .next _⟩ => throw (.branchToLoop name)
  | some i => pure i.command
  | none => throw .labelPastEnd

/-- Runs a command at an address, with `depth` more IFs allowed to run others in place. -/
def execute (p : Program) (pc depth : Nat) : Command → Execution Flow
  | .assign v e => do
    let x ← value v.kind e
    assign v x
    pure .next
  | .print items => do
    items.forM printItem
    pure .next
  | .data _ => pure .next
  | .read targets => do
    read targets
    pure .next
  | .input items => do
    items.forM inputItem
    pure .next
  | .gosub name => gosub p pc name
  | .ret => ret
  | .stop => pure .halt
  | .loop v first last step => loop p pc v first last step
  | .next v => next v
  | .branch e name => do
    if ← condition e then
      match depth with
      | 0 => throw .branchTooDeep
      | depth + 1 =>
        let command ← branchTarget p name
        execute p pc depth command
    else pure .next
  | .whileLoop .. => throw .whileNotImplemented

end Machine

end LabelBasic
