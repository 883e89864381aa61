import LabelBasic.Machine.Run

/-!
# Blocks

A program without GOSUB, IF and WHILE whose loops are properly nested can be read as a block: a
sequence of plain commands, ENDs and loops around further blocks. Here is what a block means, without
addresses, jumps or a stack of loops, and the list of instructions it stands for.
-/
namespace LabelBasic

/-- A command that only evaluates, assigns, reads and prints. -/
inductive Plain where
  | assign (v : Ident) (e : Expr)
  | print (es : List Expr)
  | read (vs : List Ident)
  | input (es : List Expr)
  | data (es : List Expr)

namespace Plain

def command : Plain → Command
  | assign v e => .assign v e
  | print es => .print es
  | read vs => .read vs
  | input es => .input es
  | data es => .data es

def effect : Plain → Execution Unit
  | assign v e => do
    let x ← Machine.value v.kind e
    Machine.assign v x
  | print es => es.forM Machine.printItem
  | read vs => Machine.read vs
  | input es => es.forM Machine.inputItem
  | data _ => pure ()

end Plain

/-- A FOR and its line. -/
structure Header where
  line : Nat
  v : Ident
  first : Expr
  last : Expr
  step : Expr

namespace Header

def instruction (h : Header) : Instruction := ⟨h.line, .loop h.v h.first h.last h.step⟩

/-- The value after this one. -/
def further (h : Header) (step : Int32) : Execution Int32 := do
  let n ← ofExcept (← Machine.fetch h.v).toInteger
  ofExcept (checked (n.toInt + step.toInt))

/-- The value of the variable in a test, the first time and again. -/
def value (h : Header) (again : Bool) (step : Int32) : Execution Int32 :=
  if again then h.further step else Machine.integer h.first

/-- Gives the variable its value, and says whether the loop is over. The bound is evaluated last. -/
def test (h : Header) (again : Bool) : Execution Bool := do
  let step ← Machine.integer h.step
  let n ← h.value again step
  Machine.assign h.v (.integer n)
  let last ← Machine.integer h.last
  pure (if step < 0 then n ≤ last else last ≤ n)

end Header

inductive Block where
  | done
  | plain (line : Nat) (c : Plain) (rest : Block)
  | stop (line : Nat) (rest : Block)
  /-- A loop, its block, the line of its NEXT and whether that names the variable. -/
  | loop (h : Header) (body : Block) (line : Nat) (named : Bool) (rest : Block)

/-- How a block ends: at its end, by an END, or with a fault. -/
inductive Ending where
  | through (m : Machine)
  | ended (m : Machine)
  | failed (report : Report) (m : Machine)

/-- The block is left before its end. -/
def Ending.Leaves : Ending → Prop
  | through _ => False
  | ended _ | failed .. => True

/-- The rounds of a loop from one of its tests on, given how its block goes. -/
inductive Rounds (h : Header) (body : Machine → Ending → Prop) : Bool → Machine → Ending → Prop
  | fails {again : Bool} {m m' : Machine} {f : Fault} (failed : h.test again m = .error f m') :
      Rounds h body again m (.failed (f.report.atLine h.line) m')
  | finished {again : Bool} {m m' : Machine} (tested : h.test again m = .ok true m') :
      Rounds h body again m (.through m')
  | left {again : Bool} {m m' : Machine} {e : Ending} (tested : h.test again m = .ok false m')
      (inside : body m' e) (leaves : e.Leaves) : Rounds h body again m e
  | round {again : Bool} {m m' m'' : Machine} {e : Ending} (tested : h.test again m = .ok false m')
      (inside : body m' (.through m'')) (more : Rounds h body true m'' e) : Rounds h body again m e

namespace Block

/-- The ways a block goes from a machine. -/
def Means : Block → Machine → Ending → Prop
  | done, m, e => e = .through m
  | plain line c rest, m, e =>
    match c.effect m with
    | .ok _ m' => rest.Means m' e
    | .error f m' => e = .failed (f.report.atLine line) m'
  | stop _ _, m, e => e = .ended m
  | loop h body _ _ rest, m, e =>
    (∃ m', Rounds h body.Means false m (.through m') ∧ rest.Means m' e) ∨
      Rounds h body.Means false m e ∧ e.Leaves

/-- The NEXT of a loop. -/
def closing (h : Header) (line : Nat) (named : Bool) : Instruction :=
  ⟨line, .next (if named then some h.v else none)⟩

/-- The instructions of a block in order. -/
def flatten : Block → List Instruction
  | done => []
  | plain line c rest => ⟨line, c.command⟩ :: rest.flatten
  | stop line rest => ⟨line, .stop⟩ :: rest.flatten
  | loop h body line named rest =>
    h.instruction :: (body.flatten ++ closing h line named :: rest.flatten)

/-- How many loops there are, at any depth. -/
def loopCount : Block → Nat
  | done => 0
  | plain _ _ rest | stop _ rest => rest.loopCount
  | loop _ body _ _ rest => body.loopCount + 1 + rest.loopCount

/-- Every loop is on an integer variable, and on none of the variables of the loops around it. -/
def Nested (outer : List Ident) : Block → Prop
  | done => True
  | plain _ _ rest | stop _ rest => rest.Nested outer
  | loop h body _ _ rest =>
    h.v.kind = .integer ∧ h.v ∉ outer ∧ body.Nested (h.v :: outer) ∧ rest.Nested outer

end Block

end LabelBasic
