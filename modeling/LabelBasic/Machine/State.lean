import LabelBasic.Machine.Evaluate
import LabelBasic.Program
import LabelBasic.Reader
import LabelBasic.Stack

/-!
# The machine

All that a running program reads and changes besides the address of its next instruction. A fault
keeps the state it was raised in.
-/
namespace LabelBasic

/-- A loop that is open: its variable, and the index of its FOR. -/
structure Frame where
  v : Ident
  header : Nat
  deriving DecidableEq, Repr

structure Machine where
  store : Store
  /-- What READ has not read yet. -/
  data : List Value
  /-- The addresses RETURN goes to. -/
  calls : Stack Nat
  loops : Stack Frame
  generator : Generator
  reader : Reader
  /-- An interrupt has come and has not stopped the program yet. -/
  interrupted : Bool
  /-- What was printed, one text for each item. -/
  output : Array String

/-- Part of a program's run, which changes the machine and may fault. -/
abbrev Execution := EStateM Fault Machine

namespace Machine

/-- The machine before a program is run. -/
def initial (p : Program) (generator : Generator) (reader : Reader) : Machine where
  store := .empty
  data := p.data
  calls := .empty
  loops := .empty
  generator := generator
  reader := reader
  interrupted := false
  output := #[]

/-- Runs a computation on one part of the machine. -/
def onPart {σ α : Type} (get : Machine → σ) (set : Machine → σ → Machine) (x : EStateM Fault σ α) :
    Execution α := fun m =>
  match x (get m) with
  | .ok a part => .ok a (set m part)
  | .error e part => .error e (set m part)

def onGenerator {α : Type} : Evaluation α → Execution α :=
  onPart generator fun m generator => { m with generator }

def onReader {α : Type} : EStateM Fault Reader α → Execution α :=
  onPart reader fun m reader => { m with reader }

def onCalls {α : Type} : EStateM Fault (Stack Nat) α → Execution α :=
  onPart calls fun m calls => { m with calls }

def onLoops {α : Type} : EStateM Fault (Stack Frame) α → Execution α :=
  onPart loops fun m loops => { m with loops }

/-- The value of an expression. -/
def value (kind : Kind) (e : Expr) : Execution Value := fun m =>
  onGenerator (evaluate m.store kind e) m

def integer (e : Expr) : Execution Int32 := fun m => onGenerator (evaluateInteger m.store e) m

def condition (e : Expr) : Execution Bool := fun m => onGenerator (evaluateCondition m.store e) m

/-- Gives a variable a value. -/
def assign (v : Ident) (x : Value) : Execution Unit := fun m =>
  match m.store.store v x with
  | .ok store => .ok () { m with store }
  | .error e => .error e m

def fetch (v : Ident) : Execution Value := fun m =>
  match m.store.fetch v with
  | .ok x => .ok x m
  | .error e => .error e m

/-- Prints a text. -/
def emit (text : String) : Execution Unit := fun m =>
  .ok () { m with output := m.output.push text }

end Machine

end LabelBasic
