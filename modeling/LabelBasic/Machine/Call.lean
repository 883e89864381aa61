import LabelBasic.Fault
import LabelBasic.Generator

/-!
# Calls of built-in functions

A function takes its arguments one after the other, faults at the first that is missing or of the
wrong kind, and leaves further ones alone. Only `random` changes the generator. Characters of a
string are counted from zero.
-/
namespace LabelBasic

/-- A computation that draws random numbers and may fault. -/
abbrev Evaluation := EStateM Fault Generator

/-- The outcome of a computation without effects. -/
def ofExcept {ε σ α : Type} : Except ε α → EStateM ε σ α
  | .ok a => pure a
  | .error e => throw e

namespace Builtin

/-! ### Arguments -/

/-- The first argument, as a string. -/
def takeString : List Value → Except Fault (String × List Value)
  | .string s :: rest => .ok (s, rest)
  | _ :: _ => .error (.expectedKind .string)
  | [] => .error .missingArgument

/-- The first argument, as an integer. -/
def takeInteger : List Value → Except Fault (Int32 × List Value)
  | .integer n :: rest => .ok (n, rest)
  | _ :: _ => .error (.expectedKind .integer)
  | [] => .error .missingArgument

/-- The first argument, whatever its kind. -/
def takeValue : List Value → Except Fault Value
  | x :: _ => .ok x
  | [] => .error .missingArgument

/-! ### Functions on values -/

/-- A place between the characters of a string. -/
def place (s : String) (n : Int32) : Except Fault Nat :=
  if 0 ≤ n.toInt ∧ n.toInt ≤ s.length then .ok n.toInt.toNat else .error (.outOfRange n)

/-- The first `n` characters. -/
def leftOf (s : String) (n : Int32) : Except Fault String := do
  let n ← place s n
  pure (String.ofList (s.toList.take n))

/-- The last `n` characters. -/
def rightOf (s : String) (n : Int32) : Except Fault String := do
  let n ← place s n
  pure (String.ofList (s.toList.drop (s.length - n)))

/-- The characters from `start` up to but not including `stop`. -/
def midOf (s : String) (start stop : Int32) : Except Fault String := do
  let start ← place s start
  let stop ← place s stop
  if stop < start then throw .endBeforeStart
  pure (String.ofList ((s.toList.drop start).take (stop - start)))

/-- The integer a text writes. -/
def integerOf (s : String) : Except Fault Int32 :=
  match Numeral.integer? s.toList with
  | some n => .ok n
  | none => .error (.notAnInteger s)

/-- The float a text writes. -/
def floatOf (s : String) : Except Fault Single :=
  match Numeral.single? s.toList with
  | some x => .ok x
  | none => .error (.notAFloat s)

/-- The text of a number. -/
def numeralOf : Value → Except Fault String
  | .string _ => .error .unfitOperands
  | x => .ok x.text

/-- The next random integer. -/
def drawInteger : Evaluation Int32 := fun g =>
  let (word, g) := g.draw
  .ok word.toInt32 g

/-- Calls a function. -/
def call (f : Builtin) (arguments : List Value) : Evaluation Value :=
  match f with
  | .random => do pure (.integer (← drawInteger))
  | .val => ofExcept do
    let (s, _) ← takeString arguments
    pure (.integer (← integerOf s))
  | .valFloat => ofExcept do
    let (s, _) ← takeString arguments
    pure (.float (← floatOf s))
  | .left => ofExcept do
    let (s, rest) ← takeString arguments
    let (n, _) ← takeInteger rest
    pure (.string (← leftOf s n))
  | .right => ofExcept do
    let (s, rest) ← takeString arguments
    let (n, _) ← takeInteger rest
    pure (.string (← rightOf s n))
  | .mid => ofExcept do
    let (s, rest) ← takeString arguments
    let (start, rest) ← takeInteger rest
    let (stop, _) ← takeInteger rest
    pure (.string (← midOf s start stop))
  | .num => ofExcept do
    let x ← takeValue arguments
    pure (.string (← numeralOf x))

end Builtin

end LabelBasic
