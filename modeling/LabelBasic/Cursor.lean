import LabelBasic.Token

/-!
# Cursors

A cursor stands in a list, in front of the item under examination. Peeking does not move it; it
never moves past the end and never back.
-/
namespace LabelBasic

/-- `ahead` is what the cursor has not passed; `passed` is the last item it has. -/
structure Cursor (α : Type) where
  passed : Option α
  ahead : List α
  deriving Repr

namespace Cursor

variable {α : Type}

def ofList (items : List α) : Cursor α := ⟨none, items⟩

/-- The item `n` places ahead. -/
def peek? (c : Cursor α) (n : Nat) : Option α := c.ahead[n]?

/-- Up to `n` items behind the one under examination. -/
def following (c : Cursor α) (n : Nat) : List α := (c.ahead.drop 1).take n

/-- Moves by `n` items, or to the end. -/
def skip (c : Cursor α) (n : Nat) : Cursor α :=
  ⟨(c.ahead.take n).getLast?.or c.passed, c.ahead.drop n⟩

def atEnd (c : Cursor α) : Bool := c.ahead.isEmpty

/-- The first item ahead if it satisfies `p`, and the cursor behind it. -/
def takeIf? (c : Cursor α) (p : α → Bool) : Option (α × Cursor α) :=
  match c.ahead with
  | x :: _ => if p x then some (x, c.skip 1) else none
  | [] => none

@[simp] theorem skip_zero (c : Cursor α) : c.skip 0 = c := by
  simp [skip]

@[simp] theorem ahead_skip (c : Cursor α) (n : Nat) : (c.skip n).ahead = c.ahead.drop n := rfl

/-! ### Places of tokens -/

/-- The line of the token under examination, or of the last one when none is left. -/
def line (c : Cursor Token) : Nat :=
  match c.ahead.head?.or c.passed with
  | some t => t.line
  | none => Position.start.line

/-- The columns of the token under examination. When none is left, the empty range where the last
one ends. -/
def columns (c : Cursor Token) : Columns :=
  match c.ahead, c.passed with
  | t :: _, _ => t.columns
  | [], some t => ⟨t.columns.stop, t.columns.stop⟩
  | [], none => .none

end Cursor

end LabelBasic
