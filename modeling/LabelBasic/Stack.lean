/-!
# Bounded stacks

A stack holds up to `capacity` items. Pushing one more is a fault, but the item stays; popping an
empty stack is a fault. The two faults are the caller's.
-/
namespace LabelBasic

/-- Items with the top first, and how many there are. -/
structure Stack (α : Type) where
  items : List α
  size : Nat
  size_eq : size = items.length

namespace Stack

variable {ε α : Type}

/-- The greatest number of items. -/
def capacity : Nat := 65535

def empty : Stack α := ⟨[], 0, rfl⟩

def ofList (items : List α) : Stack α := ⟨items, items.length, rfl⟩

instance : Inhabited (Stack α) := ⟨empty⟩

instance [Repr α] : Repr (Stack α) := ⟨fun s n => reprPrec s.items n⟩

theorem ext_items {s t : Stack α} (same : s.items = t.items) : s = t := by
  obtain ⟨items, size, rfl⟩ := s
  obtain ⟨others, size, rfl⟩ := t
  subst same
  rfl

def top? (s : Stack α) : Option α := s.items.head?

/-- The items with the bottom first. -/
def fromBottom (s : Stack α) : List α := s.items.reverse

/-- Puts an item on top. -/
def cons (x : α) (s : Stack α) : Stack α := ⟨x :: s.items, s.size + 1, by simp [s.size_eq]⟩

/-- Puts an item on top, and faults if that is one too many. -/
def push (overflow : ε) (x : α) : EStateM ε (Stack α) Unit := fun s =>
  let s := s.cons x
  if capacity < s.size then .error overflow s else .ok () s

/-- Without the top item. -/
def tail (s : Stack α) : Stack α := ⟨s.items.tail, s.size - 1, by simp [s.size_eq]⟩

/-- Takes the top item off. -/
def pop (underflow : ε) : EStateM ε (Stack α) α := fun s =>
  match s.top? with
  | none => .error underflow s
  | some x => .ok x s.tail

/-- Keeps the `n` items at the bottom. -/
def keepBottom (n : Nat) (s : Stack α) : Stack α := ofList (s.items.drop (s.size - n))

/-- The items above the `n` at the bottom, the lowest first. -/
def aboveBottom (n : Nat) (s : Stack α) : List α := (s.items.take (s.size - n)).reverse

/-- Drops items from the top until one satisfies `p`. -/
def dropUntil (p : α → Bool) (s : Stack α) : Stack α := ofList (s.items.dropWhile (!p ·))

/-- Drops the lowest item that satisfies `p` and all above it. -/
def dropFromLowest (p : α → Bool) (s : Stack α) : Stack α :=
  ofList (s.fromBottom.takeWhile (!p ·)).reverse

@[simp] theorem items_ofList (items : List α) : (ofList items).items = items := rfl

@[simp] theorem items_tail (s : Stack α) : s.tail.items = s.items.tail := rfl

@[simp] theorem items_cons (x : α) (s : Stack α) : (s.cons x).items = x :: s.items := rfl

end Stack

end LabelBasic
