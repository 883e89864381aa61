import LabelBasic.Fault
import Std.Data.TreeMap

/-!
# Variables

The store maps names to values. A name has the kind its last character gives it, and the store
never holds a value of another kind under it. There is room for `Store.capacity` variables.
-/
namespace LabelBasic

structure Store where
  values : Std.TreeMap String Value compare
  kind_eq : ∀ v : Ident, ∀ x, values[v.name]? = some x → x.kind = v.kind

namespace Store

/-- The greatest number of variables. -/
def capacity : Nat := 65536

def empty : Store where
  values := ∅
  kind_eq := by simp

instance : Inhabited Store := ⟨empty⟩

/-- The value of a variable that has one. -/
def get? (s : Store) (v : Ident) : Option Value := s.values[v.name]?

def size (s : Store) : Nat := s.values.size

def contains (s : Store) (v : Ident) : Bool := s.values.contains v.name

theorem kind_of_get? {s : Store} {v : Ident} {x : Value} (found : s.get? v = some x) :
    x.kind = v.kind :=
  s.kind_eq v x found

/-- Puts a value of the right kind under a name. -/
def insert (s : Store) (v : Ident) (x : Value) (fits : x.kind = v.kind) : Store where
  values := s.values.insert v.name x
  kind_eq := by
    intro w y found
    rw [Std.TreeMap.getElem?_insert] at found
    split at found
    next same =>
      -- Two variables of one name are the same variable, so they have one kind.
      obtain ⟨name⟩ := v
      obtain ⟨other⟩ := w
      have : name = other := Std.LawfulEqCmp.eq_of_compare same
      subst this
      simpa [← Option.some.inj found] using fits
    next => exact s.kind_eq w y found

/-- The value of a variable. -/
def fetch (s : Store) (v : Ident) : Except Fault Value :=
  match s.get? v with
  | some x => .ok x
  | none => .error (.undefinedVariable v)

/-- Gives a variable a value. That there is room for a new variable is checked before its kind. -/
def store (s : Store) (v : Ident) (x : Value) : Except Fault Store :=
  if !s.contains v && capacity ≤ s.size then .error .tooManyVariables
  else if fits : x.kind = v.kind then .ok (s.insert v x fits)
  else .error (.variableKind v x.kind)

theorem contains_of_get? {s : Store} {v : Ident} {x : Value} (found : s.get? v = some x) :
    s.contains v = true :=
  Std.TreeMap.mem_iff_isSome_getElem?.mpr (Option.isSome_of_eq_some found)

theorem store_of_room {s : Store} {v : Ident} {x : Value} (fits : x.kind = v.kind)
    (room : s.contains v = true ∨ s.size < capacity) : s.store v x = .ok (s.insert v x fits) := by
  have fitting : ¬(!s.contains v && capacity ≤ s.size) = true := by
    rcases room with known | free
    · simp [known]
    · simp [Nat.not_le.mpr free]
  rw [store, if_neg fitting, dif_pos fits]

theorem get?_insert (s : Store) (v w : Ident) (x : Value) (fits : x.kind = v.kind) :
    (s.insert v x fits).get? w = if v = w then some x else s.get? w := by
  obtain ⟨name⟩ := v
  obtain ⟨other⟩ := w
  simp [get?, insert, Std.TreeMap.getElem?_insert]

end Store

end LabelBasic
