import LabelBasic.Fault

/-!
# Arithmetic on values

Both operands have to be of one kind; nothing is converted. Integers are exact or fail, a quotient
goes toward zero, floats follow single precision, and strings can be joined.
-/
namespace LabelBasic

/-- A whole number as an integer of the dialect, if it is one. -/
def checked (n : Int) : Except Fault Int32 :=
  if Int32.minValue.toInt ≤ n ∧ n ≤ Int32.maxValue.toInt then .ok (Int32.ofInt n)
  else .error .overflow

namespace Operator

/-- An operation on whole numbers; there is no quotient by zero. -/
def whole : Operator → Int → Int → Except Fault Int
  | .add, m, n => .ok (m + n)
  | .sub, m, n => .ok (m - n)
  | .mul, m, n => .ok (m * n)
  | .div, m, n => if n = 0 then .error .divisionByZero else .ok (m.tdiv n)

def integer (op : Operator) (m n : Int32) : Except Fault Int32 := do
  checked (← op.whole m.toInt n.toInt)

def single : Operator → Single → Single → Single
  | .add => Single.add
  | .sub => Single.sub
  | .mul => Single.mul
  | .div => Single.div

def apply : Operator → Value → Value → Except Fault Value
  | op, .integer m, .integer n => (op.integer m n).map .integer
  | op, .float x, .float y => .ok (.float (op.single x y))
  | .add, .string s, .string t => .ok (.string (s ++ t))
  | _, _, _ => .error .unfitOperands

end Operator

namespace Value

/-! ### Values of one kind -/

def toInteger : Value → Except Fault Int32
  | .integer n => .ok n
  | _ => .error (.expectedKind .integer)

def toSingle : Value → Except Fault Single
  | .float x => .ok x
  | _ => .error (.expectedKind .float)

def toText : Value → Except Fault String
  | .string s => .ok s
  | _ => .error (.expectedKind .string)

/-- The order of two numbers of one kind; there is none with a NaN. -/
def order? : Value → Value → Except Fault (Option Ordering)
  | .integer m, .integer n => .ok (some (compare m.toInt n.toInt))
  | .float x, .float y => .ok (x.compare? y)
  | _, _ => .error .incomparable

end Value

end LabelBasic
