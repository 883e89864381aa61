import LabelBasic.Number.Decimal

/-!
# Single precision

Floating point numbers of the dialect are IEEE 754 singles, kept as their bits. Every finite one is
a whole number of units of `2 ^ -149`, the least positive single, so each operation is the exact
result over whole numbers followed by one rounding, `ofQuotient`: to the nearest single, a tie to
the even significand, beyond the largest to infinity.
-/
namespace LabelBasic

structure Single where
  bits : UInt32
  deriving DecidableEq, Repr

namespace Single

/-- Bit pattern of the infinite magnitude; greater magnitudes are not numbers. -/
def infinityBits : Nat := 0x7f800000

/-- Weight of the sign bit. -/
def signWeight : Nat := 0x80000000

/-- Weight of the lowest exponent bit, and of the bit of the significand that is not stored. -/
def hiddenBit : Nat := 0x800000

/-- The bits other than the sign. -/
def magnitude (x : Single) : Nat := x.bits.toNat % signWeight

/-- The sign bit is set; so it is for negative zero. -/
def isNegative (x : Single) : Bool := signWeight ≤ x.bits.toNat

def isNaN (x : Single) : Bool := infinityBits < x.magnitude

def isInfinite (x : Single) : Bool := x.magnitude == infinityBits

def isFinite (x : Single) : Bool := x.magnitude < infinityBits

/-- A single of the given sign and magnitude bits. -/
def ofMagnitude (negative : Bool) (magnitude : Nat) : Single :=
  ⟨UInt32.ofNat (if negative then signWeight + magnitude else magnitude)⟩

def nan : Single := ⟨0x7fc00000⟩

def infinity (negative : Bool) : Single := ofMagnitude negative infinityBits

def zero (negative : Bool) : Single := ofMagnitude negative 0

def negate (x : Single) : Single := ofMagnitude (!x.isNegative) x.magnitude

/-- The magnitude of a finite single in units of `2 ^ -149`. Below the exponent field 1 the
significand has no hidden bit. -/
def units (x : Single) : Nat :=
  if x.magnitude < hiddenBit then x.magnitude
  else (hiddenBit + x.magnitude % hiddenBit) * Nat.pow 2 (x.magnitude / hiddenBit - 1)

/-- The units with the sign. -/
def signedUnits (x : Single) : Int := if x.isNegative then -x.units else x.units

/-- How many units make one. -/
def unitsPerOne : Nat := Nat.pow 2 149

/-- The natural number nearest to a quotient, a tie to the even one. -/
def roundHalfEven (num den : Nat) : Nat :=
  let floor := num / den
  let excess := 2 * (num % den)
  if excess < den ∨ (excess = den ∧ floor % 2 = 0) then floor else floor + 1

/-- Magnitude bits nearest to `num / den` units. The significand keeps 24 bits, and one that rounds
up to `2 ^ 24` carries into the exponent field by itself. -/
def roundUnits (num den : Nat) : Nat :=
  -- Below `2 ^ 24` units the shift is zero, so subnormal numbers keep all their bits.
  let shift := Nat.log2 (num / den) - 23
  min (shift * hiddenBit + roundHalfEven num (den * Nat.pow 2 shift)) infinityBits

/-- The single nearest to `± num / den`. -/
def ofQuotient (negative : Bool) (num den : Nat) : Single :=
  ofMagnitude negative (roundUnits (num * unitsPerOne) den)

/-- The single nearest to `± d`. -/
def ofDecimal (negative : Bool) (d : Decimal) : Single :=
  ofQuotient negative d.numerator d.denominator

/-! ### Arithmetic -/

/-- An exact zero sum is negative only when both terms are. -/
def add (x y : Single) : Single :=
  if x.isNaN || y.isNaN then nan
  else if x.isInfinite then
    if y.isInfinite && x.isNegative != y.isNegative then nan else x
  else if y.isInfinite then y
  else
    -- Finite singles are whole numbers of units, so the sum is exact before it is rounded.
    let sum := x.signedUnits + y.signedUnits
    if sum = 0 then zero (x.isNegative && y.isNegative)
    else ofQuotient (sum < 0) sum.natAbs unitsPerOne

def sub (x y : Single) : Single := add x y.negate

def mul (x y : Single) : Single :=
  let negative := x.isNegative != y.isNegative
  if x.isNaN || y.isNaN then nan
  else if x.isInfinite || y.isInfinite then
    if x.magnitude = 0 ∨ y.magnitude = 0 then nan else infinity negative
  else ofQuotient negative (x.units * y.units) (unitsPerOne * unitsPerOne)

/-- A quotient by zero is infinite, or not a number when the dividend is zero too. -/
def div (x y : Single) : Single :=
  let negative := x.isNegative != y.isNegative
  if x.isNaN || y.isNaN then nan
  else if x.isInfinite then
    if y.isInfinite then nan else infinity negative
  else if y.isInfinite then zero negative
  else if y.magnitude = 0 then
    if x.magnitude = 0 then nan else infinity negative
  else ofQuotient negative x.units y.units

/-- A number in the order of the singles; the two zeros share one. -/
def rank (x : Single) : Int := if x.isNegative then -x.magnitude else x.magnitude

/-- The order of two singles; there is none with a NaN. -/
def compare? (x y : Single) : Option Ordering :=
  if x.isNaN || y.isNaN then none else some (compare x.rank y.rank)

end Single

end LabelBasic
