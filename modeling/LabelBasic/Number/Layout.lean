import LabelBasic.Number.Shortest

/-!
# How numbers are written

A finite single is written with its shortest digits, positionally or with an exponent. A `Layout`
fixes where positional writing ends; the dialect has two of them, one for values and one for
program listings.
-/
namespace LabelBasic

/-- Which decimals are written positionally, and the form of the others. -/
structure Layout where
  /-- Least exponent of the first digit that is written positionally. -/
  least : Int
  /-- First exponent above the positional ones. -/
  limit : Int
  /-- Stands between the significand and the exponent. -/
  mark : Char
  /-- A significand of one digit gets `.0`. -/
  pointed : Bool

namespace Layout

/-- PRINT and `num$` write positionally from 0.001 up to ten million, and `1.0E7` beyond. -/
def value : Layout := ⟨-3, 7, 'E', true⟩

/-- Listings write positionally from 0.0001 up to ten quadrillion, and `1e16` beyond. -/
def listing : Layout := ⟨-4, 16, 'e', false⟩

/-- Digits around a point; a whole number gets `.0`. -/
def positional (digits : List Char) (exponent : Int) : List Char :=
  let places := (-exponent).toNat
  if places = 0 then digits ++ List.replicate exponent.toNat '0' ++ ['.', '0']
  else
    let padded := List.replicate (places + 1 - digits.length) '0' ++ digits
    padded.take (padded.length - places) ++ '.' :: padded.drop (padded.length - places)

/-- A significand with one digit before the point, and the exponent of that digit. -/
def scientific (layout : Layout) (digits : List Char) (exponent : Int) : List Char :=
  let leading := exponent + digits.length - 1
  let fraction :=
    if digits.length = 1 then if layout.pointed then ['.', '0'] else []
    else '.' :: digits.drop 1
  digits.take 1 ++ fraction ++ layout.mark :: (toString leading).toList

/-- A decimal in this layout. -/
def decimal (layout : Layout) (d : Decimal) : List Char :=
  let digits := Nat.toDigits 10 d.digits
  let leading := d.exponent + digits.length - 1
  if d.digits = 0 ∨ layout.least ≤ leading ∧ leading < layout.limit then
    positional digits d.exponent
  else layout.scientific digits d.exponent

/-- A single in this layout, with its sign; the sign of a NaN is not shown. -/
def single (layout : Layout) (x : Single) : String :=
  if x.isNaN then "NaN"
  else
    let sign := if x.isNegative then "-" else ""
    if x.isInfinite then sign ++ "inf" else sign ++ String.ofList (layout.decimal x.shortest)

end Layout

/-- An integer in decimal. -/
def integerText (n : Int32) : String := toString n.toInt

end LabelBasic
