import LabelBasic.Number.Single

/-!
# Reading numbers

`integer?` reads an optional sign and decimal digits whose value is a 32-bit integer, and `word64?`
the same without a minus sign for words of 64 bits. `single?` reads an optional sign and either
digits with at most one point and an optional exponent, rounded to the nearest single, or a name of
infinity or of not-a-number in any case. Nothing else is accepted, not even blanks around the number.
-/
namespace LabelBasic.Numeral

/-- Splits an optional sign off; `true` is a minus. -/
def sign : List Char → Bool × List Char
  | '-' :: rest => (true, rest)
  | '+' :: rest => (false, rest)
  | text => (false, text)

/-- The value of a nonempty run of digits that is the whole text. -/
def natural? (text : List Char) : Option Nat :=
  if text ≠ [] ∧ text.all Char.isDigit then some (Nat.ofDigitChars 10 text 0) else none

/-- A whole number that is a 32-bit integer. -/
def integer? (text : List Char) : Option Int32 := do
  let (negative, digits) := sign text
  let n ← natural? digits
  let value : Int := if negative then -n else n
  if Int32.minValue.toInt ≤ value ∧ value ≤ Int32.maxValue.toInt then some (Int32.ofInt value)
  else none

/-- A whole number without a minus sign that is a 64-bit word. -/
def word64? (text : List Char) : Option UInt64 := do
  let (negative, digits) := sign text
  let n ← natural? digits
  if ¬negative ∧ n < UInt64.size then some (UInt64.ofNat n) else none

/-- The text after the digits of a number: nothing, or a mark and a whole number. -/
def exponent? : List Char → Option Int
  | [] => some 0
  | mark :: rest => do
    if mark ≠ 'e' ∧ mark ≠ 'E' then none
    else
      let (negative, digits) := sign rest
      let n ← natural? digits
      some (if negative then -n else n)

/-- Digits with at most one point among or around them, then an optional exponent. -/
def decimal? (text : List Char) : Option Decimal := do
  let whole := text.takeWhile Char.isDigit
  let afterWhole := text.dropWhile Char.isDigit
  let (fraction, rest) := match afterWhole with
    | '.' :: rest => (rest.takeWhile Char.isDigit, rest.dropWhile Char.isDigit)
    | rest => ([], rest)
  if whole = [] ∧ fraction = [] then none
  else
    let d := Decimal.ofParts whole fraction
    let e ← exponent? rest
    some { d with exponent := d.exponent + e }

/-- Brings an exponent of any size into a range where powers of ten stay small. A nonzero decimal
with a greater exponent is infinite, one with a smaller exponent rounds to zero; so do the ends of
the range, and the rounded number is the same. -/
def tame (d : Decimal) : Decimal :=
  { d with exponent := max (min d.exponent 39) (-(Nat.log2 d.digits + 47)) }

/-- The names of numbers without digits. -/
def named? (negative : Bool) (text : List Char) : Option Single :=
  let name := String.ofList (text.map Char.toLower)
  if name = "inf" ∨ name = "infinity" then some (Single.infinity negative)
  else if name = "nan" then some Single.nan
  else none

/-- A floating point number, rounded to the nearest single. -/
def single? (text : List Char) : Option Single :=
  let (negative, body) := sign text
  named? negative body <|> (decimal? body).map fun d => Single.ofDecimal negative (tame d)

end LabelBasic.Numeral
