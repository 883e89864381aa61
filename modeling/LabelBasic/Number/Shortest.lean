import LabelBasic.Number.Single

/-!
# The shortest decimal of a single

A finite single is written with the fewest digits that read back as it, and of two such decimals the
nearer one; an exact tie goes to the greater magnitude. The search runs over the grids of multiples
of a power of ten from the coarsest to the finest: on each grid only the two neighbours of the value
can be the nearest that reads back, and the first grid with one has the fewest digits. The grid of
`10 ^ -149` holds every finite single itself, so the search always ends with an answer.
-/
namespace LabelBasic

namespace Decimal

/-- The neighbours of `units` units of `2 ^ -149` on the grid of `10 ^ exponent`, the nearer first. -/
def neighbours (units : Nat) (exponent : Int) : List Decimal :=
  let num := units * Nat.pow 10 (-exponent).toNat
  let den := Single.unitsPerOne * Nat.pow 10 exponent.toNat
  let below : Decimal := ⟨num / den, exponent⟩
  let above : Decimal := ⟨num / den + 1, exponent⟩
  if 2 * (num % den) < den then [below, above] else [above, below]

/-- The decimal reads back as the magnitude of `x`. -/
def readsBack (x : Single) (d : Decimal) : Bool := (Single.ofDecimal false d).magnitude == x.magnitude

end Decimal

namespace Single

/-- The exponents of the grids, coarsest first: no finite single reaches `10 ^ 39`, and all are
multiples of `10 ^ -149`. -/
def gridExponents : List Int := (List.range 188).map fun (k : Nat) => 38 - (k : Int)

/-- The shortest decimal of the magnitude of a finite single. -/
def shortest (x : Single) : Decimal :=
  if x.magnitude = 0 then ⟨0, 0⟩
  else
    (gridExponents.findSome? fun e => (Decimal.neighbours x.units e).find? (·.readsBack x)).getD
      ⟨x.units * Nat.pow 5 149, -149⟩

end Single

end LabelBasic
