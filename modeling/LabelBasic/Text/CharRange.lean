/-!
# Sets of characters given by ranges

The character properties of this dialect are those of the Unicode standard. Each is a list of
closed ranges of code points; membership is a search through the list.
-/
namespace LabelBasic

/-- Closed ranges of code points. -/
abbrev CharRanges := List (Nat × Nat)

/-- Some range holds the character. -/
def CharRanges.contains (ranges : CharRanges) (c : Char) : Bool :=
  ranges.any fun (first, last) => first ≤ c.toNat && c.toNat ≤ last

theorem CharRanges.contains_iff {ranges : CharRanges} {c : Char} :
    ranges.contains c = true ↔ ∃ r ∈ ranges, r.1 ≤ c.toNat ∧ c.toNat ≤ r.2 := by
  simp [contains]

end LabelBasic
