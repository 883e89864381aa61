import LabelBasic.Proofs.Rounding
import Mathlib.Algebra.Order.Field.Basic
import Mathlib.Algebra.Order.Field.Rat
import Mathlib.Tactic.Linarith
import Mathlib.Tactic.Ring

/-!
# The nearest single

Main result: a decimal is rounded to the single that is nearest to it among all singles, and where two
are equally near, to the one with the even significand (`isNearest_ofDecimal`). There is only one such
single (`IsNearest.unique`). Here infinity takes the place of the power of two behind the greatest
finite single.
-/
namespace LabelBasic

namespace Single

/-- The number that a single stands for. -/
def toRat (x : Single) : ℚ := x.signedUnits / unitsPerOne

/-- No single is nearer to the number, and if another one is as near, the significand is even. -/
structure IsNearest (x : Single) (v : ℚ) : Prop where
  number : x.isNaN = false
  least : ∀ y : Single, y.isNaN = false → |x.toRat - v| ≤ |y.toRat - v|
  even : ∀ y : Single, y.isNaN = false → |y.toRat - v| = |x.toRat - v| →
    y.toRat = x.toRat ∨ x.magnitude % 2 = 0

/-! ### Distances -/

/-- The first number is no farther from `v` than the second one. Where they are as near, they are the
same, or the first one is even in what it was rounded to. -/
def Beats (a b v : ℚ) (even : Prop) : Prop :=
  |a - v| ≤ |b - v| ∧ (|b - v| = |a - v| → b = a ∨ even)

theorem Beats.mul {a b v k : ℚ} {even : Prop} (beats : Beats a b v even) (pos : 0 < k) :
    Beats (a * k) (b * k) (v * k) even := by
  obtain ⟨least, tie⟩ := beats
  have scaled (c : ℚ) : |c * k - v * k| = |c - v| * k := by
    rw [← sub_mul, abs_mul, abs_of_pos pos]
  rw [Beats, scaled, scaled]
  refine ⟨mul_le_mul_of_nonneg_right least pos.le, fun equal => ?_⟩
  exact (tie (mul_right_cancel₀ pos.ne' equal)).imp_left fun same => by rw [same]

/-- With a minus sign a number is farther away, unless it is zero. -/
theorem Beats.neg {a b v : ℚ} {even : Prop} (beats : Beats a b v even) (zero : Beats a 0 v even)
    (nonneg : 0 ≤ b) (value : 0 ≤ v) : Beats a (-b) v even := by
  obtain ⟨least, tie⟩ := zero
  rw [zero_sub, abs_neg, abs_of_nonneg value] at least tie
  rw [Beats, abs_of_nonpos (by linarith : -b - v ≤ 0)]
  refine ⟨beats.1.trans (abs_le.mpr ⟨by linarith, by linarith⟩), fun equal => ?_⟩
  have none : b = 0 := by linarith
  rw [none, neg_zero]
  exact tie (by linarith)

/-! ### To the nearest natural number -/

section

variable (num : Nat) {den : Nat} (pos : 0 < den)

include pos

theorem cast_div_add_mod : (num : ℚ) / den = (num / den : Nat) + ((num % den : Nat) : ℚ) / den := by
  have positive : (0 : ℚ) < den := Nat.cast_pos.mpr pos
  have parts : (num : ℚ) = den * (num / den : Nat) + (num % den : Nat) := by
    exact_mod_cast (Nat.div_add_mod num den).symm
  calc (num : ℚ) / den = (den * (num / den : Nat) + (num % den : Nat)) / den := by rw [← parts]
    _ = (num / den : Nat) + ((num % den : Nat) : ℚ) / den := by
      rw [add_div, mul_div_cancel_left₀ _ positive.ne']

theorem part_le_half_iff : ((num % den : Nat) : ℚ) / den ≤ 1 / 2 ↔ 2 * (num % den) ≤ den := by
  have positive : (0 : ℚ) < den := Nat.cast_pos.mpr pos
  rw [div_le_iff₀ positive, ← Nat.cast_le (α := ℚ), Nat.cast_mul, Nat.cast_two]
  constructor <;> intro le <;> linarith

theorem half_le_part_iff : 1 / 2 ≤ ((num % den : Nat) : ℚ) / den ↔ den ≤ 2 * (num % den) := by
  have positive : (0 : ℚ) < den := Nat.cast_pos.mpr pos
  rw [le_div_iff₀ positive, ← Nat.cast_le (α := ℚ), Nat.cast_mul, Nat.cast_two]
  constructor <;> intro le <;> linarith

/-- Rounding goes half the way at most, and all of that only to an even number. -/
theorem roundHalfEven_near :
    |(roundHalfEven num den : ℚ) - num / den| ≤ 1 / 2 ∧
      (|(roundHalfEven num den : ℚ) - num / den| = 1 / 2 → roundHalfEven num den % 2 = 0) := by
  have bound : ((num % den : Nat) : ℚ) / den < 1 := by
    rw [div_lt_one (Nat.cast_pos.mpr pos)]
    exact Nat.cast_lt.mpr (Nat.mod_lt num pos)
  have some : 0 ≤ ((num % den : Nat) : ℚ) / den := by positivity
  have down := part_le_half_iff num pos
  have up := half_le_part_iff num pos
  rw [cast_div_add_mod num pos]
  unfold roundHalfEven
  dsimp only
  generalize ((num % den : Nat) : ℚ) / den = part at bound some down up ⊢
  -- Rounding down leaves the part behind the whole, and rounding up adds what it lacks to one.
  split
  next below =>
    have distance : |((num / den : Nat) : ℚ) - ((num / den : Nat) + part)| = part := by
      rw [sub_add_cancel_left, abs_neg, abs_of_nonneg some]
    rw [distance]
    refine ⟨down.mpr (by omega), fun tie => ?_⟩
    have half := up.mp tie.ge
    omega
  next above =>
    have distance : |((num / den + 1 : Nat) : ℚ) - ((num / den : Nat) + part)| = 1 - part := by
      rw [Nat.cast_succ, add_sub_add_left_eq_sub, abs_of_nonneg (by linarith)]
    have half := up.mpr (by omega)
    rw [distance]
    refine ⟨by linarith, fun tie => ?_⟩
    have half := down.mp (by linarith)
    omega

/-- No natural number is nearer than the rounded one. -/
theorem roundHalfEven_beats (k : Nat) :
    Beats (roundHalfEven num den) k (num / den) (roundHalfEven num den % 2 = 0) := by
  obtain ⟨near, tie⟩ := roundHalfEven_near num pos
  by_cases same : k = roundHalfEven num den
  · rw [same]
    exact ⟨le_rfl, fun _ => .inl rfl⟩
  -- Another natural number is at least one away.
  have apart : 1 ≤ |(k : ℚ) - roundHalfEven num den| := by
    have nonzero : (k : ℤ) - roundHalfEven num den ≠ 0 := by omega
    have one := Int.one_le_abs nonzero
    exact_mod_cast one
  have far : 1 / 2 ≤ |(k : ℚ) - num / den| := by
    have through := abs_sub_le (k : ℚ) (num / den) (roundHalfEven num den)
    rw [abs_sub_comm (num / den : ℚ)] at through
    linarith
  refine ⟨near.trans far, fun equal => .inr (tie ?_)⟩
  linarith

end

/-! ### Units of magnitudes -/

/-- The units of a single with these bits. -/
def unitsOf (m : Nat) : Nat :=
  if m < hiddenBit then m else (hiddenBit + m % hiddenBit) * Nat.pow 2 (m / hiddenBit - 1)

theorem units_eq (x : Single) : x.units = unitsOf x.magnitude := rfl

/-- A magnitude is an exponent field and a significand, where the hidden bit is one in the field. -/
theorem exists_fields (m : Nat) : ∃ s r, m = s * hiddenBit + r ∧ r < hiddenBit + hiddenBit ∧
    (0 < s → hiddenBit ≤ r) := by
  have parts := Nat.div_add_mod m hiddenBit
  have part := Nat.mod_lt m (show 0 < hiddenBit by decide)
  cases field : m / hiddenBit with
  | zero =>
    rw [field] at parts
    exact ⟨0, m, by omega, by omega, by omega⟩
  | succ s =>
    rw [field, Nat.mul_add, Nat.mul_comm] at parts
    exact ⟨s, hiddenBit + m % hiddenBit, by omega, by omega, fun _ => Nat.le_add_right _ _⟩

theorem unitsOf_fraction {s f : Nat} (part : f < hiddenBit) :
    unitsOf ((s + 1) * hiddenBit + f) = (hiddenBit + f) * Nat.pow 2 s := by
  have bit : 0 < hiddenBit := by decide
  have normal : ¬(s + 1) * hiddenBit + f < hiddenBit := by
    rw [Nat.succ_mul]
    omega
  rw [unitsOf, if_neg normal, Nat.mul_comm (s + 1), Nat.mul_add_mod, Nat.mod_eq_of_lt part,
    Nat.mul_add_div bit, Nat.div_eq_of_lt part]
  rfl

/-- The significand counts, shifted by the field. It may be the one that carries into the field. -/
theorem unitsOf_fields {s r : Nat} (upper : r ≤ hiddenBit + hiddenBit) (lower : 0 < s → hiddenBit ≤ r) :
    unitsOf (s * hiddenBit + r) = r * Nat.pow 2 s := by
  rcases Nat.lt_or_ge r hiddenBit with small | large
  · obtain rfl : s = 0 := by omega
    rw [Nat.zero_mul, Nat.zero_add, unitsOf, if_pos small]
    exact (Nat.mul_one r).symm
  obtain ⟨f, rfl⟩ := Nat.exists_eq_add_of_le large
  rcases Nat.lt_or_eq_of_le upper with less | carry
  · rw [← Nat.add_assoc, ← Nat.succ_mul]
    exact unitsOf_fraction (by omega)
  · -- Twice the hidden bit is the hidden bit in the next field.
    obtain rfl : f = hiddenBit := by omega
    rw [← Nat.add_assoc, ← Nat.succ_mul, ← Nat.succ_mul, ← Nat.add_zero ((s + 1 + 1) * hiddenBit),
      unitsOf_fraction (by decide)]
    change _ * 2 ^ (s + 1) = _ * 2 ^ s
    rw [Nat.pow_succ]
    ring

theorem unitsOf_strictMono : StrictMono unitsOf := by
  refine strictMono_nat_of_lt_succ fun m => ?_
  obtain ⟨s, r, rfl, upper, lower⟩ := exists_fields m
  -- One more is one more in the significand.
  rw [Nat.add_assoc, unitsOf_fields upper.le lower,
    unitsOf_fields upper fun shifted => Nat.le_succ_of_le (lower shifted)]
  exact Nat.mul_lt_mul_of_pos_right (Nat.lt_succ_self r) (Nat.pow_pos (by decide))

theorem unitsOf_infinityBits : unitsOf infinityBits = hiddenBit * Nat.pow 2 254 :=
  unitsOf_fields (s := 254) (r := hiddenBit) (Nat.le_add_right _ _) fun _ => Nat.le_refl _

/-- With a smaller field the significand stays below the hidden bit. -/
theorem finer_lt {a s t : Nat} (below : a < hiddenBit + hiddenBit) (finer : t < s) :
    a * Nat.pow 2 t < hiddenBit * Nat.pow 2 s :=
  calc a * 2 ^ t < (hiddenBit + hiddenBit) * 2 ^ t :=
        Nat.mul_lt_mul_of_pos_right below (Nat.pow_pos (by decide))
    _ = hiddenBit * 2 ^ (t + 1) := by rw [Nat.pow_succ]; ring
    _ ≤ hiddenBit * 2 ^ s := Nat.mul_le_mul_left _ (Nat.pow_le_pow_right (by decide) finer)

/-! ### To the nearest magnitude -/

section

variable (num : Nat) {den : Nat} (pos : 0 < den)

include pos

/-- Units that are a multiple of the last place are compared by their significands. -/
theorem significand_beats (s k : Nat) :
    Beats (roundHalfEven num (den * Nat.pow 2 s) * Nat.pow 2 s : Nat) (k * Nat.pow 2 s : Nat)
      (num / den) (roundHalfEven num (den * Nat.pow 2 s) % 2 = 0) := by
  have power : (0 : ℚ) < Nat.pow 2 s := Nat.cast_pos.mpr (Nat.pow_pos (by decide))
  have value : (num : ℚ) / (den * Nat.pow 2 s : Nat) * Nat.pow 2 s = num / den := by
    rw [Nat.cast_mul, div_mul_eq_mul_div, mul_div_mul_right _ _ power.ne']
  have scaled := (roundHalfEven_beats num (scaled_pos pos s) k).mul power
  rwa [value, ← Nat.cast_mul, ← Nat.cast_mul] at scaled

variable {num}

theorem le_quotient {k : Nat} (le : k * den ≤ num) : (k : ℚ) ≤ num / den := by
  rw [le_div_iff₀ (Nat.cast_pos.mpr pos)]
  exact_mod_cast le

/-- From the units of infinity on, infinity is the nearest magnitude. -/
theorem infinityBits_beats (huge : unitsOf infinityBits * den ≤ num) {m : Nat}
    (bound : m ≤ infinityBits) (even : Prop) :
    Beats (unitsOf infinityBits) (unitsOf m) (num / den) even := by
  have above := le_quotient pos huge
  have le : (unitsOf m : ℚ) ≤ unitsOf infinityBits :=
    Nat.cast_le.mpr (unitsOf_strictMono.monotone bound)
  rw [Beats, abs_of_nonpos (by linarith), abs_of_nonpos (by linarith)]
  exact ⟨by linarith, fun equal => .inl (by linarith)⟩

theorem roundUnits_huge (huge : unitsOf infinityBits * den ≤ num) :
    roundUnits num den = infinityBits := by
  have normal : roundUnits (unitsOf infinityBits) 1 = infinityBits :=
    roundUnits_normal (show 0 < hiddenBit by decide) 254
  have least : roundUnits (unitsOf infinityBits) 1 ≤ roundUnits num den :=
    roundUnits_mono Nat.one_pos pos (by rwa [Nat.mul_one])
  rw [normal] at least
  exact Nat.le_antisymm (roundUnits_le _ _) least

/-- Below the units of infinity the exponent field has room. -/
theorem roundUnits_fields (less : num < unitsOf infinityBits * den) {s : Nat}
    (shift : Nat.log2 (num / den) - 23 = s) :
    roundUnits num den = s * hiddenBit + roundHalfEven num (den * Nat.pow 2 s) := by
  have room : s ≤ 253 := by
    by_cases zero : num / den = 0
    · rw [zero, Nat.log2_zero] at shift
      omega
    · have below : num / den < 2 ^ (23 + 254) := by
        rw [Nat.pow_add, Nat.div_lt_iff_lt_mul pos]
        rwa [unitsOf_infinityBits] at less
      have log := (Nat.log2_lt zero).mpr below
      omega
  have significand := significand_le pos shift
  have fields : s * hiddenBit + roundHalfEven num (den * Nat.pow 2 s) ≤ infinityBits := by
    change _ ≤ 253 * hiddenBit + (hiddenBit + hiddenBit)
    exact Nat.add_le_add (Nat.mul_le_mul_right _ room) significand
  unfold roundUnits
  rw [shift]
  exact Nat.min_eq_left fields

variable (num)

/-- No magnitude is nearer to the quotient than the rounded one. -/
theorem roundUnits_beats {m : Nat} (bound : m ≤ infinityBits) :
    Beats (unitsOf (roundUnits num den)) (unitsOf m) (num / den) (roundUnits num den % 2 = 0) := by
  rcases Nat.lt_or_ge num (unitsOf infinityBits * den) with less | huge
  · generalize shift : Nat.log2 (num / den) - 23 = s
    have upper := significand_le pos shift
    have lower := hiddenBit_le_significand pos shift
    obtain ⟨t, a, rfl, below, normal⟩ := exists_fields m
    rw [roundUnits_fields pos less shift, unitsOf_fields upper lower, unitsOf_fields below.le normal]
    rcases Nat.lt_or_ge t s with finer | coarser
    · -- The last place of the other one is finer, so its units are below the hidden bit.
      have hidden : ((hiddenBit * Nat.pow 2 s : Nat) : ℚ) ≤ num / den := by
        apply le_quotient pos
        rw [Nat.mul_assoc, Nat.mul_comm _ den]
        exact hiddenBit_scaled_le pos shift (Nat.zero_lt_of_lt finer)
      have other : ((a * Nat.pow 2 t : Nat) : ℚ) < (hiddenBit * Nat.pow 2 s : Nat) :=
        Nat.cast_lt.mpr (finer_lt below finer)
      have least := (significand_beats num pos s hiddenBit).1
      rw [abs_of_nonpos (sub_nonpos.mpr hidden)] at least
      rw [Beats, abs_of_nonpos (by linarith : ((a * Nat.pow 2 t : Nat) : ℚ) - num / den ≤ 0)]
      exact ⟨by linarith, fun equal => by linarith⟩
    · -- Both are multiples of the last place.
      have power : Nat.pow 2 t = Nat.pow 2 (t - s) * Nat.pow 2 s :=
        (Nat.pow_sub_mul_pow 2 coarser).symm
      rw [power, ← Nat.mul_assoc]
      obtain ⟨least, tie⟩ := significand_beats num pos s (a * Nat.pow 2 (t - s))
      refine ⟨least, fun equal => (tie equal).imp_right fun even => ?_⟩
      change (s * 8388608 + _) % 2 = 0
      omega
  · rw [roundUnits_huge pos huge]
    exact infinityBits_beats pos huge bound _

end

/-! ### Singles -/

theorem unitsPerOne_pos : (0 : ℚ) < unitsPerOne := Nat.cast_pos.mpr (Nat.pow_pos (by decide))

theorem magnitude_le {x : Single} (number : x.isNaN = false) : x.magnitude ≤ infinityBits := by
  simpa [isNaN] using number

theorem toRat_of_positive {x : Single} (positive : x.isNegative = false) :
    x.toRat = unitsOf x.magnitude / unitsPerOne := by
  rw [toRat, signedUnits, positive, units_eq]
  rfl

theorem toRat_of_negative {x : Single} (negative : x.isNegative = true) :
    x.toRat = -(unitsOf x.magnitude / unitsPerOne) := by
  rw [toRat, signedUnits, negative, units_eq, if_pos rfl, Int.cast_neg, neg_div]
  rfl

section

variable {d : Decimal}

/-- Among the singles without a sign the decimal is rounded to the nearest. -/
theorem ofDecimal_beats {m : Nat} (bound : m ≤ infinityBits) :
    Beats (ofDecimal false d).toRat ((unitsOf m : ℚ) / unitsPerOne) (d.numerator / d.denominator)
      ((ofDecimal false d).magnitude % 2 = 0) := by
  have one := unitsPerOne_pos
  have value : ((d.numerator * unitsPerOne : Nat) : ℚ) / d.denominator * (unitsPerOne : ℚ)⁻¹ =
      d.numerator / d.denominator := by
    rw [Nat.cast_mul, mul_div_right_comm, mul_inv_cancel_right₀ one.ne']
  have scaled := (roundUnits_beats (d.numerator * unitsPerOne) d.denominator_pos bound).mul
    (inv_pos.mpr one)
  rw [value] at scaled
  rwa [toRat_of_positive (isNegative_ofDecimal d), magnitude_ofDecimal, div_eq_mul_inv,
    div_eq_mul_inv]

theorem isNearest_ofDecimal (d : Decimal) :
    (ofDecimal false d).IsNearest (d.numerator / d.denominator) := by
  have bound : (ofDecimal false d).magnitude ≤ infinityBits := by
    rw [magnitude_ofDecimal]
    exact roundUnits_le _ _
  have zero : Beats (ofDecimal false d).toRat 0 (d.numerator / d.denominator)
      ((ofDecimal false d).magnitude % 2 = 0) := by
    have beats := ofDecimal_beats (d := d) (Nat.zero_le infinityBits)
    rwa [show unitsOf 0 = 0 from rfl, Nat.cast_zero, zero_div] at beats
  have beats (y : Single) (number : y.isNaN = false) :
      Beats (ofDecimal false d).toRat y.toRat (d.numerator / d.denominator)
        ((ofDecimal false d).magnitude % 2 = 0) := by
    have unsigned := ofDecimal_beats (d := d) (magnitude_le number)
    cases sign : y.isNegative with
    | false => rwa [toRat_of_positive sign]
    | true =>
      rw [toRat_of_negative sign]
      exact unsigned.neg zero (by positivity) (by positivity)
  exact ⟨by simpa [isNaN] using bound, fun y number => (beats y number).1,
    fun y number => (beats y number).2⟩

end

/-! ### There is only one -/

section

variable {x y : Single} {v : ℚ}

theorem toRat_lt_iff (positive : x.isNegative = false) (positive' : y.isNegative = false) :
    x.toRat < y.toRat ↔ x.magnitude < y.magnitude := by
  rw [toRat_of_positive positive, toRat_of_positive positive',
    div_lt_div_iff_of_pos_right unitsPerOne_pos, Nat.cast_lt, unitsOf_strictMono.lt_iff_lt]

/-- Between two singles that are both even there is one that is nearer to the middle. -/
theorem IsNearest.not_lt (nearest : x.IsNearest v) (nearest' : y.IsNearest v)
    (positive : x.isNegative = false) (positive' : y.isNegative = false) :
    ¬x.magnitude < y.magnitude := by
  intro less
  have apart := (toRat_lt_iff positive positive').mpr less
  have equal : |x.toRat - v| = |y.toRat - v| :=
    le_antisymm (nearest.least y nearest'.number) (nearest'.least x nearest.number)
  have even : x.magnitude % 2 = 0 :=
    (nearest.even y nearest'.number equal.symm).resolve_left apart.ne'
  have even' : y.magnitude % 2 = 0 :=
    (nearest'.even x nearest.number equal).resolve_left apart.ne
  -- The single behind the smaller one is before the greater one.
  have bound : x.magnitude + 1 ≤ infinityBits :=
    Nat.le_trans less (magnitude_le nearest'.number)
  have magnitude := magnitude_ofMagnitude bound
  have sign := isNegative_ofMagnitude bound
  have number : (ofMagnitude false (x.magnitude + 1)).isNaN = false := by
    simpa [isNaN, magnitude] using bound
  have near := nearest.least _ number
  have above : x.toRat < (ofMagnitude false (x.magnitude + 1)).toRat :=
    (toRat_lt_iff positive sign).mpr (by omega)
  have below : (ofMagnitude false (x.magnitude + 1)).toRat < y.toRat :=
    (toRat_lt_iff sign positive').mpr (by omega)
  have middle : x.toRat - v = -(y.toRat - v) :=
    (abs_eq_abs.mp equal).resolve_left (by intro same; linarith)
  rw [abs_of_neg (a := x.toRat - v) (by linarith)] at near
  have inside : |(ofMagnitude false (x.magnitude + 1)).toRat - v| < -(x.toRat - v) :=
    abs_lt.mpr ⟨by linarith, by linarith⟩
  linarith

/-- There is one nearest single without a sign. -/
theorem IsNearest.unique (nearest : x.IsNearest v) (nearest' : y.IsNearest v)
    (positive : x.isNegative = false) (positive' : y.isNegative = false) : x = y := by
  have le := nearest.not_lt nearest' positive positive'
  have ge := nearest'.not_lt nearest positive' positive
  have same : x.magnitude = y.magnitude := by omega
  rw [← x.ofMagnitude_magnitude, ← y.ofMagnitude_magnitude, positive, positive', same]

end

end Single

end LabelBasic
