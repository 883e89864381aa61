import LabelBasic.Number.Shortest

/-!
# Rounding to singles

Rounding depends on the quotient alone, keeps the order of quotients, and leaves a quotient that is a
single as it is.
-/
namespace LabelBasic

namespace Single

/-! ### To the nearest natural number -/

theorem roundHalfEven_scale {k : Nat} (pos : 0 < k) (num den : Nat) :
    roundHalfEven (num * k) (den * k) = roundHalfEven num den := by
  have excess : 2 * (num * k % (den * k)) = 2 * (num % den) * k := by
    rw [Nat.mul_mod_mul_right, Nat.mul_assoc]
  simp only [roundHalfEven, Nat.mul_div_mul_right _ _ pos, excess, Nat.mul_lt_mul_right pos,
    Nat.mul_left_inj (Nat.ne_of_gt pos)]

theorem roundHalfEven_exact {den : Nat} (pos : 0 < den) (k : Nat) :
    roundHalfEven (k * den) den = k := by
  simp only [roundHalfEven]
  simp [Nat.mul_div_cancel k pos, pos]

theorem roundHalfEven_mono {num num' : Nat} (le : num ≤ num') (den : Nat) :
    roundHalfEven num den ≤ roundHalfEven num' den := by
  -- Where the floors differ, rounding up the smaller one does not get past the greater one.
  have floors : num / den ≤ num' / den := Nat.div_le_div_right le
  have whole := Nat.div_add_mod num den
  have whole' := Nat.div_add_mod num' den
  unfold roundHalfEven
  dsimp only
  rcases Nat.lt_or_eq_of_le floors with less | same
  · split <;> split <;> omega
  · -- With the same floor the greater number is the one with the greater remainder.
    rw [← same] at whole' ⊢
    have excess : num % den ≤ num' % den := by omega
    split <;> split <;> omega

theorem roundHalfEven_le {num den k : Nat} (pos : 0 < den) (le : num ≤ k * den) :
    roundHalfEven num den ≤ k := by
  have bound := roundHalfEven_mono le den
  rwa [roundHalfEven_exact pos] at bound

theorem le_roundHalfEven {num den k : Nat} (pos : 0 < den) (le : k * den ≤ num) :
    k ≤ roundHalfEven num den := by
  have bound := roundHalfEven_mono le den
  rwa [roundHalfEven_exact pos] at bound

/-! ### To the nearest magnitude -/

theorem roundUnits_scale {k : Nat} (pos : 0 < k) (num den : Nat) :
    roundUnits (num * k) (den * k) = roundUnits num den := by
  simp only [roundUnits]
  simp only [Nat.mul_div_mul_right _ _ pos, Nat.mul_right_comm den k, roundHalfEven_scale pos]

theorem roundUnits_zero {den : Nat} (pos : 0 < den) : roundUnits 0 den = 0 := by
  have same := roundUnits_scale pos 0 1
  rwa [Nat.zero_mul, Nat.one_mul] at same

theorem roundUnits_le (num den : Nat) : roundUnits num den ≤ infinityBits := Nat.min_le_right _ _

theorem log2_mono {m n : Nat} (le : m ≤ n) : m.log2 ≤ n.log2 := by
  by_cases zero : m = 0
  · rw [zero, Nat.log2_zero]
    exact Nat.zero_le _
  · exact (Nat.le_log2 (by omega)).mpr (Nat.le_trans (Nat.log2_self_le zero) le)

theorem pow_shift (den a s : Nat) :
    Nat.pow 2 a * (den * Nat.pow 2 s) = Nat.pow 2 (s + a) * den := by
  change 2 ^ a * (den * 2 ^ s) = 2 ^ (s + a) * den
  rw [Nat.pow_add, Nat.mul_left_comm, Nat.mul_comm den, Nat.mul_comm (2 ^ a)]

theorem capped_mono {a b : Nat} (le : a ≤ b) (cap : Nat) : min a cap ≤ min b cap := by
  omega

/-- A significand of one bit more is a carry into the exponent field. -/
theorem carry_le {s s' bit a b : Nat} (less : s < s') (upper : a ≤ bit + bit) (lower : bit ≤ b) :
    s * bit + a ≤ s' * bit + b := by
  have fields := Nat.mul_le_mul_right bit less
  rw [Nat.succ_mul] at fields
  omega

theorem scaled_pos {den : Nat} (pos : 0 < den) (s : Nat) : 0 < den * Nat.pow 2 s :=
  Nat.mul_pos pos (Nat.pow_pos (by decide))

/-- A significand takes 24 bits, unless rounding carries it to the next power of two. -/
theorem significand_le {num den s : Nat} (pos : 0 < den) (shift : Nat.log2 (num / den) - 23 = s) :
    roundHalfEven num (den * Nat.pow 2 s) ≤ hiddenBit + hiddenBit := by
  have below : num / den < 2 ^ (s + 24) :=
    Nat.lt_of_lt_of_le Nat.lt_log2_self (Nat.pow_le_pow_right (by decide) (by omega))
  change _ ≤ Nat.pow 2 24
  apply roundHalfEven_le (scaled_pos pos s)
  rw [pow_shift]
  exact Nat.le_of_lt ((Nat.div_lt_iff_lt_mul pos).mp below)

/-- Where bits are shifted out, the quotient reaches the hidden bit. -/
theorem hiddenBit_scaled_le {num den s : Nat} (pos : 0 < den)
    (shift : Nat.log2 (num / den) - 23 = s) (shifted : 0 < s) :
    hiddenBit * (den * Nat.pow 2 s) ≤ num := by
  have some : num / den ≠ 0 := by
    intro zero
    rw [zero, Nat.log2_zero] at shift
    omega
  have above : 2 ^ (s + 23) ≤ num / den := (Nat.le_log2 some).mp (by omega)
  change Nat.pow 2 23 * _ ≤ _
  rw [pow_shift]
  exact (Nat.le_div_iff_mul_le pos).mp above

/-- Where bits are shifted out, the significand has its hidden bit. -/
theorem hiddenBit_le_significand {num den s : Nat} (pos : 0 < den)
    (shift : Nat.log2 (num / den) - 23 = s) (shifted : 0 < s) :
    hiddenBit ≤ roundHalfEven num (den * Nat.pow 2 s) :=
  le_roundHalfEven (scaled_pos pos s) (hiddenBit_scaled_le pos shift shifted)

theorem roundUnits_mono_left {num num' den : Nat} (pos : 0 < den) (le : num ≤ num') :
    roundUnits num den ≤ roundUnits num' den := by
  have logs := log2_mono (Nat.div_le_div_right (c := den) le)
  unfold roundUnits
  dsimp only
  -- The exponent fields are compared first, then the significands.
  generalize shift : Nat.log2 (num / den) - 23 = s
  generalize shift' : Nat.log2 (num' / den) - 23 = s'
  have either : s < s' ∨ s = s' := by omega
  apply capped_mono
  rcases either with less | rfl
  · -- The greater shift alone outweighs any difference of the significands.
    have shifted : 0 < s' := by omega
    exact carry_le less (significand_le pos shift) (hiddenBit_le_significand pos shift' shifted)
  · exact Nat.add_le_add_left (roundHalfEven_mono le _) _

theorem roundUnits_mono {num num' den den' : Nat} (pos : 0 < den) (pos' : 0 < den')
    (le : num * den' ≤ num' * den) : roundUnits num den ≤ roundUnits num' den' := by
  rw [← roundUnits_scale pos' num den, ← roundUnits_scale pos num' den', Nat.mul_comm den' den]
  exact roundUnits_mono_left (Nat.mul_pos pos pos') le

theorem roundUnits_subnormal {m : Nat} (small : m < hiddenBit) : roundUnits m 1 = m := by
  -- Below the hidden bit nothing is shifted out.
  have log : m.log2 - 23 = 0 := by
    by_cases zero : m = 0
    · rw [zero, Nat.log2_zero]
    · have below : m.log2 < 23 := (Nat.log2_lt zero).mpr small
      omega
  have whole : roundHalfEven m (1 * Nat.pow 2 0) = m := by
    have same := roundHalfEven_exact Nat.one_pos m
    rwa [Nat.mul_one] at same
  have finite : m ≤ infinityBits := Nat.le_trans (Nat.le_of_lt small) (by decide)
  unfold roundUnits
  rw [Nat.div_one, log]
  dsimp only
  rw [whole, Nat.zero_mul, Nat.zero_add, Nat.min_eq_left finite]

theorem log2_shifted {n k : Nat} (lower : Nat.pow 2 k ≤ n) (upper : n < Nat.pow 2 (k + 1)) (s : Nat) :
    (n * Nat.pow 2 s).log2 = k + s := by
  have power : 0 < 2 ^ s := Nat.pow_pos (by decide)
  have some : 0 < n := Nat.lt_of_lt_of_le (Nat.pow_pos (by decide)) lower
  change 2 ^ k ≤ n at lower
  change n < 2 ^ (k + 1) at upper
  change (n * 2 ^ s).log2 = _
  refine (Nat.log2_eq_iff (Nat.ne_of_gt (Nat.mul_pos some power))).mpr ⟨?_, ?_⟩
  · rw [Nat.pow_add]
    exact Nat.mul_le_mul_right _ lower
  · rw [Nat.add_right_comm, Nat.pow_add]
    exact Nat.mul_lt_mul_of_pos_right upper power

theorem roundUnits_normal {fraction : Nat} (part : fraction < hiddenBit) (shift : Nat) :
    roundUnits ((hiddenBit + fraction) * Nat.pow 2 shift) 1 =
      min (shift * hiddenBit + (hiddenBit + fraction)) infinityBits := by
  have upper : hiddenBit + fraction < 2 ^ 24 := Nat.add_lt_add_left part hiddenBit
  have power : 0 < Nat.pow 2 shift := Nat.pow_pos (by decide)
  have log := log2_shifted (k := 23) (Nat.le_add_right hiddenBit fraction) upper shift
  unfold roundUnits
  rw [Nat.div_one, log, Nat.add_sub_cancel_left]
  dsimp only
  rw [Nat.one_mul, roundHalfEven_exact power]

/-- Rounding leaves a single as it is. -/
theorem roundUnits_units {x : Single} (finite : x.isFinite = true) :
    roundUnits x.units 1 = x.magnitude := by
  have bound : x.magnitude < infinityBits := by simpa [isFinite] using finite
  simp only [units]
  split
  next small => exact roundUnits_subnormal small
  next large =>
    have part := Nat.mod_lt x.magnitude (show 0 < hiddenBit by decide)
    have normal : 0 < x.magnitude / hiddenBit := Nat.div_pos (Nat.le_of_not_lt large) (by decide)
    obtain ⟨shift, field⟩ := Nat.exists_eq_add_one_of_ne_zero (Nat.ne_of_gt normal)
    -- The hidden bit is one in the exponent field.
    have whole : shift * hiddenBit + (hiddenBit + x.magnitude % hiddenBit) = x.magnitude := by
      rw [← Nat.add_assoc, ← Nat.succ_mul, Nat.succ_eq_add_one, ← field, Nat.mul_comm]
      exact Nat.div_add_mod _ _
    rw [field, Nat.add_sub_cancel, roundUnits_normal part, whole]
    exact Nat.min_eq_left (Nat.le_of_lt bound)

/-! ### Decimals -/

theorem isFinite_of_not {x : Single} (number : ¬x.isNaN = true) (bounded : ¬x.isInfinite = true) :
    x.isFinite = true := by
  simp only [isNaN, isInfinite, isFinite, decide_eq_true_eq, beq_iff_eq] at number bounded ⊢
  omega

theorem magnitude_ofMagnitude {m : Nat} (bound : m ≤ infinityBits) :
    (ofMagnitude false m).magnitude = m := by
  have small : m < signWeight := Nat.lt_of_le_of_lt bound (by decide)
  have fits : m < 2 ^ 32 := Nat.lt_of_lt_of_le small (by decide)
  change (UInt32.ofNat m).toNat % signWeight = m
  rw [UInt32.toNat_ofNat_of_lt' fits, Nat.mod_eq_of_lt small]

theorem isNegative_ofMagnitude {m : Nat} (bound : m ≤ infinityBits) :
    (ofMagnitude false m).isNegative = false := by
  have small : m < signWeight := Nat.lt_of_le_of_lt bound (by decide)
  have fits : m < 2 ^ 32 := Nat.lt_of_lt_of_le small (by decide)
  change decide (signWeight ≤ (UInt32.ofNat m).toNat) = false
  rw [UInt32.toNat_ofNat_of_lt' fits]
  exact decide_eq_false (Nat.not_le.mpr small)

/-- A single is its sign and its magnitude. -/
theorem ofMagnitude_magnitude (x : Single) : ofMagnitude x.isNegative x.magnitude = x := by
  have bits : x.bits.toNat < signWeight + signWeight := UInt32.toNat_lt x.bits
  have same : (if x.isNegative then signWeight + x.magnitude else x.magnitude) = x.bits.toNat := by
    simp only [isNegative, magnitude, decide_eq_true_eq]
    split
    next negative => rw [Nat.mod_eq_sub_mod negative, Nat.mod_eq_of_lt (by omega)]; omega
    next positive => exact Nat.mod_eq_of_lt (Nat.lt_of_not_le positive)
  rw [ofMagnitude, same, UInt32.ofNat_toNat]

theorem infinity_of_isInfinite {x : Single} (infinite : x.isInfinite = true) :
    infinity x.isNegative = x := by
  have magnitude : x.magnitude = infinityBits := beq_iff_eq.mp infinite
  rw [infinity, ← magnitude, x.ofMagnitude_magnitude]

theorem magnitude_ofDecimal (d : Decimal) : (ofDecimal false d).magnitude =
    roundUnits (d.numerator * unitsPerOne) d.denominator :=
  magnitude_ofMagnitude (roundUnits_le _ _)

theorem isNegative_ofDecimal (d : Decimal) : (ofDecimal false d).isNegative = false :=
  isNegative_ofMagnitude (roundUnits_le _ _)

theorem ofDecimal_mono {d d' : Decimal}
    (le : d.numerator * d'.denominator ≤ d'.numerator * d.denominator) :
    (ofDecimal false d).magnitude ≤ (ofDecimal false d').magnitude := by
  rw [magnitude_ofDecimal, magnitude_ofDecimal]
  apply roundUnits_mono d.denominator_pos d'.denominator_pos
  rw [Nat.mul_right_comm, Nat.mul_right_comm d'.numerator]
  exact Nat.mul_le_mul_right _ le

/-- The sign has no part in the rounding. -/
theorem ofDecimal_eq (negative : Bool) (d : Decimal) :
    ofDecimal negative d = ofMagnitude negative (ofDecimal false d).magnitude := by
  rw [magnitude_ofDecimal]
  rfl

theorem ofDecimal_congr {d d' : Decimal}
    (same : d.numerator * d'.denominator = d'.numerator * d.denominator) (negative : Bool) :
    ofDecimal negative d = ofDecimal negative d' := by
  have magnitudes := Nat.le_antisymm (ofDecimal_mono (Nat.le_of_eq same))
    (ofDecimal_mono (Nat.le_of_eq same.symm))
  rw [ofDecimal_eq, ofDecimal_eq negative d', magnitudes]

/-- A finite single is a decimal with 149 places. -/
theorem magnitude_ofUnits {x : Single} (finite : x.isFinite = true) :
    (ofDecimal false ⟨x.units * Nat.pow 5 149, -149⟩).magnitude = x.magnitude := by
  -- The unit is two to the power of -149, and ten is two fives.
  have tens : Nat.pow 5 149 * Nat.pow 2 149 = Nat.pow 10 149 := (Nat.mul_pow 5 2 149).symm
  have scale : 0 < Nat.pow 10 149 := Nat.pow_pos (by decide)
  rw [magnitude_ofDecimal, ← roundUnits_units finite]
  change roundUnits (x.units * Nat.pow 5 149 * Nat.pow 10 0 * Nat.pow 2 149) (Nat.pow 10 149) = _
  rw [show Nat.pow 10 0 = 1 from rfl, Nat.mul_one, Nat.mul_assoc, tens,
    ← roundUnits_scale scale x.units 1, Nat.one_mul]

theorem magnitude_shortest {x : Single} (finite : x.isFinite = true) :
    (ofDecimal false x.shortest).magnitude = x.magnitude := by
  simp only [shortest]
  split
  next zero =>
    rw [zero, magnitude_ofDecimal]
    rfl
  next =>
    -- A decimal that was searched for reads back; if there is none, all places are written.
    cases found : gridExponents.findSome? fun e =>
        (Decimal.neighbours x.units e).find? (·.readsBack x) with
    | some d =>
      obtain ⟨e, _, hit⟩ := List.exists_of_findSome?_eq_some found
      have reads := List.find?_some hit
      rw [Option.getD_some]
      simpa [Decimal.readsBack] using reads
    | none => exact magnitude_ofUnits finite

/-- The shortest decimal of a single reads back as the single. -/
theorem ofDecimal_shortest {x : Single} (finite : x.isFinite = true) :
    ofDecimal x.isNegative x.shortest = x := by
  rw [ofDecimal_eq, magnitude_shortest finite, ofMagnitude_magnitude]

end Single

end LabelBasic
