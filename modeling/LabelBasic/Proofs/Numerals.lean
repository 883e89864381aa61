import LabelBasic.Proofs.Lexing
import LabelBasic.Proofs.Rounding
import LabelBasic.Value

/-!
# Numbers and their texts

Integers are written in digits, and floats as their shortest decimal: digits around a point, where the
number is neither very large nor very small. Main results: the text of an integer reads as the integer
(`ofNumeral?_integerText`), digits around a point read as the single nearest to their decimal
(`ofNumeral?_positional`), and the listing of a moderate float as the float (`ofNumeral?_moderate`).
-/
namespace LabelBasic

/-! ### Integers -/

theorem isDigit_of_mem_toDigits {c : Char} {n : Nat} (member : c ∈ Nat.toDigits 10 n) :
    c.isDigit = true := Nat.isDigit_of_mem_toDigits (by decide) (by decide) member

theorem exists_toDigits (n : Nat) :
    ∃ first digits, Nat.toDigits 10 n = first :: digits ∧ first.isDigit = true := by
  obtain ⟨first, digits, same⟩ := List.exists_cons_of_ne_nil (Nat.toDigits_ne_nil (n := n) (b := 10))
  exact ⟨first, digits, same, isDigit_of_mem_toDigits (by rw [same]; exact List.mem_cons_self)⟩

theorem isNumeral_toDigits (n : Nat) : IsNumeral (Nat.toDigits 10 n) := by
  obtain ⟨first, digits, same, starts⟩ := exists_toDigits n
  have each : ∀ c ∈ digits, c.isDigit = true := fun c member =>
    isDigit_of_mem_toDigits (n := n) (by rw [same]; exact List.mem_cons_of_mem _ member)
  rw [same]
  exact .whole starts each

theorem natural?_toDigits (n : Nat) : Numeral.natural? (Nat.toDigits 10 n) = some n := by
  have all : (Nat.toDigits 10 n).all Char.isDigit = true :=
    List.all_eq_true.mpr fun _ => isDigit_of_mem_toDigits
  rw [Numeral.natural?, if_pos ⟨Nat.toDigits_ne_nil, all⟩, Nat.ofDigitChars_ten_toDigits]

theorem toList_toString (i : Int) :
    (toString i).toList = (if i < 0 then ['-'] else []) ++ Nat.toDigits 10 i.natAbs := by
  cases i with
  | ofNat n => exact Nat.toList_repr
  | negSucc n =>
    change ("-" ++ (n + 1).repr).toList = _
    rw [String.toList_append, Nat.toList_repr, if_pos (Int.negSucc_lt_zero n)]
    rfl

/-- The sign and the digits of a whole number. -/
theorem sign_toString (i : Int) :
    Numeral.sign (toString i).toList = (decide (i < 0), Nat.toDigits 10 i.natAbs) := by
  rw [toList_toString]
  by_cases negative : i < 0
  · rw [if_pos negative, decide_eq_true negative]
    rfl
  · obtain ⟨first, digits, same, starts⟩ := exists_toDigits i.natAbs
    -- The text starts with a digit, so no sign is taken off it.
    rw [if_neg negative, decide_eq_false negative, same]
    exact Lexeme.sign_of_start (.inl starts) digits

theorem signed_natAbs (i : Int) :
    (if decide (i < 0) = true then -(i.natAbs : Int) else i.natAbs) = i := by
  simp only [decide_eq_true_eq]
  split <;> omega

theorem toList_integerText {n : Int32} (nonnegative : 0 ≤ n.toInt) :
    (integerText n).toList = Nat.toDigits 10 n.toInt.toNat := by
  have digits : n.toInt.natAbs = n.toInt.toNat := by omega
  rw [integerText, toList_toString, if_neg (Int.not_lt.mpr nonnegative), List.nil_append, digits]

/-- The text of an integer reads as the integer. -/
theorem integer?_integerText (n : Int32) : Numeral.integer? (integerText n).toList = some n := by
  have least := Int32.le_iff_toInt_le.mp (Int32.minValue_le n)
  have greatest := Int32.le_iff_toInt_le.mp (Int32.le_maxValue n)
  simp only [Numeral.integer?, integerText, sign_toString, natural?_toDigits, Option.bind_eq_bind,
    Option.bind_some, signed_natAbs]
  rw [if_pos ⟨least, greatest⟩, Int32.ofInt_toInt]

theorem ofNumeral?_integerText (n : Int32) :
    Value.ofNumeral? (integerText n) = some (.integer n) := by
  rw [Value.ofNumeral?, integer?_integerText]
  rfl

/-! ### How large a decimal is -/

theorem pow_le_digits {n : Nat} (some : n ≠ 0) :
    Nat.pow 10 ((Nat.toDigits 10 n).length - 1) ≤ n := by
  by_cases one : (Nat.toDigits 10 n).length - 1 = 0
  · rw [one]
    exact Nat.pos_of_ne_zero some
  · refine Nat.le_of_not_lt fun less => ?_
    have short := (Nat.length_toDigits_le_iff (by decide) (Nat.pos_of_ne_zero one)).mpr less
    omega

theorem digits_lt_pow (n : Nat) : n < Nat.pow 10 (Nat.toDigits 10 n).length :=
  (Nat.length_toDigits_le_iff (by decide) Nat.length_toDigits_pos).mp (Nat.le_refl _)

namespace Decimal

variable {d : Decimal}

/-- The exponent of the first digit. -/
def leading (d : Decimal) : Int := d.exponent + (Nat.toDigits 10 d.digits).length - 1

theorem exponent_le_leading (d : Decimal) : d.exponent ≤ d.leading := by
  have positive : 0 < (Nat.toDigits 10 d.digits).length := Nat.length_toDigits_pos
  simp only [leading]
  omega

theorem leading_le (some : d.digits ≠ 0) : d.leading ≤ d.exponent + Nat.log2 d.digits := by
  -- A number has at least as many bits as digits.
  have digits : (Nat.toDigits 10 d.digits).length - 1 ≤ Nat.log2 d.digits :=
    (Nat.le_log2 some).mpr (Nat.le_trans (Nat.pow_le_pow_left (by decide) _) (pow_le_digits some))
  simp only [leading]
  omega

/-- A decimal reaches the power of ten of its first digit. -/
theorem power_le (some : d.digits ≠ 0) {k : Int} (large : k ≤ d.leading) :
    (⟨1, k⟩ : Decimal).numerator * d.denominator ≤ d.numerator * (⟨1, k⟩ : Decimal).denominator := by
  have first := pow_le_digits some
  have positive : 0 < (Nat.toDigits 10 d.digits).length := Nat.length_toDigits_pos
  simp only [leading] at large
  calc 1 * 10 ^ k.toNat * 10 ^ (-d.exponent).toNat
      = 10 ^ (k.toNat + (-d.exponent).toNat) := by rw [Nat.one_mul, Nat.pow_add]
    _ ≤ 10 ^ ((Nat.toDigits 10 d.digits).length - 1 + d.exponent.toNat + (-k).toNat) :=
        Nat.pow_le_pow_right (by decide) (by omega)
    _ = 10 ^ ((Nat.toDigits 10 d.digits).length - 1) * 10 ^ d.exponent.toNat * 10 ^ (-k).toNat := by
        rw [Nat.pow_add, Nat.pow_add]
    _ ≤ d.digits * 10 ^ d.exponent.toNat * 10 ^ (-k).toNat :=
        Nat.mul_le_mul_right _ (Nat.mul_le_mul_right _ first)

/-- A decimal stays below the power of ten above its first digit. -/
theorem le_power {k : Int} (small : d.leading < k) :
    d.numerator * (⟨1, k⟩ : Decimal).denominator ≤ (⟨1, k⟩ : Decimal).numerator * d.denominator := by
  have bound := Nat.le_of_lt (digits_lt_pow d.digits)
  simp only [leading] at small
  calc d.digits * 10 ^ d.exponent.toNat * 10 ^ (-k).toNat
      ≤ 10 ^ (Nat.toDigits 10 d.digits).length * 10 ^ d.exponent.toNat * 10 ^ (-k).toNat :=
        Nat.mul_le_mul_right _ (Nat.mul_le_mul_right _ bound)
    _ = 10 ^ ((Nat.toDigits 10 d.digits).length + d.exponent.toNat + (-k).toNat) := by
        rw [Nat.pow_add, Nat.pow_add]
    _ ≤ 10 ^ (k.toNat + (-d.exponent).toNat) := Nat.pow_le_pow_right (by decide) (by omega)
    _ = 1 * 10 ^ k.toNat * 10 ^ (-d.exponent).toNat := by rw [Nat.one_mul, Nat.pow_add]

end Decimal

namespace Single

variable {d : Decimal}

theorem magnitude_ofDecimal_zero (none : d.digits = 0) : (ofDecimal false d).magnitude = 0 := by
  rw [magnitude_ofDecimal, Decimal.numerator, none, Nat.zero_mul, Nat.zero_mul,
    roundUnits_zero (Decimal.denominator_pos _)]

theorem magnitude_ofDecimal_large (some : d.digits ≠ 0) (large : 39 ≤ d.leading) :
    (ofDecimal false d).magnitude = infinityBits := by
  have least : infinityBits ≤ (ofDecimal false d).magnitude :=
    Nat.le_trans (by decide +kernel) (ofDecimal_mono (Decimal.power_le some large))
  have greatest : (ofDecimal false d).magnitude ≤ infinityBits := by
    rw [magnitude_ofDecimal]
    exact roundUnits_le _ _
  exact Nat.le_antisymm greatest least

theorem magnitude_ofDecimal_small (small : d.leading < -46) : (ofDecimal false d).magnitude = 0 :=
  Nat.le_zero.mp (Nat.le_trans (ofDecimal_mono (Decimal.le_power small)) (by decide +kernel))

/-- Taming makes no difference to the rounded number. -/
theorem ofDecimal_tame (negative : Bool) (d : Decimal) :
    ofDecimal negative (Numeral.tame d) = ofDecimal negative d := by
  rw [ofDecimal_eq, ofDecimal_eq negative d]
  refine congrArg (ofMagnitude negative) ?_
  by_cases some : d.digits = 0
  · rw [magnitude_ofDecimal_zero some, magnitude_ofDecimal_zero (d := Numeral.tame d) some]
  have tamed := Decimal.leading_le (d := Numeral.tame d) some
  have digits : (Numeral.tame d).digits = d.digits := rfl
  have exponent : (Numeral.tame d).exponent =
      max (min d.exponent 39) (-(Nat.log2 d.digits + 47 : Int)) := rfl
  rcases Int.lt_or_le 39 d.exponent with above | inside
  · -- Both are infinite.
    have large := Int.le_trans (Int.le_of_lt above) d.exponent_le_leading
    have large' := (Numeral.tame d).exponent_le_leading
    rw [magnitude_ofDecimal_large some large,
      magnitude_ofDecimal_large (d := Numeral.tame d) some (by omega)]
  rcases Int.lt_or_le d.exponent (-(Nat.log2 d.digits + 47 : Int)) with below | inside'
  · -- Both are rounded to zero.
    have small := Decimal.leading_le some
    rw [digits] at tamed
    rw [magnitude_ofDecimal_small (by omega), magnitude_ofDecimal_small (by omega)]
  · have same : Numeral.tame d = d := by
      rw [Numeral.tame, Int.min_eq_left inside, Int.max_eq_left inside']
    rw [same]

end Single

/-! ### Digits around a point -/

/-- The names of what is no number have only these letters. -/
theorem named?_of_mem {text : List Char} {c : Char} (member : c ∈ text)
    (other : c.toLower ∉ ['i', 'n', 'f', 't', 'y', 'a']) (negative : Bool) :
    Numeral.named? negative text = none := by
  have apart : ∀ name : String, name.toList.all ['i', 'n', 'f', 't', 'y', 'a'].contains = true →
      String.ofList (text.map Char.toLower) ≠ name := by
    rintro _ letters rfl
    rw [String.toList_ofList] at letters
    have letter := List.all_eq_true.mp letters _ (List.mem_map_of_mem member)
    exact other (List.contains_iff_mem.mp letter)
  unfold Numeral.named?
  dsimp only
  rw [if_neg (not_or.mpr ⟨apart _ (by decide), apart _ (by decide)⟩), if_neg (apart _ (by decide))]

theorem named?_pointed (negative : Bool) (whole fraction : List Char) :
    Numeral.named? negative (whole ++ '.' :: fraction) = none :=
  named?_of_mem (c := '.') (by simp) (by decide) negative

theorem single?_of_decimal? {text body : List Char} {negative : Bool} {d : Decimal}
    (sign : Numeral.sign text = (negative, body)) (unnamed : Numeral.named? negative body = none)
    (read : Numeral.decimal? body = some d) :
    Numeral.single? text = some (Single.ofDecimal negative d) := by
  simp only [Numeral.single?, sign, unnamed, read, Option.map_some, Single.ofDecimal_tame]
  rfl

section

variable {whole fraction : List Char} (each : ∀ c ∈ whole, c.isDigit = true)
  (below : ∀ c ∈ fraction, c.isDigit = true)

include each

theorem sign_pointed (behind : List Char) :
    Numeral.sign (whole ++ '.' :: behind) = (false, whole ++ '.' :: behind) := by
  cases whole with
  | nil => exact Lexeme.sign_of_start (.inr rfl) _
  | cons first digits => exact Lexeme.sign_of_start (.inl (each first List.mem_cons_self)) _

include below

theorem isNumeral_pointed (some_ : whole ≠ []) : IsNumeral (whole ++ '.' :: fraction) := by
  obtain ⟨first, digits, rfl⟩ := List.exists_cons_of_ne_nil some_
  obtain ⟨starts, later⟩ := List.forall_mem_cons.mp each
  exact .pointed starts later below

variable (some_ : whole ++ fraction ≠ [])

include some_

/-- Digits around a point, and an exponent behind them. -/
theorem decimal?_pointed {mark : List Char} {e : Int} (stop : ∀ c ∈ mark.head?, c.isDigit = false)
    (exponent : Numeral.exponent? mark = some e) :
    Numeral.decimal? (whole ++ '.' :: (fraction ++ mark)) =
      some ⟨(Decimal.ofParts whole fraction).digits, -fraction.length + e⟩ := by
  have pause : ∀ c ∈ ('.' :: (fraction ++ mark)).head?, c.isDigit = false := by
    rintro _ ⟨⟩
    decide
  simp only [Numeral.decimal?, takeWhile_run each pause, dropWhile_run each pause,
    takeWhile_run below stop, dropWhile_run below stop, ← List.append_eq_nil_iff, if_neg some_,
    exponent]
  rfl

theorem ofNumeral?_pointed : Value.ofNumeral? (String.ofList (whole ++ '.' :: fraction)) =
    some (.float (Single.ofDecimal false (Decimal.ofParts whole fraction))) := by
  have sign := sign_pointed each fraction
  -- The point keeps it from being an integer.
  have integer : Numeral.integer? (whole ++ '.' :: fraction) = none := by
    have point : ¬(whole ++ '.' :: fraction).all Char.isDigit = true := by simp
    simp only [Numeral.integer?, sign, Numeral.natural?, if_neg (not_and_of_not_right _ point)]
    rfl
  have read : Numeral.decimal? (whole ++ '.' :: (fraction ++ [])) = _ :=
    decimal?_pointed each below some_ nofun rfl
  rw [List.append_nil, Int.add_zero] at read
  rw [Value.ofNumeral?, String.toList_ofList, integer,
    single?_of_decimal? sign (named?_pointed _ _ _) read]
  rfl

end

namespace Layout

theorem positional_whole {exponent : Int} (nonnegative : 0 ≤ exponent) (digits : List Char) :
    positional digits exponent = digits ++ List.replicate exponent.toNat '0' ++ '.' :: ['0'] := by
  rw [positional, if_pos (by omega)]

/-- Zeros in front fill the places up to the point and one before it. -/
theorem positional_places {exponent : Int} (negative : exponent < 0) (digits : List Char) :
    ∃ whole fraction zeros, positional digits exponent = whole ++ '.' :: fraction ∧
      whole ++ fraction = List.replicate zeros '0' ++ digits ∧ whole ≠ [] ∧
      fraction.length = (-exponent).toNat := by
  -- With the zeros there is a digit more than places behind the point.
  let zeros := (-exponent).toNat + 1 - digits.length
  let padded := List.replicate zeros '0' ++ digits
  have long : (-exponent).toNat < padded.length := by
    simp only [padded, zeros, List.length_append, List.length_replicate]
    omega
  let cut := padded.length - (-exponent).toNat
  refine ⟨padded.take cut, padded.drop cut, zeros, ?_, List.take_append_drop _ _, ?_, ?_⟩
  · rw [positional, if_neg (by omega)]
  · intro none
    have empty := congrArg List.length none
    simp only [List.length_take, List.length_nil] at empty
    omega
  · rw [List.length_drop]
    omega

end Layout

theorem isDigit_of_mem_padded {c : Char} {zeros n : Nat}
    (member : c ∈ List.replicate zeros '0' ++ Nat.toDigits 10 n) : c.isDigit = true := by
  rcases List.mem_append.mp member with zero | digit
  · rw [List.eq_of_mem_replicate zero]
    decide
  · exact isDigit_of_mem_toDigits digit

section

variable {d : Decimal}

/-- Zeros in front do not count, and each place behind the point lowers the exponent. -/
theorem ofParts_places {whole fraction : List Char} {zeros : Nat}
    (padded : whole ++ fraction = List.replicate zeros '0' ++ Nat.toDigits 10 d.digits)
    (places : -(fraction.length : Int) = d.exponent) : Decimal.ofParts whole fraction = d := by
  have digits : Nat.ofDigitChars 10 (whole ++ fraction) 0 = d.digits := by
    rw [padded, Nat.ofDigitChars_append, Nat.ofDigitChars_replicate_zero, Nat.mul_zero,
      Nat.ofDigitChars_ten_toDigits]
  rw [Decimal.ofParts, digits, places]

/-- Zeros behind the digits make the exponent lower. -/
theorem ofDecimal_shift (negative : Bool) (zeros n : Nat) (e : Int) :
    Single.ofDecimal negative ⟨Nat.pow 10 zeros * n, e - zeros⟩ = Single.ofDecimal negative ⟨n, e⟩ := by
  have places : zeros + (e - zeros).toNat + (-e).toNat = e.toNat + (-(e - zeros)).toNat := by omega
  apply Single.ofDecimal_congr
  calc 10 ^ zeros * n * 10 ^ (e - zeros).toNat * 10 ^ (-e).toNat
      = n * 10 ^ (zeros + (e - zeros).toNat + (-e).toNat) := by
        rw [Nat.pow_add, Nat.pow_add, Nat.mul_comm _ n, Nat.mul_assoc, Nat.mul_assoc, Nat.mul_assoc]
    _ = n * 10 ^ e.toNat * 10 ^ (-(e - zeros)).toNat := by rw [places, Nat.pow_add, Nat.mul_assoc]

/-- The zeros up to the point, and the one behind it, stand for the exponent. -/
theorem ofParts_whole (digits zeros : Nat) :
    Decimal.ofParts (Nat.toDigits 10 digits ++ List.replicate zeros '0') ['0'] =
      ⟨Nat.pow 10 (zeros + 1) * digits, -1⟩ := by
  have value : Nat.ofDigitChars 10
      (Nat.toDigits 10 digits ++ List.replicate zeros '0' ++ ['0']) 0 = 10 ^ (zeros + 1) * digits := by
    rw [Nat.ofDigitChars_append, Nat.ofDigitChars_append, Nat.ofDigitChars_ten_toDigits,
      Nat.ofDigitChars_replicate_zero, Nat.ofDigitChars_cons, Nat.ofDigitChars_nil, Nat.pow_succ,
      Nat.mul_comm _ 10, Nat.mul_assoc]
    rfl
  rw [Decimal.ofParts, value]
  rfl

/-- What is written positionally is digits around a point, and comes to the decimal. -/
theorem positional_pointed (d : Decimal) : ∃ whole fraction,
    Layout.positional (Nat.toDigits 10 d.digits) d.exponent = whole ++ '.' :: fraction ∧
      whole ≠ [] ∧ (∀ c ∈ whole ++ fraction, c.isDigit = true) ∧ ∀ negative,
        Single.ofDecimal negative (Decimal.ofParts whole fraction) = Single.ofDecimal negative d := by
  rcases Int.lt_or_le d.exponent 0 with negative | nonnegative
  · obtain ⟨whole, fraction, zeros, text, padded, some_, places⟩ :=
      Layout.positional_places negative (Nat.toDigits 10 d.digits)
    have read : Decimal.ofParts whole fraction = d := ofParts_places padded (by omega)
    refine ⟨whole, fraction, text, some_, ?_, fun _ => by rw [read]⟩
    rw [padded]
    exact fun c => isDigit_of_mem_padded
  · refine ⟨_, _, Layout.positional_whole nonnegative _, by simp [Nat.toDigits_ne_nil], ?_, ?_⟩
    · intro c member
      rcases List.mem_append.mp member with front | last
      · rcases List.mem_append.mp front with digit | zero
        · exact isDigit_of_mem_toDigits digit
        · rw [List.eq_of_mem_replicate zero]
          decide
      · rw [List.mem_singleton.mp last]
        decide
    · intro negative
      have places : d.exponent - (d.exponent.toNat + 1 : Nat) = -1 := by omega
      rw [ofParts_whole, ← places]
      exact ofDecimal_shift negative _ d.digits d.exponent

/-- What is written positionally reads as the decimal. -/
theorem ofNumeral?_positional (d : Decimal) :
    IsNumeral (Layout.positional (Nat.toDigits 10 d.digits) d.exponent) ∧
      Value.ofNumeral? (String.ofList (Layout.positional (Nat.toDigits 10 d.digits) d.exponent)) =
        some (.float (Single.ofDecimal false d)) := by
  obtain ⟨whole, fraction, text, some_, each, same⟩ := positional_pointed d
  obtain ⟨front, below⟩ := List.forall_mem_append.mp each
  rw [text, ofNumeral?_pointed front below (List.append_ne_nil_of_left_ne_nil some_ _), same]
  exact ⟨isNumeral_pointed front below some_, rfl⟩

end

/-! ### Moderate floats -/

/-- Zero, or a number from 0.0001 up to ten quadrillion. -/
def Single.IsModerate (x : Single) : Prop :=
  x.rank = 0 ∨ (Single.ofDecimal false ⟨1, -4⟩).rank ≤ x.rank ∧
    x.rank < (Single.ofDecimal false ⟨1, 16⟩).rank

instance : DecidablePred Single.IsModerate := fun _ => inferInstanceAs (Decidable (_ ∨ _ ∧ _))

theorem magnitude_of_rank {x : Single} (positive : x.isNegative = false) :
    x.rank = x.magnitude := by
  simp [Single.rank, positive]

/-- The power of ten that a single was rounded from is its shortest decimal, at the bounds. -/
theorem shortest_of_bound {x : Single} (positive : x.isNegative = false) {k : Int}
    (bound : k = -4 ∨ k = 16) (same : x.magnitude = (Single.ofDecimal false ⟨1, k⟩).magnitude) :
    x.shortest = ⟨1, k⟩ := by
  have eq := x.ofMagnitude_magnitude
  rw [positive, same, ← Single.ofDecimal_eq] at eq
  rw [← eq]
  rcases bound with rfl | rfl <;> decide +kernel

section

variable {x : Single} (positive : x.isNegative = false) (finite : x.isFinite = true)

theorem digits_shortest_ne_zero (finite : x.isFinite = true) (some : x.magnitude ≠ 0) :
    x.shortest.digits ≠ 0 := fun zero =>
  some ((Single.magnitude_shortest finite).symm.trans (Single.magnitude_ofDecimal_zero zero))

include positive finite

/-- A moderate float other than zero is written positionally, and no other is. -/
theorem moderate_iff_leading (some : x.magnitude ≠ 0) :
    x.IsModerate ↔ -4 ≤ x.shortest.leading ∧ x.shortest.leading < 16 := by
  have digits := digits_shortest_ne_zero finite some
  -- A decimal from a power of ten on is rounded to no less than that power is, and one below it to
  -- no more. Where they are rounded alike, the power is the shortest decimal.
  have least (k : Int) (large : k ≤ x.shortest.leading) :
      (Single.ofDecimal false ⟨1, k⟩).magnitude ≤ x.magnitude := by
    have le := Single.ofDecimal_mono (Decimal.power_le digits large)
    rwa [Single.magnitude_shortest finite] at le
  have greatest (k : Int) (bound : k = -4 ∨ k = 16) (small : x.shortest.leading < k) :
      x.magnitude < (Single.ofDecimal false ⟨1, k⟩).magnitude := by
    have le := Single.ofDecimal_mono (Decimal.le_power small)
    rw [Single.magnitude_shortest finite] at le
    refine Nat.lt_of_le_of_ne le fun same => ?_
    rw [shortest_of_bound positive bound same] at small
    rcases bound with rfl | rfl <;> exact absurd small (by decide)
  have rank := magnitude_of_rank positive
  have bounds (k : Int) : (Single.ofDecimal false ⟨1, k⟩).rank =
      (Single.ofDecimal false ⟨1, k⟩).magnitude :=
    magnitude_of_rank (Single.isNegative_ofDecimal _)
  simp only [Single.IsModerate, rank, bounds]
  constructor
  · rintro (zero | ⟨lower, upper⟩)
    · omega
    · refine ⟨Int.not_lt.mp fun small => ?_, Int.not_le.mp fun large => ?_⟩
      · have less := greatest (-4) (.inl rfl) small
        omega
      · have le := least 16 large
        omega
  · rintro ⟨lower, upper⟩
    have le := least (-4) lower
    have less := greatest 16 (.inr rfl) upper
    omega

theorem listing_positional
    (inRange : x.shortest.digits = 0 ∨ -4 ≤ x.shortest.leading ∧ x.shortest.leading < 16) :
    Layout.listing.single x = String.ofList
      (Layout.positional (Nat.toDigits 10 x.shortest.digits) x.shortest.exponent) := by
  have bound : x.magnitude < Single.infinityBits := by simpa [Single.isFinite] using finite
  have number : x.isNaN = false := by simpa [Single.isNaN] using Nat.le_of_lt bound
  have bounded : x.isInfinite = false := by simpa [Single.isInfinite] using Nat.ne_of_lt bound
  have text : Layout.listing.decimal x.shortest =
      Layout.positional (Nat.toDigits 10 x.shortest.digits) x.shortest.exponent := if_pos inRange
  simp [Layout.single, number, positive, bounded, text]

end

theorem Single.IsModerate.isFinite {x : Single} (moderate : x.IsModerate)
    (positive : x.isNegative = false) : x.isFinite = true := by
  rw [Single.IsModerate, magnitude_of_rank positive] at moderate
  have bound : (Single.ofDecimal false ⟨1, 16⟩).rank < Single.infinityBits := by decide +kernel
  have some : 0 < Single.infinityBits := by decide
  simp only [Single.isFinite, decide_eq_true_eq]
  omega

/-- A moderate float is written as a number of the dialect that means it. -/
theorem ofNumeral?_moderate {x : Single} (positive : x.isNegative = false)
    (moderate : x.IsModerate) : IsNumeral (Layout.listing.single x).toList ∧
      Value.ofNumeral? (Layout.listing.single x) = some (.float x) := by
  have finite := moderate.isFinite positive
  have inRange : x.shortest.digits = 0 ∨ -4 ≤ x.shortest.leading ∧ x.shortest.leading < 16 := by
    by_cases zero : x.magnitude = 0
    · rw [show x.shortest = ⟨0, 0⟩ from if_pos zero]
      exact .inl rfl
    · exact .inr ((moderate_iff_leading positive finite zero).mp moderate)
  -- What is written is the shortest decimal, and that reads back as the float.
  have shortest := Single.ofDecimal_shortest finite
  rw [positive] at shortest
  rw [listing_positional positive finite inRange, String.toList_ofList]
  have read := ofNumeral?_positional x.shortest
  rwa [shortest] at read

end LabelBasic
