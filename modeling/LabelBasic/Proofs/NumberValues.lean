import LabelBasic.Proofs.Division
import LabelBasic.Proofs.Exactness
import LabelBasic.Proofs.Nearest
import LabelBasic.Proofs.Numerals
import Mathlib.Data.List.TakeWhile

/-!
# Numbers by their values

Main result: a number of a program is digits with at most one point, and it is read as an integer, as
a float or as an error by its decimal value alone. Without a point it is an integer if its value fits
one, however many zeros stand in front. A point that is alone is an error. All others are the float
nearest to their value.
-/
namespace LabelBasic

open Parse

/-- The value of digits with at most one point. -/
def decimalValue (cs : List Char) : ℚ :=
  let whole := cs.takeWhile (· != '.')
  let fraction := (cs.dropWhile (· != '.')).drop 1
  Nat.ofDigitChars 10 whole 0 + Nat.ofDigitChars 10 fraction 0 / 10 ^ fraction.length

/-- What digits with at most one point are read as. -/
inductive Means (cs : List Char) : Outcome Expr → Prop
  | integer {n : Int32} (whole : '.' ∉ cs) (small : decimalValue cs ≤ 2147483647)
      (value : (n.toInt : ℚ) = decimalValue cs) : Means cs (.found (.literal (.integer n)))
  | float {x : Single} (some_ : cs ≠ ['.']) (other : '.' ∈ cs ∨ 2147483647 < decimalValue cs)
      (positive : x.isNegative = false) (nearest : x.IsNearest (decimalValue cs)) :
      Means cs (.found (.literal (.float x)))
  | point (alone : cs = ['.']) : Means cs (.failed .invalidNumber)

/-- What a number with this text is read as. -/
def readNumber (text : String) : Outcome Expr :=
  match Value.ofNumeral? text with
  | some value => .found (.literal value)
  | none => .failed .invalidNumber

/-! ### Numbers of a program -/

/-- Every token is spelled by characters of the text. -/
theorem Divides.exists_spells {cs : List Char} {ts : List (Token.Kind × Option String)}
    {t : Token.Kind × Option String} (divides : Divides cs ts) (member : t ∈ ts) :
    ∃ form lexeme rest, Spells form lexeme rest t.1 t.2 := by
  induction divides with
  | nil => cases member
  | skip _ _ ih => exact ih member
  | token first _ ih =>
    rcases List.mem_cons.mp member with rfl | later
    · exact ⟨_, _, _, first.spells⟩
    · exact ih later

theorem isNumber_of_mem_lex {source : String} {t : Token} (lexed : t ∈ (lex source).tokens)
    (number : t.kind = .number) : IsNumber t.text.toList := by
  have divides := (divides_iff_lex source _).mpr rfl
  obtain ⟨form, cs, rest, spells⟩ := divides.exists_spells (List.mem_map_of_mem lexed)
  obtain ⟨kind, text?, position⟩ := t
  cases number
  cases spells with
  | number formed =>
    change IsNumber (String.ofList cs).toList
    rwa [String.toList_ofList]

section

variable {cs : List Char}

/-- There is no point, or there are digits on both sides of it. -/
theorem IsNumber.digits_or_pointed (number : IsNumber cs) :
    (∀ c ∈ cs, c.isDigit = true) ∨ ∃ whole fraction, cs = whole ++ '.' :: fraction ∧
      (∀ c ∈ whole, c.isDigit = true) ∧ ∀ c ∈ fraction, c.isDigit = true := by
  by_cases point : '.' ∈ cs
  · obtain ⟨whole, fraction, rfl⟩ := List.append_of_mem point
    have points := number.points
    rw [List.count_append, List.count_cons_self] at points
    have before : '.' ∉ whole := List.count_eq_zero.mp (by omega)
    have behind : '.' ∉ fraction := List.count_eq_zero.mp (by omega)
    refine .inr ⟨whole, fraction, rfl, fun c member => ?_, fun c member => ?_⟩
    · exact (number.each c (by simp [member])).resolve_right fun same => before (same ▸ member)
    · exact (number.each c (by simp [member])).resolve_right fun same => behind (same ▸ member)
  · exact .inl fun c member =>
      (number.each c member).resolve_right fun same => point (same ▸ member)

theorem ne_point_of_isDigit {c : Char} (digit : c.isDigit = true) : (c != '.') = true := by
  refine bne_iff_ne.mpr ?_
  rintro rfl
  exact absurd digit (by decide)

theorem not_mem_point (each : ∀ c ∈ cs, c.isDigit = true) : '.' ∉ cs :=
  List.count_eq_zero.mp (Lexeme.count_point each)

theorem decimalValue_digits (each : ∀ c ∈ cs, c.isDigit = true) :
    decimalValue cs = Nat.ofDigitChars 10 cs 0 := by
  have run : ∀ c ∈ cs, (c != '.') = true := fun c member => ne_point_of_isDigit (each c member)
  have whole := List.takeWhile_eq_self_iff.mpr run
  have behind := List.dropWhile_eq_nil_iff.mpr run
  simp [decimalValue, whole, behind]

theorem decimalValue_pointed {whole fraction : List Char} (each : ∀ c ∈ whole, c.isDigit = true) :
    decimalValue (whole ++ '.' :: fraction) =
      (Decimal.ofParts whole fraction).numerator / (Decimal.ofParts whole fraction).denominator := by
  have run : ∀ c ∈ whole, (c != '.') = true := fun c member => ne_point_of_isDigit (each c member)
  have stop : ∀ c ∈ ('.' :: fraction).head?, (c != '.') = false := by
    rintro _ ⟨⟩
    rfl
  have digits : Nat.ofDigitChars 10 (whole ++ fraction) 0 =
      10 ^ fraction.length * Nat.ofDigitChars 10 whole 0 + Nat.ofDigitChars 10 fraction 0 := by
    rw [Nat.ofDigitChars_append, Nat.ofDigitChars_eq_ofDigitChars_zero]
  have numerator : (Decimal.ofParts whole fraction).numerator =
      10 ^ fraction.length * Nat.ofDigitChars 10 whole 0 + Nat.ofDigitChars 10 fraction 0 := by
    have none : (-(fraction.length : Int)).toNat = 0 := by omega
    simp [Decimal.ofParts, Decimal.numerator, none, digits]
  have denominator : (Decimal.ofParts whole fraction).denominator = 10 ^ fraction.length := by
    simp [Decimal.ofParts, Decimal.denominator]
  have power : (10 : ℚ) ^ fraction.length ≠ 0 := by positivity
  simp only [decimalValue, takeWhile_run run stop, dropWhile_run run stop, List.drop_succ_cons,
    List.drop_zero, numerator, denominator]
  push_cast
  rw [add_div, mul_div_cancel_left₀ _ power]

/-! ### Reading -/

section

variable (some_ : cs ≠ []) (each : ∀ c ∈ cs, c.isDigit = true)

include some_ each

theorem sign_digits : Numeral.sign cs = (false, cs) := by
  obtain ⟨first, digits, rfl⟩ := List.exists_cons_of_ne_nil some_
  exact Lexeme.sign_of_start (.inl (each first List.mem_cons_self)) _

/-- Digits are an integer if their value fits one. -/
theorem integer?_digits : Numeral.integer? cs =
    if Nat.ofDigitChars 10 cs 0 ≤ 2147483647 then some (.ofInt (Nat.ofDigitChars 10 cs 0))
    else none := by
  have all : cs.all Char.isDigit = true := List.all_eq_true.mpr each
  have bounds : Int32.minValue.toInt ≤ (Nat.ofDigitChars 10 cs 0 : Int) ∧
      (Nat.ofDigitChars 10 cs 0 : Int) ≤ Int32.maxValue.toInt ↔
        Nat.ofDigitChars 10 cs 0 ≤ 2147483647 := by
    rw [Int32.toInt_minValue, Int32.toInt_maxValue]
    omega
  simp only [Numeral.integer?, sign_digits some_ each, Numeral.natural?,
    if_pos (And.intro some_ all), Option.bind_eq_bind, Option.bind_some, Bool.false_eq_true,
    if_false, bounds]

theorem decimal?_digits :
    Numeral.decimal? cs = some ⟨Nat.ofDigitChars 10 cs 0, 0⟩ := by
  have whole := List.takeWhile_eq_self_iff.mpr each
  have behind := List.dropWhile_eq_nil_iff.mpr each
  simp [Numeral.decimal?, whole, behind, some_, Decimal.ofParts, Numeral.exponent?]

/-- The names of what is no number have no digits. -/
theorem named?_digits (negative : Bool) : Numeral.named? negative cs = none := by
  obtain ⟨first, digits, rfl⟩ := List.exists_cons_of_ne_nil some_
  have digit := each first List.mem_cons_self
  have same : first.toLower = first := by
    refine dif_neg fun upper => ?_
    have least : 65 ≤ first.toNat := UInt32.le_iff_toNat_le.mp upper.1
    have most := (bounds_of_isDigit digit).2
    omega
  refine named?_of_mem List.mem_cons_self (fun letter => ?_) negative
  have none : ['i', 'n', 'f', 't', 'y', 'a'].all (!Char.isDigit ·) = true := by decide
  have other := List.all_eq_true.mp none _ letter
  simp [same, digit] at other

/-- Digits whose value fits no integer are a float. -/
theorem ofNumeral?_digits : Value.ofNumeral? (String.ofList cs) =
    if Nat.ofDigitChars 10 cs 0 ≤ 2147483647 then some (.integer (.ofInt (Nat.ofDigitChars 10 cs 0)))
    else some (.float (Single.ofDecimal false ⟨Nat.ofDigitChars 10 cs 0, 0⟩)) := by
  have read := single?_of_decimal? (sign_digits some_ each) (named?_digits some_ each false)
    (decimal?_digits some_ each)
  rw [Value.ofNumeral?, String.toList_ofList, read, integer?_digits some_ each]
  split <;> rfl

end

/-- Zeros in front do not count, and two to the power of 31 is the first float. -/
example : Value.ofNumeral? "0002147483647" = some (.integer 2147483647) ∧
    Value.ofNumeral? "2147483648" = some (.float ⟨0x4f000000⟩) := by
  decide +kernel

/-- A number is read as what it means. -/
theorem IsNumber.means_readNumber (number : IsNumber cs) :
    Means cs (readNumber (String.ofList cs)) := by
  unfold readNumber
  rcases number.digits_or_pointed with each | ⟨whole, fraction, rfl, each, below⟩
  · -- Without a point the value decides.
    have value := decimalValue_digits each
    rw [ofNumeral?_digits number.nonempty each]
    by_cases small : Nat.ofDigitChars 10 cs 0 ≤ 2147483647
    · rw [if_pos small]
      have fits : InRange (Nat.ofDigitChars 10 cs 0) := ⟨by omega, by omega⟩
      refine .integer (not_mem_point each) ?_ ?_
      · rw [value]
        exact_mod_cast small
      · rw [value, toInt_ofInt_of_inRange fits, Int.cast_natCast]
    · rw [if_neg small]
      have nearest := Single.isNearest_ofDecimal ⟨Nat.ofDigitChars 10 cs 0, 0⟩
      have whole : ((⟨Nat.ofDigitChars 10 cs 0, 0⟩ : Decimal).numerator : ℚ) /
          (⟨Nat.ofDigitChars 10 cs 0, 0⟩ : Decimal).denominator = decimalValue cs := by
        rw [value]
        simp [Decimal.numerator, Decimal.denominator]
      rw [whole] at nearest
      refine .float ?_ (.inr ?_) (Single.isNegative_ofDecimal _) nearest
      · rintro rfl
        exact not_mem_point each List.mem_cons_self
      · rw [value]
        exact_mod_cast Nat.lt_of_not_le small
  · -- A point that has a digit at one of its sides makes a float.
    have point : '.' ∈ whole ++ '.' :: fraction := by simp
    by_cases some_ : whole ++ fraction = []
    · obtain ⟨rfl, rfl⟩ := List.append_eq_nil_iff.mp some_
      exact .point rfl
    · rw [ofNumeral?_pointed each below some_]
      have nearest := Single.isNearest_ofDecimal (Decimal.ofParts whole fraction)
      rw [← decimalValue_pointed each] at nearest
      refine .float (fun alone => some_ ?_) (.inl point) (Single.isNegative_ofDecimal _) nearest
      have length := congrArg List.length alone
      simp only [List.length_append, List.length_cons, List.length_nil] at length
      exact List.length_eq_zero_iff.mp (by rw [List.length_append]; omega)

/-- The three cases exclude each other, and there is one integer and one nearest float. -/
theorem Means.unique {o o' : Outcome Expr} (means : Means cs o) (means' : Means cs o') : o = o' := by
  cases means with
  | integer whole small value =>
    cases means' with
    | integer _ _ value' =>
      have same := value.trans value'.symm
      rw [Int32.toInt_inj.mp (Int.cast_injective same)]
    | float _ other => exact (other.elim whole fun large => absurd small large.not_ge).elim
    | point alone => exact absurd (alone ▸ List.mem_cons_self) whole
  | float some_ other positive nearest =>
    cases means' with
    | integer whole small => exact (other.elim whole fun large => absurd small large.not_ge).elim
    | float _ _ positive' nearest' => rw [nearest.unique nearest' positive positive']
    | point alone => exact absurd alone some_
  | point alone =>
    cases means' with
    | integer whole => exact absurd (alone ▸ List.mem_cons_self) whole
    | float some_ => exact absurd alone some_
    | point => rfl

end

section

variable {t : Token} (number : t.kind = .number)

include number

theorem literalItem_readNumber : literalItem t = readNumber t.text := by
  rw [literalItem, if_neg (by simp [number]), if_pos number]
  rfl

/-- A number that is an error is not used, so the error is reported at its place. -/
theorem factor_readNumber (rest : List Token) : factor (t :: rest) =
    ⟨readNumber t.text, match readNumber t.text with | .found _ => 1 | _ => 0, []⟩ := by
  unfold factor
  simp only [number, readNumber]
  cases Value.ofNumeral? t.text <;> rfl

end

/-- A number of a program is digits with at most one point. In DATA as in an expression it is read as
what it means, and an error is reported at its place. -/
theorem number_read_by_value {source : String} {t : Token} (lexed : t ∈ (lex source).tokens)
    (number : t.kind = .number) (rest : List Token) (passed : Option Token) :
    IsNumber t.text.toList ∧
      (∀ outcome, literalItem t = outcome ↔ Means t.text.toList outcome) ∧
      (∀ outcome, (factor (t :: rest)).outcome = outcome ↔ Means t.text.toList outcome) ∧
      ∀ fault, (factor (t :: rest)).outcome = .failed fault →
        fault.report ((Cursor.mk passed (t :: rest)).skip (factor (t :: rest)).used) =
          ⟨.syntaxError, some t.line, t.columns, "INVALID NUMBER"⟩ := by
  have formed := isNumber_of_mem_lex lexed number
  have means := formed.means_readNumber
  rw [String.ofList_toList] at means
  have agree (outcome : Outcome Expr) : readNumber t.text = outcome ↔ Means t.text.toList outcome :=
    ⟨fun read => read ▸ means, means.unique⟩
  rw [literalItem_readNumber number, factor_readNumber number]
  refine ⟨formed, agree, agree, fun fault failed => ?_⟩
  change readNumber t.text = .failed fault at failed
  rw [failed] at means ⊢
  cases means
  rfl

/-- The second point of a run starts a number of its own, and alone it is an error. -/
theorem number_read_by_value_of_second_point :
    (⟨.number, some ".", ⟨1, 2⟩⟩ : Token) ∈ (lex "1..").tokens ∧ IsNumber ['.'] ∧
      (∀ outcome, literalItem ⟨.number, some ".", ⟨1, 2⟩⟩ = outcome ↔ Means ['.'] outcome) ∧
      (∀ outcome, (factor [⟨.number, some ".", ⟨1, 2⟩⟩]).outcome = outcome ↔ Means ['.'] outcome) := by
  have lexed : (⟨.number, some ".", ⟨1, 2⟩⟩ : Token) ∈ (lex "1..").tokens := by decide +kernel
  obtain ⟨formed, item, expression, -⟩ := number_read_by_value lexed rfl [] none
  exact ⟨lexed, formed, item, expression⟩

end LabelBasic
