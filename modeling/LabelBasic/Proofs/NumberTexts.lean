import LabelBasic.Proofs.InputWords
import LabelBasic.Proofs.Numerals

/-!
# Numbers and the texts of values

`num$` and PRINT write the same text for a number. Main result: `val` or `val%` reads the number
back from the text, and so does INPUT, to which it is one word. Any NaN is written by name, and read
as the one NaN that the name means.
-/
namespace LabelBasic

/-! ### Decimals -/

/-- Digits around a point, perhaps with an exponent behind them, that come to the decimal. -/
inductive Decimal.IsWritten (d : Decimal) : List Char → Prop
  | intro (whole fraction : List Char) {mark : List Char} {e : Int} (some_ : whole ≠ [])
      (each : ∀ c ∈ whole ++ fraction, c.isDigit = true)
      (stop : ∀ c ∈ mark.head?, c.isDigit = false) (plain : ∀ c ∈ mark, isBlank c = false)
      (exponent : Numeral.exponent? mark = some e)
      (same : ∀ negative, Single.ofDecimal negative
        ⟨(Decimal.ofParts whole fraction).digits, -fraction.length + e⟩ =
          Single.ofDecimal negative d) :
      IsWritten d (whole ++ '.' :: (fraction ++ mark))

theorem not_isBlank_of_isDigit {c : Char} (digit : c.isDigit = true) : isBlank c = false := by
  have bounds := bounds_of_isDigit digit
  simp only [isBlank, Bool.or_eq_false_iff, Bool.and_eq_false_iff, decide_eq_false_iff_not,
    beq_eq_false_iff_ne]
  omega

theorem not_isBlank_of_mem_toString {i : Int} {c : Char} (member : c ∈ (toString i).toList) :
    isBlank c = false := by
  rw [toList_toString] at member
  rcases List.mem_append.mp member with sign | digit
  · split at sign
    · rw [List.mem_singleton.mp sign]
      decide
    · cases sign
  · exact not_isBlank_of_isDigit (isDigit_of_mem_toDigits digit)

theorem exponent?_toString (i : Int) :
    Numeral.exponent? ('E' :: (toString i).toList) = some i := by
  have mark : ¬('E' ≠ 'e' ∧ 'E' ≠ 'E') := by decide
  simp only [Numeral.exponent?, if_neg mark, sign_toString, natural?_toDigits,
    Option.bind_eq_bind, Option.bind_some, signed_natAbs]

namespace Decimal

variable (d : Decimal)

theorem isWritten_positional :
    d.IsWritten (Layout.positional (Nat.toDigits 10 d.digits) d.exponent) := by
  obtain ⟨whole, fraction, text, some_, each, same⟩ := positional_pointed d
  have text' : whole ++ '.' :: fraction = whole ++ '.' :: (fraction ++ []) := by
    rw [List.append_nil]
  rw [text, text']
  refine .intro whole fraction some_ each nofun nofun rfl fun negative => ?_
  rw [Int.add_zero]
  exact same negative

theorem isWritten_scientific :
    d.IsWritten (Layout.value.scientific (Nat.toDigits 10 d.digits) d.exponent) := by
  have stop : ∀ (i : Int), ∀ c ∈ ('E' :: (toString i).toList).head?, c.isDigit = false := by
    rintro _ _ ⟨⟩
    decide
  have plain : ∀ (i : Int), ∀ c ∈ 'E' :: (toString i).toList, isBlank c = false := fun i =>
    List.forall_mem_cons.mpr ⟨by decide, fun _ => not_isBlank_of_mem_toString⟩
  have each : ∀ c ∈ Nat.toDigits 10 d.digits, c.isDigit = true := fun _ => isDigit_of_mem_toDigits
  have one := congrArg Decimal.digits (ofParts_whole d.digits 0)
  have several := Nat.ofDigitChars_ten_toDigits (n := d.digits)
  obtain ⟨first, rest, text⟩ := List.exists_cons_of_ne_nil
    (Nat.toDigits_ne_nil (n := d.digits) (b := 10))
  rw [text] at each one several ⊢
  cases rest with
  | nil =>
    -- A single digit gets a zero behind the point, which makes the exponent lower by one.
    refine .intro [first] ['0'] (List.cons_ne_nil _ _) ?_ (stop _) (plain _)
      (exponent?_toString _) fun negative => ?_
    · exact List.forall_mem_append.mpr ⟨each, List.forall_mem_singleton.mpr rfl⟩
    · have lower : -(['0'].length : Int) + (d.exponent + [first].length - 1) =
          d.exponent - (0 + 1 : Nat) := by simp; omega
      have shifted := ofDecimal_shift negative (0 + 1) d.digits d.exponent
      rw [List.replicate_zero, List.append_nil] at one
      rw [one, lower]
      exact shifted
  | cons second rest =>
    refine .intro [first] (second :: rest) (List.cons_ne_nil _ _) each (stop _) (plain _)
      (exponent?_toString _) fun negative => ?_
    have same : -((second :: rest).length : Int) +
        (d.exponent + (first :: second :: rest).length - 1) = d.exponent := by simp; omega
    rw [same, Decimal.ofParts]
    exact congrArg (fun n => Single.ofDecimal negative ⟨n, d.exponent⟩) several

theorem isWritten_decimal : d.IsWritten (Layout.value.decimal d) := by
  simp only [Layout.decimal]
  split
  · exact d.isWritten_positional
  · exact d.isWritten_scientific

end Decimal

namespace Decimal.IsWritten

variable {d : Decimal} {text : List Char} (written : d.IsWritten text)

include written

theorem ne_nil : text ≠ [] := by
  obtain ⟨⟩ := written
  exact List.append_ne_nil_of_right_ne_nil _ (List.cons_ne_nil _ _)

theorem unsigned : Numeral.sign text = (false, text) := by
  obtain ⟨_, _, _, each⟩ := written
  exact sign_pointed (List.forall_mem_append.mp each).1 _

theorem plain : ∀ c ∈ text, isBlank c = false := by
  obtain ⟨_, _, _, each, _, plain⟩ := written
  obtain ⟨front, below⟩ := List.forall_mem_append.mp each
  refine List.forall_mem_append.mpr ⟨fun c member => not_isBlank_of_isDigit (front c member), ?_⟩
  refine List.forall_mem_cons.mpr ⟨by decide, List.forall_mem_append.mpr ⟨?_, plain⟩⟩
  exact fun c member => not_isBlank_of_isDigit (below c member)

theorem read {signed : List Char} {negative : Bool}
    (sign : Numeral.sign signed = (negative, text)) :
    Numeral.single? signed = some (Single.ofDecimal negative d) := by
  obtain ⟨_, _, some_, each, stop, _, exponent, same⟩ := written
  obtain ⟨front, below⟩ := List.forall_mem_append.mp each
  rw [single?_of_decimal? sign (named?_pointed _ _ _)
    (decimal?_pointed front below (List.append_ne_nil_of_left_ne_nil some_ _) stop exponent), same]

end Decimal.IsWritten

/-! ### Words -/

/-- The text is one word, and that is read as the number. -/
structure Value.IsReadFrom (v : Value) (text : String) : Prop where
  word : words text.toList = [text.toList]
  read : Reader.ofWord? v.kind text = some v

theorem isReadFrom_integer (n : Int32) : (Value.integer n).IsReadFrom (integerText n) := by
  constructor
  · refine words_of_plain ?_ fun c member => not_isBlank_of_mem_toString member
    rw [integerText, toList_toString]
    exact List.append_ne_nil_of_right_ne_nil _ Nat.toDigits_ne_nil
  · simp only [Value.kind, Reader.ofWord?, integer?_integerText, Option.map_some]

/-- A sign in front is split off again. -/
theorem sign_signed (negative : Bool) {text : List Char}
    (unsigned : Numeral.sign text = (false, text)) :
    Numeral.sign ((if negative then "-" else "").toList ++ text) = (negative, text) := by
  cases negative with
  | true => rfl
  | false => exact unsigned

theorem isReadFrom_of_signed {x : Single} {text : List Char} (starts : text ≠ [])
    (plain : ∀ c ∈ text, isBlank c = false)
    (read : Numeral.single? ((if x.isNegative then "-" else "").toList ++ text) = some x) :
    (Value.float x).IsReadFrom ((if x.isNegative then "-" else "") ++ String.ofList text) := by
  have signs : ∀ c ∈ (if x.isNegative then "-" else "").toList, isBlank c = false := by
    cases x.isNegative <;> simp [isBlank]
  constructor
  · rw [String.toList_append, String.toList_ofList]
    exact words_of_plain (List.append_ne_nil_of_right_ne_nil _ starts)
      (List.forall_mem_append.mpr ⟨signs, plain⟩)
  · rw [Value.kind, Reader.ofWord?, String.toList_append, String.toList_ofList, read,
      Option.map_some]

theorem isReadFrom_single (x : Single) :
    (Value.float (if x.isNaN then .nan else x)).IsReadFrom (Layout.value.single x) := by
  by_cases number : x.isNaN = true
  -- The name of a NaN has no sign.
  · rw [Layout.single, if_pos number, if_pos number]
    exact ⟨words_of_plain (by decide) (by simp [isBlank]), by decide +kernel⟩
  rw [Layout.single, if_neg number, if_neg number]
  by_cases infinite : x.isInfinite = true
  · have signed : ∀ negative,
        Numeral.single? ((if negative then "-" else "").toList ++ "inf".toList) =
          some (Single.infinity negative) := by decide +kernel
    have read := signed x.isNegative
    rw [Single.infinity_of_isInfinite infinite] at read
    have inf := isReadFrom_of_signed (by decide) (by simp [isBlank]) read
    rw [String.ofList_toList] at inf
    rw [if_pos infinite]
    exact inf
  -- Behind the sign of a finite single is its shortest decimal, which is rounded back to it.
  · have finite := Single.isFinite_of_not number infinite
    have written := x.shortest.isWritten_decimal
    have read := written.read (sign_signed x.isNegative written.unsigned)
    rw [Single.ofDecimal_shortest finite] at read
    rw [if_neg infinite]
    exact isReadFrom_of_signed written.ne_nil written.plain read

/-! ### Calls, PRINT and INPUT -/

/-- The function that reads a number of the kind. -/
def Kind.val : Kind → Builtin
  | .float => .valFloat
  | .integer | .string => .val

theorem Kind.val_takes {kind : Kind} (number : kind ≠ .string) :
    kind.val.returns = kind ∧ kind.val.parameters = [.of .string] := by
  cases kind with
  | integer | float => exact ⟨rfl, rfl⟩
  | string => exact absurd rfl number

section

variable {v v' : Value} {e : Expr}

theorem numeralOf_number (number : v.kind ≠ .string) : Builtin.numeralOf v = .ok v.text := by
  cases v with
  | integer | float => rfl
  | string => exact absurd rfl number

theorem call_val {text : String} {g : Generator} (number : v.kind ≠ .string)
    (read : Reader.ofWord? v.kind text = some v) :
    v.kind.val.call [.string text] g = .ok v g := by
  cases v with
  | integer n =>
    have found : Numeral.integer? text.toList = some n := by
      simpa [Reader.ofWord?, Value.kind] using read
    have given : Builtin.integerOf text = .ok n := by rw [Builtin.integerOf, found]
    change ofExcept (Builtin.integerOf text >>= fun n => pure (Value.integer n)) g = _
    rw [given]
    rfl
  | float x =>
    have found : Numeral.single? text.toList = some x := by
      simpa [Reader.ofWord?, Value.kind] using read
    have given : Builtin.floatOf text = .ok x := by rw [Builtin.floatOf, found]
    change ofExcept (Builtin.floatOf text >>= fun x => pure (Value.float x)) g = _
    rw [given]
    rfl
  | string => exact absurd rfl number

/-- A call with one argument. -/
theorem evaluate_call {store : Store} {f : Builtin} {parameter : Parameter} {g g₁ g₂ : Generator}
    {x y : Value} (takes : f.parameters = [parameter])
    (argument : evaluate store (parameter.kindFor e) e g = .ok x g₁)
    (called : f.call [x] g₁ = .ok y g₂) :
    evaluate store f.returns (.call f [e]) g = .ok y g₂ := by
  have arguments : evaluateArguments store [parameter] [e] g = .ok [x] g₁ := by
    rw [evaluateArguments, bind_of_ok argument, evaluateArguments]
    rfl
  rw [evaluate, if_pos rfl, takes, bind_of_ok arguments, called]

theorem evaluate_val_num {store : Store} {g g' : Generator} (number : v.kind ≠ .string)
    (same : v'.kind = v.kind) (read : v'.IsReadFrom v.text)
    (value : evaluate store e.kind e g = .ok v g') :
    evaluate store v.kind (.call v.kind.val [.call .num [e]]) g = .ok v' g' := by
  have text : evaluate store .string (.call .num [e]) g = .ok (.string v.text) g' := by
    refine evaluate_call (f := .num) rfl value ?_
    change ofExcept (Builtin.numeralOf v >>= fun s => pure (Value.string s)) g' = _
    rw [numeralOf_number number]
    rfl
  have called := call_val (g := g') (same ▸ number) read.read
  rw [same] at called
  obtain ⟨returns, takes⟩ := Kind.val_takes number
  have whole := evaluate_call takes text called
  rwa [returns] at whole

/-- A line that starts with the text has its word in front. -/
theorem Value.IsReadFrom.words_line {text : String} (read : v.IsReadFrom text) (more : String) :
    words (text ++ "\n" ++ more).toList = text.toList :: words more.toList := by
  have spelled : (text ++ "\n" ++ more).toList = text.toList ++ '\n' :: more.toList := by simp
  rw [spelled, words_append _ (by decide), read.word, List.singleton_append]

namespace Machine

theorem printItem_number {m : Machine} {g : Generator} (number : v.kind ≠ .string)
    (value : evaluate m.store e.kind e m.generator = .ok v g) :
    printItem e m =
      .ok () { m with generator := g, output := m.output.push (v.text ++ "\n") } := by
  have found : Machine.value e.kind e m = .ok v { m with generator := g } := by
    simp only [Machine.value, onGenerator, onPart, value]
  have item : printItem e = (Machine.value e.kind e >>= fun x => emit (x.text ++ "\n")) := by
    unfold printItem
    split
    next s =>
      -- The value of a string literal is no number.
      have literal : evaluate m.store .string (.literal (.string s)) = pure (.string s) := by
        rw [evaluate]
        exact if_pos rfl
      cases value.symm.trans (congrFun literal m.generator)
      exact absurd rfl number
    next => rfl
  rw [item, bind_of_ok found]
  rfl

/-- INPUT takes the value off the front of an input that starts with this text, if there is room for
the variable. -/
def Supplies (text : String) (v : Value) : Prop :=
  ∀ (w : Ident) (fits : v.kind = w.kind) (m : Machine) (bytes : List UInt8) (more : String),
    String.fromUTF8? bytes.toByteArray = some (text ++ more) → m.reader = .ofBytes bytes →
    m.store.contains w = true ∨ m.store.size < Store.capacity →
    ∃ r, r.Holds ((words more.toList).map String.ofList) ∧
      inputItem (.variable w) m = .ok () { m with reader := r, store := m.store.insert w v fits }

theorem supplies_word {text : String} (read : v.IsReadFrom text) : Supplies (text ++ "\n") v := by
  intro w fits m bytes more decoded input room
  have holds := Reader.holds_ofBytes decoded
  rw [read.words_line, ← input, List.map_cons, String.ofList_toList] at holds
  obtain ⟨r, next, rest⟩ := Reader.next_of_holds holds
  refine ⟨r, rest, ?_⟩
  have taken : Reader.value w.kind m.reader = .ok v r := by
    rw [Reader.value_of_next next, List.head?_cons, Reader.take, ← fits, read.read]
  have found : onReader (Reader.value w.kind) m = .ok v { m with reader := r } := by
    simp only [onReader, onPart, taken]
  have item : inputItem (.variable w) = onReader (Reader.value w.kind) >>= assign w := rfl
  rw [item, bind_of_ok found]
  simp only [assign, Store.store_of_room fits room]

end Machine

/-- `val` or `val%` of `num$`, and INPUT of what PRINT writes, give this value for the number. PRINT
writes a single word for it. -/
structure Value.IsReadBackAs (v v' : Value) : Prop where
  called : ∀ (store : Store) (e : Expr) (g g' : Generator), evaluate store e.kind e g = .ok v g' →
    evaluate store v.kind (.call v.kind.val [.call .num [e]]) g = .ok v' g'
  printed : ∀ (m : Machine) (e : Expr) (g : Generator),
    evaluate m.store e.kind e m.generator = .ok v g →
      ∃ text, Machine.printItem e m =
          .ok () { m with generator := g, output := m.output.push text } ∧
        (∃ word, words text.toList = [word]) ∧ Machine.Supplies text v'

theorem isReadBackAs {v v' : Value} (number : v.kind ≠ .string) (same : v'.kind = v.kind)
    (read : v'.IsReadFrom v.text) : v.IsReadBackAs v' where
  called _ _ _ _ := evaluate_val_num number same read
  printed m e g value := by
    have word := read.words_line ""
    rw [String.append_empty] at word
    have none : words "".toList = [] := words_of_blank rfl
    rw [none] at word
    exact ⟨_, Machine.printItem_number number value, ⟨_, word⟩, Machine.supplies_word read⟩

/-- An integer is read back from its text, and so is a float that is a number. A NaN is read as the
one that its name means. -/
theorem number_text_read_back :
    (∀ n : Int32, (Value.integer n).IsReadBackAs (.integer n)) ∧
      ∀ x : Single, (Value.float x).IsReadBackAs (.float (if x.isNaN then .nan else x)) :=
  ⟨fun n => isReadBackAs nofun rfl (isReadFrom_integer n),
    fun x => isReadBackAs nofun rfl (isReadFrom_single x)⟩

example : (Value.float (.ofDecimal true ⟨25, 8⟩)).text = "-2.5E9" := by decide +kernel

end

end LabelBasic
