import LabelBasic.Proofs.Typing
import LabelBasic.Proofs.Variables

/-!
# Integer expressions over the whole numbers

The integers of the dialect have 32 bits, and an operation whose result has more is a fault. Here an
expression of integers is compared with its exact value over the whole numbers. It has that value if
every part of it has one that fits, and otherwise it fails at the first part that is at fault, in the
order in which the parts are evaluated.
-/
namespace LabelBasic

/-- The whole numbers that fit 32 bits. -/
def InRange (n : Int) : Prop := -2147483648 ≤ n ∧ n ≤ 2147483647

instance (n : Int) : Decidable (InRange n) := inferInstanceAs (Decidable (_ ∧ _))

theorem inRange_toInt (n : Int32) : InRange n.toInt := by
  have least := n.minValue_le_toInt
  have greatest := n.toInt_le
  exact ⟨least, greatest⟩

theorem toInt_ofInt_of_inRange {n : Int} (fits : InRange n) : (Int32.ofInt n).toInt = n := by
  obtain ⟨least, greatest⟩ := fits
  exact Int32.toInt_ofInt_of_le least (by omega)

theorem checked_of_inRange {n : Int} (fits : InRange n) : checked n = .ok (.ofInt n) := if_pos fits

theorem checked_of_not_inRange {n : Int} (outside : ¬InRange n) : checked n = .error .overflow :=
  if_neg outside

/-- The exact result on whole numbers. A quotient goes toward zero, and there is none by zero. -/
def Operator.wholeResult? : Operator → Int → Int → Option Int
  | .add, m, n => some (m + n)
  | .sub, m, n => some (m - n)
  | .mul, m, n => some (m * n)
  | .div, m, n => if n = 0 then none else some (m.tdiv n)

theorem Operator.apply_of_wholeResult? {op : Operator} {m n : Int32} {r : Int}
    (exact : op.wholeResult? m.toInt n.toInt = some r) :
    op.apply (.integer m) (.integer n) = (checked r).map .integer := by
  have whole : op.whole m.toInt n.toInt = .ok r := by
    cases op with
    | div =>
      simp only [wholeResult?] at exact
      split at exact
      next => cases exact
      next nonzero =>
        cases exact
        exact if_neg nonzero
    | add | sub | mul =>
      cases exact
      rfl
  simp only [apply, integer, whole]
  rfl

theorem Operator.wholeResult?_eq_none {op : Operator} {m n : Int} :
    op.wholeResult? m n = none ↔ op = .div ∧ n = 0 := by
  cases op <;> simp [wholeResult?]

theorem Operator.apply_div_zero {m n : Int32} (zero : n.toInt = 0) :
    Operator.div.apply (.integer m) (.integer n) = .error .divisionByZero := by
  have whole : Operator.div.whole m.toInt n.toInt = .error .divisionByZero := if_pos zero
  simp only [apply, integer, whole]
  rfl

/-! ### Parts of an expression -/

namespace Expr

/-- The expression is made of integer literals and integer variables with the four operators. -/
inductive IsIntegral : Expr → Prop
  | literal (n : Int32) : IsIntegral (.literal (.integer n))
  | named {v : Ident} (integer : v.kind = .integer) : IsIntegral (.variable v)
  | arithmetic {op : Operator} {left right : Expr} (first : IsIntegral left)
      (second : IsIntegral right) : IsIntegral (.arithmetic op left right)

/-- The exact value over the whole numbers, however great it is. -/
def wholeValue? (store : Store) : Expr → Option Int
  | .literal (.integer n) => some n.toInt
  | .variable v =>
    match store.get? v with
    | some (.integer n) => some n.toInt
    | _ => none
  | .arithmetic op left right =>
    match left.wholeValue? store, right.wholeValue? store with
    | some m, some n => op.wholeResult? m n
    | _, _ => none
  | _ => none

/-- The parts of an expression in the order in which they are evaluated: the operands of an operator
before it, and the left one before the right one. -/
def parts : Expr → List Expr
  | .arithmetic op left right => left.parts ++ right.parts ++ [.arithmetic op left right]
  | e => [e]

/-- The exact value is defined and fits. -/
def IsSound (store : Store) (e : Expr) : Prop := ∃ n, e.wholeValue? store = some n ∧ InRange n

/-- The expression itself is at fault, whatever its operands are. -/
inductive IsAtFault (store : Store) : Expr → Fault → Prop
  | unassigned {v : Ident} (missing : store.get? v = none) :
      IsAtFault store (.variable v) (.undefinedVariable v)
  | zeroDivisor {left right : Expr} (divisor : right.wholeValue? store = some 0) :
      IsAtFault store (.arithmetic .div left right) .divisionByZero
  | outOfRange {op : Operator} {left right : Expr} {n : Int}
      (result : (arithmetic op left right).wholeValue? store = some n) (outside : ¬InRange n) :
      IsAtFault store (.arithmetic op left right) .overflow

variable {store : Store} {e left right : Expr} {op : Operator} {f f' : Fault}

theorem wholeValue?_arithmetic {m n : Int} (first : left.wholeValue? store = some m)
    (second : right.wholeValue? store = some n) :
    (arithmetic op left right).wholeValue? store = op.wholeResult? m n := by
  simp only [wholeValue?, first, second]

theorem wholeValue?_div_zero (divisor : right.wholeValue? store = some 0) :
    (arithmetic .div left right).wholeValue? store = none := by
  simp only [wholeValue?, divisor]
  cases left.wholeValue? store with
  | none => rfl
  | some m => exact Operator.wholeResult?_eq_none.mpr ⟨rfl, rfl⟩

theorem IsSound.not_isAtFault (sound : e.IsSound store) : ¬e.IsAtFault store f := by
  obtain ⟨n, exact, fits⟩ := sound
  intro fault
  cases fault with
  | unassigned missing =>
    simp only [wholeValue?, missing] at exact
    cases exact
  | zeroDivisor divisor =>
    rw [wholeValue?_div_zero divisor] at exact
    cases exact
  | outOfRange result outside =>
    cases result.symm.trans exact
    exact outside fits

theorem IsAtFault.unique (fault : e.IsAtFault store f) (fault' : e.IsAtFault store f') : f = f' := by
  cases fault with
  | unassigned => cases fault'; rfl
  | zeroDivisor divisor =>
    cases fault' with
    | zeroDivisor => rfl
    | outOfRange result => cases (wholeValue?_div_zero divisor).symm.trans result
  | outOfRange result =>
    cases fault' with
    | zeroDivisor divisor => cases (wholeValue?_div_zero divisor).symm.trans result
    | outOfRange => rfl

theorem mem_parts_of_mem_idents {v : Ident} (integral : e.IsIntegral) (occurs : v ∈ e.idents) :
    .variable v ∈ e.parts := by
  induction integral with
  | literal n => cases occurs
  | named integer =>
    rw [idents, List.mem_singleton] at occurs
    subst occurs
    exact List.mem_singleton_self _
  | arithmetic first second ihl ihr =>
    rw [parts]
    refine List.mem_append_left _ (List.mem_append.mpr ?_)
    exact (List.mem_append.mp occurs).imp ihl ihr

end Expr

/-! ### The first fault -/

/-- The first of the expressions that is at fault is so with this fault. -/
def FirstFault (store : Store) (ds : List Expr) (f : Fault) : Prop :=
  ∃ before d after, ds = before ++ d :: after ∧ d.IsAtFault store f ∧
    ∀ c ∈ before, ∀ f', ¬c.IsAtFault store f'

namespace FirstFault

variable {store : Store} {ds es : List Expr} {f f' : Fault}

theorem append_left (first : FirstFault store ds f) (es : List Expr) :
    FirstFault store (ds ++ es) f := by
  obtain ⟨before, d, after, rfl, fault, none⟩ := first
  exact ⟨before, d, after ++ es, by simp, fault, none⟩

theorem append_right (sound : ∀ d ∈ ds, d.IsSound store) (first : FirstFault store es f) :
    FirstFault store (ds ++ es) f := by
  obtain ⟨before, d, after, rfl, fault, none⟩ := first
  refine ⟨ds ++ before, d, after, by simp, fault, fun c member f' => ?_⟩
  rcases List.mem_append.mp member with earlier | later
  · exact (sound c earlier).not_isAtFault
  · exact none c later f'

theorem singleton {e : Expr} (fault : e.IsAtFault store f) : FirstFault store [e] f :=
  ⟨[], e, [], rfl, fault, nofun⟩

theorem not_sound (first : FirstFault store ds f) : ¬∀ d ∈ ds, d.IsSound store := by
  obtain ⟨before, d, after, rfl, fault, _⟩ := first
  intro sound
  exact (sound d (by simp)).not_isAtFault fault

theorem unique (first : FirstFault store ds f) (first' : FirstFault store ds f') : f = f' := by
  obtain ⟨before, d, after, rfl, fault, none⟩ := first
  obtain ⟨before', d', after', same, fault', none'⟩ := first'
  -- If one were further on, the other would be among those in front of it.
  rcases List.append_eq_append_iff.mp same with ⟨between, rfl, split⟩ | ⟨between, rfl, split⟩
  · cases between with
    | nil =>
      cases split
      exact fault.unique fault'
    | cons c between =>
      cases split
      exact absurd fault (none' d (by simp) f)
  · cases between with
    | nil =>
      cases split
      exact fault.unique fault'
    | cons c between =>
      cases split
      exact absurd fault' (none d' (by simp) f')

end FirstFault

/-! ### Evaluation -/

section

variable (store : Store) {e : Expr} (integral : e.IsIntegral) (g : Generator)

include integral

/-- Either every part of the expression is sound, and it has its exact value, or one of them is at
fault, and it fails as the first of these. -/
theorem evaluate_integral :
    (∃ n : Int32, evaluate store .integer e g = .ok (.integer n) g ∧
        e.wholeValue? store = some n.toInt ∧ ∀ d ∈ e.parts, d.IsSound store) ∨
      ∃ f, evaluate store .integer e g = .error f g ∧ FirstFault store e.parts f := by
  induction integral with
  | literal n =>
    refine .inl ⟨n, rfl, rfl, fun d member => ?_⟩
    obtain rfl := List.mem_singleton.mp member
    exact ⟨n.toInt, rfl, inRange_toInt n⟩
  | @named v integer =>
    rw [evaluate, if_pos integer, Store.fetch]
    cases found : store.get? v with
    | none => exact .inr ⟨_, rfl, .singleton (.unassigned found)⟩
    | some x =>
      obtain ⟨n, rfl⟩ := exists_integer ((Store.kind_of_get? found).trans integer)
      have exact : (Expr.variable v).wholeValue? store = some n.toInt := by
        simp only [Expr.wholeValue?, found]
      refine .inl ⟨n, rfl, exact, fun d member => ?_⟩
      obtain rfl := List.mem_singleton.mp member
      exact ⟨n.toInt, exact, inRange_toInt n⟩
  | @arithmetic op left right _ _ ihl ihr =>
    rw [evaluate, Expr.parts]
    -- Parts come in the order of evaluation, so a fault of the left operand is the first one.
    rcases ihl with ⟨m, evaluated, first, sound⟩ | ⟨f, failed, fault⟩
    · rcases ihr with ⟨n, evaluated', second, sound'⟩ | ⟨f, failed', fault'⟩
      · -- Both operands have values, so it is up to the operator.
        rw [bind_of_ok evaluated, bind_of_ok evaluated']
        have operands : ∀ d ∈ left.parts ++ right.parts, d.IsSound store :=
          List.forall_mem_append.mpr ⟨sound, sound'⟩
        have value : (Expr.arithmetic op left right).wholeValue? store = _ :=
          Expr.wholeValue?_arithmetic first second
        cases exact : op.wholeResult? m.toInt n.toInt with
        | none =>
          obtain ⟨rfl, zero⟩ := Operator.wholeResult?_eq_none.mp exact
          rw [Operator.apply_div_zero zero]
          rw [zero] at second
          exact .inr ⟨_, rfl, .append_right operands (.singleton (.zeroDivisor second))⟩
        | some r =>
          rw [exact] at value
          rw [Operator.apply_of_wholeResult? exact]
          by_cases fits : InRange r
          · rw [checked_of_inRange fits]
            have whole := toInt_ofInt_of_inRange fits
            refine .inl ⟨.ofInt r, rfl, whole.symm ▸ value, ?_⟩
            refine List.forall_mem_append.mpr ⟨operands, fun d member => ?_⟩
            obtain rfl := List.mem_singleton.mp member
            exact ⟨r, value, fits⟩
          · rw [checked_of_not_inRange fits]
            exact .inr ⟨_, rfl, .append_right operands (.singleton (.outOfRange value fits))⟩
      · rw [bind_of_ok evaluated, bind_of_error failed']
        exact .inr ⟨f, rfl, (fault'.append_right sound).append_left _⟩
    · rw [bind_of_error failed]
      exact .inr ⟨f, rfl, (fault.append_left _).append_left _⟩

/-- An expression of integers has a value if all its variables have one and the exact value of every
part of it is defined and fits, and that is the exact value. Otherwise its fault is that of the first
part at fault, operands first and from left to right. No random number is drawn. -/
theorem evaluateInteger_exact_or_first_fault :
    (∀ n g', evaluateInteger store e g = .ok n g' ↔ g' = g ∧
      (∀ v ∈ e.idents, (store.get? v).isSome) ∧ (∀ d ∈ e.parts, d.IsSound store) ∧
      e.wholeValue? store = some n.toInt) ∧
    (∀ f g', evaluateInteger store e g = .error f g' ↔ g' = g ∧ FirstFault store e.parts f) ∧
    ((∀ d ∈ e.parts, d.IsSound store) ∨ ∃ f, FirstFault store e.parts f) := by
  rcases evaluate_integral store integral g with
    ⟨k, evaluated, exact, sound⟩ | ⟨k, failed, first⟩
  · have value : evaluateInteger store e g = .ok k g := bind_of_ok evaluated
    have assigned : ∀ v ∈ e.idents, (store.get? v).isSome := by
      intro v occurs
      -- A variable that occurs is a part, and it has a value as it is sound.
      obtain ⟨n, exact, _⟩ := sound _ (Expr.mem_parts_of_mem_idents integral occurs)
      cases found : store.get? v with
      | none =>
        simp only [Expr.wholeValue?, found] at exact
        cases exact
      | some x => rfl
    rw [value]
    refine ⟨fun n g' => ?_, fun f g' => ?_, .inl sound⟩
    · constructor
      · rintro ⟨⟩
        exact ⟨rfl, assigned, sound, exact⟩
      · rintro ⟨rfl, _, _, same⟩
        rw [Int32.toInt_inj.mp (Option.some.inj (exact.symm.trans same))]
    · constructor
      · exact nofun
      · rintro ⟨_, first⟩
        exact absurd sound first.not_sound
  · have fault : evaluateInteger store e g = .error k g := bind_of_error failed
    rw [fault]
    refine ⟨fun n g' => ?_, fun f g' => ?_, .inr ⟨k, first⟩⟩
    · constructor
      · exact nofun
      · rintro ⟨_, _, sound, _⟩
        exact absurd sound first.not_sound
    · constructor
      · rintro ⟨⟩
        exact ⟨rfl, first⟩
      · rintro ⟨rfl, first'⟩
        rw [first.unique first']

end

private def leastAndMinusOne : Store :=
  (Store.empty.insert ⟨"a"⟩ (.integer Int32.minValue) rfl).insert ⟨"b"⟩ (.integer (-1)) rfl

private def least : Expr := .variable ⟨"a"⟩

private def minusOne : Expr := .variable ⟨"b"⟩

/-- Both quotients are at fault. -/
private def quotients : Expr :=
  .arithmetic .add (.arithmetic .div least minusOne)
    (.arithmetic .div minusOne (.literal (.integer 0)))

private def difference : Expr := .arithmetic .sub least minusOne

theorem evaluateInteger_exact_or_first_fault_of_least :
    FirstFault leastAndMinusOne quotients.parts .overflow ∧
      (∀ d ∈ difference.parts, d.IsSound leastAndMinusOne) ∧
      difference.wholeValue? leastAndMinusOne = some (-2147483647) := by
  have first : least.IsIntegral := .named rfl
  have second : minusOne.IsIntegral := .named rfl
  have third : quotients.IsIntegral :=
    .arithmetic (.arithmetic first second) (.arithmetic second (.literal 0))
  have fourth : difference.IsIntegral := .arithmetic first second
  have failed : evaluateInteger leastAndMinusOne quotients (.ofSeed 0) =
      .error .overflow (.ofSeed 0) := rfl
  have evaluated : evaluateInteger leastAndMinusOne difference (.ofSeed 0) =
      .ok (-2147483647) (.ofSeed 0) := rfl
  obtain ⟨_, fault, _⟩ :=
    evaluateInteger_exact_or_first_fault leastAndMinusOne third (.ofSeed 0)
  obtain ⟨value, _, _⟩ :=
    evaluateInteger_exact_or_first_fault leastAndMinusOne fourth (.ofSeed 0)
  obtain ⟨_, _, sound, exact⟩ := (value _ _).mp evaluated
  exact ⟨((fault _ _).mp failed).2, sound, exact⟩

end LabelBasic
