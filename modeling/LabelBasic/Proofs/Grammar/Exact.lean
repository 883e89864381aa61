import LabelBasic.Proofs.Grammar.Complete
import LabelBasic.Proofs.Grammar.Sound

/-!
# Exactly the expressions

The parser finds an expression with just these tokens if and only if the tokens derive it and what
follows them cannot go on with it. One half is soundness and maximality: where an operator follows,
or a parenthesis that makes a call of the last variable, more tokens are used. The other half is
completeness. What is found depends on the grammar alone, so parentheses around an operand make no
difference where the operand would be read as one without them.
-/
namespace LabelBasic

namespace Reply

variable {α β : Type}

theorem used_after (r : Reply α) (n : Nat) : (r.after n).used = n + r.used := rfl

/-- Going on gives no tokens back. -/
theorem used_le_andThen (r : Reply α) (k : α → Nat → Reply β) : r.used ≤ (r.andThen k).used := by
  simp only [andThen]
  split
  · exact Nat.le_add_right _ _
  · exact Nat.le_refl _
  · exact Nat.le_refl _

end Reply

namespace Grammar

/-- The token is an operator that holds at least as tightly as the level. -/
def Joins (level : Level) (t : Token) : Prop :=
  ∃ op, t.kind = .symbol (.operator op) ∧ op.level.rank ≤ level.rank

/-- The token makes a call of the variable that the tokens in front of it end with. -/
def Calls (p : List Token) (t : Token) : Prop :=
  t.kind = .symbol .leftParen ∧
    ∃ u ∈ p.getLast?, u.kind = .word ∧ (Builtin.ofName? u.text).isSome

/-- What follows goes on with an expression of the level. -/
def GoesOn (level : Level) (p r : List Token) : Prop := ∃ t ∈ r.head?, Joins level t ∨ Calls p t

variable {level : Level} {p q r : List Token} {t : Token}

theorem free_of_not_goesOn (ends : ¬GoesOn level p r) : Free p r :=
  fun u last word named l head opened =>
    ends ⟨l, head, .inr ⟨opened, u, last, word, named⟩⟩

theorem closed_of_not_goesOn (ends : ¬GoesOn .sum p r) : Closed r := by
  intro t head op kind
  -- Any operator holds as tightly as those of a sum.
  exact ends ⟨t, head, .inl ⟨op, kind, by cases op <;> decide⟩⟩

/-- Nothing goes on with a factor but the parenthesis of a call. -/
theorem calls_of_goesOn (on : GoesOn .factor p r) : ∃ t ∈ r.head?, Calls p t := by
  obtain ⟨t, head, ⟨op, kind, binds⟩ | calls⟩ := on
  · cases op <;> simp [Operator.level, Level.rank] at binds
  · exact ⟨t, head, calls⟩

/-- Only a variable can become a call. -/
theorem not_goesOn_of_last (last : p.getLast? = some t) (other : t.kind ≠ .word) :
    ¬GoesOn .factor p r := by
  intro on
  obtain ⟨_, _, _, u, member, word, _⟩ := calls_of_goesOn on
  rw [last] at member
  cases member
  exact other word

theorem last_of_arguments {es : List Expr} (derived : DerivesArguments p es) :
    ∃ t, p.getLast? = some t ∧ t.kind = .symbol .rightParen := by
  cases derived with
  | none closed => exact ⟨_, rfl, closed⟩
  | some inner closed => exact ⟨_, List.getLast?_concat .., closed⟩

/-- What goes on with an operation goes on with its right operand. -/
theorem GoesOn.right (on : GoesOn level (p ++ t :: q) r) (nonempty : q ≠ []) :
    GoesOn level q r := by
  simpa only [GoesOn, Calls, getLast?_operation p t nonempty] using on

/-! ### Parentheses -/

/-- The tokens in any number of parentheses, or in none. -/
inductive Wrapped (p : List Token) : List Token → Prop
  | bare : Wrapped p p
  | parens {l c : Token} {q : List Token} (opened : l.kind = .symbol .leftParen)
      (inner : Wrapped p q) (closed : c.kind = .symbol .rightParen) : Wrapped p (l :: (q ++ [c]))

theorem Derives.atLevel {e : Expr} (derived : Derives .factor p e) : ∀ level, Derives level p e
  | .factor => derived
  | .product => .product derived
  | .sum => .sum (.product derived)

theorem Derives.asSum {e : Expr} (derived : Derives level p e) : Derives .sum p e := by
  cases level with
  | factor => exact derived.atLevel .sum
  | product => exact .sum derived
  | sum => exact derived

/-- Parentheses around the tokens of an expression leave it as it is, at every level. -/
theorem derives_of_wrapped {e : Expr} (derived : Derives level p e) (wrapped : Wrapped p q) :
    Derives level q e := by
  induction wrapped generalizing level with
  | bare => exact derived
  | parens opened _ closed ih => exact (Derives.group opened (ih derived.asSum) closed).atLevel level

end Grammar

namespace Parse

open Grammar

/-- An operator of the level is used, whatever stands behind it. -/
theorem used_operations_pos {level : Level} {left : Expr} {r : List Token} {t : Token}
    {op : Operator} (head : t ∈ r.head?) (kind : t.kind = .symbol (.operator op))
    (binds : op.level = level) : 0 < (operations level left r).used := by
  obtain ⟨rest, rfl⟩ := List.head?_eq_some_iff.mp head
  rw [operations_of_level left rest kind binds, Reply.used_after]
  omega

section

variable {level : Level} {p r : List Token}

/-- Behind an operand stands an operator of the level, or something that goes on with the operand. -/
theorem operand_ends {left : Expr} (derived : Derives level.tighter p left) (on : GoesOn level p r)
    (ends : ¬GoesOn level.tighter p r) :
    expr level.tighter (p ++ r) = .found left p.length ∧
      ∀ e, 0 < (operations level e r).used := by
  obtain ⟨t, head, ⟨op, kind, bound⟩ | calls⟩ := on
  · have loosest : ¬op.level.rank ≤ level.tighter.rank := fun tight =>
      ends ⟨t, head, .inl ⟨op, kind, tight⟩⟩
    have binds : op.level = level := by
      cases op <;> cases level <;> simp_all [Operator.level, Level.rank, Level.tighter]
    have loose : Loose level.tighter r := by
      intro u member op' kind' sum
      cases level <;> cases sum
    -- No operator of the operand's own level is left.
    have ended : operations level.tighter left r = .found left 0 := by
      refine operations_done fun u member op' kind' same => ?_
      obtain rfl : t = u := Option.some.inj (head.symm.trans member)
      obtain rfl : op = op' := by simpa [kind] using kind'
      exact loosest (Nat.le_of_eq (congrArg Level.rank same))
    constructor
    · rw [expr_complete derived r (free_of_not_goesOn ends) loose, ended]
      rfl
    · exact fun e => used_operations_pos head kind binds
  · exact absurd ⟨t, head, .inr calls⟩ ends

/-- What goes on with an operand, or with the operations behind it, is used. -/
theorem length_lt_used_operand (level : Level) {left : Expr} (derived : Derives level.tighter p left)
    (on : GoesOn level p r)
    (tighter : GoesOn level.tighter p r → p.length < (expr level.tighter (p ++ r)).used)
    (join : Expr → Expr) :
    p.length < ((expr level.tighter (p ++ r)).andThen fun e n =>
      operations level (join e) ((p ++ r).drop n)).used := by
  by_cases more : GoesOn level.tighter p r
  · exact Nat.lt_of_lt_of_le (tighter more) (Reply.used_le_andThen _ _)
  · obtain ⟨found, used⟩ := operand_ends derived on more
    have pos := used (join left)
    rw [found, Reply.andThen_found, List.drop_left, Reply.used_after]
    omega

end

/-- The parser does not stop where the expression goes on. -/
theorem length_lt_used {level : Level} {p r : List Token} {e : Expr} (derived : Derives level p e)
    (on : GoesOn level p r) : p.length < (expr level (p ++ r)).used := by
  match derived with
  | .number kind _ => exact absurd on (not_goesOn_of_last rfl (by simp [kind]))
  | .string kind => exact absurd on (not_goesOn_of_last rfl (by simp [kind]))
  | .variable kind =>
    -- The name of a function and a parenthesis: both are used for the call.
    obtain ⟨l, head, opened, t, last, _, named⟩ := calls_of_goesOn on
    cases last
    obtain ⟨f, named⟩ := Option.isSome_iff_exists.mp named
    obtain ⟨inner, rfl⟩ := List.head?_eq_some_iff.mp head
    rw [expr, List.singleton_append, factor_call inner kind named opened, Reply.used_after,
      List.length_singleton]
    omega
  | .group (l := l) (r := c) (p := q) _ _ closed =>
    have last : (l :: (q ++ [c])).getLast? = some c := List.getLast?_concat (l := l :: q)
    exact absurd on (not_goesOn_of_last last (by simp [closed]))
  | .call (t := t) (l := l) (p := q) _ _ _ inner _ =>
    obtain ⟨c, last, closed⟩ := last_of_arguments inner
    have whole : (t :: l :: q).getLast? = some c := by
      rw [List.getLast?_cons, List.getLast?_cons, last]
      rfl
    exact absurd on (not_goesOn_of_last whole (by simp [closed]))
  | .product inner =>
    rw [expr]
    exact length_lt_used_operand .product inner on (length_lt_used inner) id
  | .sum inner =>
    rw [expr]
    exact length_lt_used_operand .sum inner on (length_lt_used inner) id
  | @Derives.operation _ op t p q left right kind binds first second =>
    -- Up to the operator the left operand is found; behind it stands an operand of the level.
    have behind := length_lt_used_operand level second (on.right (nonempty_of_derives second))
      (length_lt_used second) fun e => .arithmetic op left e
    rw [List.append_assoc, List.cons_append,
      expr_complete first _ (free_of_operator kind p _) (loose_of_operator kind binds _),
      operations_of_level _ _ kind binds, Reply.used_after, Reply.used_after]
    simp only [List.length_append, List.length_cons]
    omega

/-- The tokens an expression is found with derive it. -/
theorem derives_of_found {p r : List Token} {e : Expr}
    (found : (expression (p ++ r)).outcome = .found e)
    (used : (expression (p ++ r)).used = p.length) : Derives .sum p e := by
  obtain ⟨p', r', split, used', derived⟩ := expression_sound (p ++ r) e found
  obtain ⟨rfl, rfl⟩ := List.append_inj split (used.symm.trans used'.symm)
  exact derived

/-- An operation is found whether or not its operands stand in parentheses. -/
theorem operation_found {level : Level} {op : Operator} {t : Token} {p q p' q' r : List Token}
    {left right : Expr} (kind : t.kind = .symbol (.operator op)) (binds : op.level = level)
    (first : Derives level p left) (second : Derives level.tighter q right)
    (wrapped : Wrapped p p') (wrapped' : Wrapped q q') (closed : Closed r) (free : Free q' r) :
    expression (p' ++ t :: q' ++ r) = .found (.arithmetic op left right) (p' ++ t :: q').length := by
  have second' := derives_of_wrapped second wrapped'
  have derived := Derives.operation kind binds (derives_of_wrapped first wrapped) second'
  have whole : Free (p' ++ t :: q') r := (free_operation (nonempty_of_derives second')).mpr free
  exact expression_complete derived.asSum whole closed

end Parse

open Grammar Parse

/-- The parser finds an expression and stops behind just these tokens if and only if they derive it
and what follows cannot go on with it. Parentheses that only repeat how the operands of an operation
are read make no difference to it. -/
theorem expression_found_iff (p r : List Token) (e : Expr) :
    ((expression (p ++ r)).outcome = .found e ∧ (expression (p ++ r)).used = p.length ↔
      Derives .sum p e ∧ Closed r ∧ Free p r) ∧
    ∀ (op : Operator) (t : Token) (first second first' second' : List Token) (left right : Expr),
      t.kind = .symbol (.operator op) → Derives op.level first left →
      Derives op.level.tighter second right → Wrapped first first' → Wrapped second second' →
      Closed r → Free second' r →
      expression (first' ++ t :: second' ++ r) =
        .found (.arithmetic op left right) (first' ++ t :: second').length := by
  refine ⟨⟨?_, ?_⟩, ?_⟩
  · rintro ⟨found, used⟩
    have derived := derives_of_found found used
    have ends : ¬GoesOn .sum p r := fun on =>
      absurd (length_lt_used derived on) (Nat.not_lt.mpr (Nat.le_of_eq used))
    exact ⟨derived, closed_of_not_goesOn ends, free_of_not_goesOn ends⟩
  · rintro ⟨derived, closed, free⟩
    rw [expression_complete derived free closed]
    exact ⟨rfl, rfl⟩
  · intro op t first second first' second' left right kind derived derived' wrapped wrapped'
    exact operation_found kind rfl derived derived' wrapped wrapped'

/-- Differences group from the left, with or without parentheses that say so. -/
theorem expression_found_iff_of_differences :
    let word (name : String) : Token := ⟨.word, some name, .start⟩
    let minus : Token := ⟨.symbol (.operator .sub), none, .start⟩
    let lineEnd : Token := ⟨.endOfLine, none, .start⟩
    let left : Token := ⟨.symbol .leftParen, none, .start⟩
    let right : Token := ⟨.symbol .rightParen, none, .start⟩
    let e := Expr.arithmetic .sub (.arithmetic .sub (.variable ⟨"a"⟩) (.variable ⟨"b"⟩))
      (.variable ⟨"c"⟩)
    expression [word "a", minus, word "b", minus, word "c", lineEnd] = .found e 5 ∧
      expression [left, word "a", minus, word "b", right, minus, word "c", lineEnd] = .found e 7 := by
  intro word minus lineEnd left right e
  have named : ∀ name, Derives .product [word name] (.variable ⟨name⟩) := fun name =>
    .product (.variable (t := word name) rfl)
  have first : Derives .sum [word "a", minus, word "b"]
      (.arithmetic .sub (.variable ⟨"a"⟩) (.variable ⟨"b"⟩)) :=
    .operation (p := [word "a"]) (q := [word "b"]) rfl rfl (.sum (named "a")) (named "b")
  have closed : Closed [lineEnd] := by
    rintro _ ⟨⟩
    exact nofun
  have free : Free [word "c"] [lineEnd] := by
    rintro _ _ _ _ _ ⟨⟩
    exact nofun
  have grouped := fun p => (expression_found_iff [] [lineEnd] e).2 .sub minus
    [word "a", minus, word "b"] [word "c"] p [word "c"] _ _ rfl first (named "c")
  constructor
  · exact grouped _ .bare .bare closed free
  · exact grouped _ (.parens (l := left) (c := right) rfl .bare rfl) .bare closed free

end LabelBasic
