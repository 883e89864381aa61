import LabelBasic.Proofs.Conformance
import LabelBasic.Proofs.Grammar.Complete
import LabelBasic.Proofs.Outcome

/-!
# Typing of expressions

An expression is evaluated at a kind that its place asks for, and nothing is converted on the way.
The rules that say which expressions have a value of a kind are given here without regard to
evaluation. Evaluation agrees with them: its results are of the kind asked for, it never succeeds
against the rules, and what the rules allow never fails for its kinds.
-/
namespace LabelBasic

mutual

/-- The expression has values of the kind. -/
inductive WellTyped : Kind → Expr → Prop
  | literal {kind : Kind} {value : Value} (same : value.kind = kind) :
      WellTyped kind (.literal value)
  | variable {kind : Kind} {v : Ident} (same : v.kind = kind) : WellTyped kind (.variable v)
  | arithmetic {kind : Kind} {op : Operator} {left right : Expr}
      (joins : kind = .string → op = .add) (first : WellTyped kind left)
      (second : WellTyped kind right) : WellTyped kind (.arithmetic op left right)
  | call {kind : Kind} {f : Builtin} {es : List Expr} (same : f.returns = kind)
      (arguments : WellTypedArguments f.parameters es) : WellTyped kind (.call f es)

/-- Each argument has values of the kind its parameter is evaluated at. -/
inductive WellTypedArguments : List Parameter → List Expr → Prop
  | nil : WellTypedArguments [] []
  | cons {parameter : Parameter} {parameters : List Parameter} {e : Expr} {es : List Expr}
      (first : WellTyped (parameter.kindFor e) e) (rest : WellTypedArguments parameters es) :
      WellTypedArguments (parameter :: parameters) (e :: es)

end

theorem WellTyped.kind_eq {kind : Kind} {e : Expr} (typed : WellTyped kind e) : e.kind = kind := by
  induction e using Expr.ind generalizing kind with
  | literal value =>
    obtain ⟨same⟩ := typed
    exact same
  | named v =>
    obtain ⟨_⟩ | ⟨same⟩ := typed
    exact same
  | call f es _ =>
    cases typed with
    | call same _ => exact same
  | arithmetic op left right ih _ =>
    cases typed with
    | arithmetic _ first _ => exact ih first
  | comparison r left right _ _ => cases typed

/-- The errors of an evaluation that have nothing to do with kinds. -/
def Fault.IsOfValues (f : Fault) : Prop :=
  f.code ∈ [.undefinedVariable, .overflow, .divisionByZero, .illegalFunctionCall]

/-! ### Operators -/

theorem checked_gives (n : Int) : Gives (fun _ => True) Fault.IsOfValues (checked n) := by
  simp only [checked]
  split
  · trivial
  · simp [Gives, Fault.IsOfValues, Fault.code]

namespace Operator

theorem whole_gives (op : Operator) (m n : Int) :
    Gives (fun _ => True) Fault.IsOfValues (op.whole m n) := by
  cases op
  case div =>
    simp only [whole]
    split
    · simp [Gives, Fault.IsOfValues, Fault.code]
    · trivial
  all_goals trivial

theorem integer_gives (op : Operator) (m n : Int32) :
    Gives (fun _ => True) Fault.IsOfValues (op.integer m n) :=
  (whole_gives op _ _).bind fun r _ => checked_gives r

/-- Operands of a kind give a value of it, unless they are strings that cannot be joined. -/
theorem apply_gives {op : Operator} {kind : Kind} {x y : Value} (left : x.kind = kind)
    (right : y.kind = kind) (joins : kind = .string → op = .add) :
    Gives (fun z => z.kind = kind) Fault.IsOfValues (op.apply x y) := by
  subst left
  cases x <;> cases y <;> simp only [Value.kind, reduceCtorEq] at right joins
  case integer.integer m n => exact (integer_gives op m n).bind fun r _ => rfl
  case float.float => exact rfl
  case string.string =>
    obtain rfl := joins trivial
    exact rfl

theorem apply_strings {op : Operator} {x y : Value} (string : x.kind = .string)
    (other : op ≠ .add) : Gives (fun _ => False) (fun _ => True) (op.apply x y) := by
  cases x <;> simp only [Value.kind, reduceCtorEq] at string
  cases op
  case add => exact absurd rfl other
  all_goals cases y <;> trivial

end Operator

/-! ### Functions -/

theorem exists_string {x : Value} (string : x.kind = .string) : ∃ s, x = .string s := by
  cases x <;> simp only [Value.kind, reduceCtorEq] at string
  exact ⟨_, rfl⟩

theorem exists_integer {x : Value} (integer : x.kind = .integer) : ∃ n, x = .integer n := by
  cases x <;> simp only [Value.kind, reduceCtorEq] at integer
  exact ⟨_, rfl⟩

namespace Builtin

theorem length_of_accepts {f : Builtin} {kinds : List Kind} (fits : f.accepts kinds = true) :
    kinds.length = f.parameters.length := by
  simp only [accepts, Bool.and_eq_true, beq_iff_eq] at fits
  exact fits.1

theorem place_gives (s : String) (n : Int32) :
    Gives (fun _ => True) Fault.IsOfValues (place s n) := by
  simp only [place]
  split
  · trivial
  · simp [Gives, Fault.IsOfValues, Fault.code]

theorem leftOf_gives (s : String) (n : Int32) :
    Gives (fun _ => True) Fault.IsOfValues (leftOf s n) :=
  (place_gives s n).bind fun _ _ => trivial

theorem rightOf_gives (s : String) (n : Int32) :
    Gives (fun _ => True) Fault.IsOfValues (rightOf s n) :=
  (place_gives s n).bind fun _ _ => trivial

theorem midOf_gives (s : String) (m n : Int32) :
    Gives (fun _ => True) Fault.IsOfValues (midOf s m n) := by
  refine (place_gives s m).bind fun i _ => (place_gives s n).bind fun j _ => ?_
  split
  · show Fault.endBeforeStart.IsOfValues
    simp [Fault.IsOfValues, Fault.code]
  · trivial

theorem integerOf_gives (s : String) : Gives (fun _ => True) Fault.IsOfValues (integerOf s) := by
  simp only [integerOf]
  split
  · trivial
  · simp [Gives, Fault.IsOfValues, Fault.code]

theorem floatOf_gives (s : String) : Gives (fun _ => True) Fault.IsOfValues (floatOf s) := by
  simp only [floatOf]
  split
  · trivial
  · simp [Gives, Fault.IsOfValues, Fault.code]

theorem numeralOf_gives {x : Value} (number : x.kind ≠ .string) :
    Gives (fun _ => True) Fault.IsOfValues (numeralOf x) := by
  cases x
  case string => exact absurd rfl number
  all_goals trivial

/-- A function called with arguments of the kinds it takes. -/
theorem call_yields {f : Builtin} {xs : List Value} (fits : f.accepts (xs.map Value.kind) = true) :
    Yields (fun x => x.kind = f.returns) Fault.IsOfValues (f.call xs) := by
  cases f
  -- Only the generator is asked for, and it always gives a number.
  case random => exact Yields.bind (P := fun _ => True) (fun g => trivial) fun n _ => .pure rfl
  case num =>
    rcases xs with _ | ⟨x, _ | ⟨y, rest⟩⟩ <;>
      simp [accepts, parameters, Parameter.accepts] at fits
    have number : x.kind ≠ .string := by
      intro string
      simp [string] at fits
    exact .ofExcept ((numeralOf_gives number).bind fun _ _ => rfl)
  case mid =>
    rcases xs with _ | ⟨x, _ | ⟨y, _ | ⟨z, _ | ⟨w, rest⟩⟩⟩⟩ <;>
      simp [accepts, parameters, Parameter.accepts] at fits
    obtain ⟨s, rfl⟩ := exists_string fits.1
    obtain ⟨m, rfl⟩ := exists_integer fits.2.1
    obtain ⟨n, rfl⟩ := exists_integer fits.2.2
    exact .ofExcept ((midOf_gives s m n).bind fun _ _ => rfl)
  case val | valFloat =>
    rcases xs with _ | ⟨x, _ | ⟨y, rest⟩⟩ <;>
      simp [accepts, parameters, Parameter.accepts] at fits
    obtain ⟨s, rfl⟩ := exists_string fits
    first
    | exact .ofExcept ((integerOf_gives s).bind fun _ _ => rfl)
    | exact .ofExcept ((floatOf_gives s).bind fun _ _ => rfl)
  case left | right =>
    rcases xs with _ | ⟨x, _ | ⟨y, _ | ⟨z, rest⟩⟩⟩ <;>
      simp [accepts, parameters, Parameter.accepts] at fits
    obtain ⟨s, rfl⟩ := exists_string fits.1
    obtain ⟨n, rfl⟩ := exists_integer fits.2
    first
    | exact .ofExcept ((leftOf_gives s n).bind fun _ _ => rfl)
    | exact .ofExcept ((rightOf_gives s n).bind fun _ _ => rfl)

end Builtin

/-! ### Evaluation -/

section

variable {store : Store}

theorem fetch_gives (v : Ident) :
    Gives (fun x => x.kind = v.kind) Fault.IsOfValues (store.fetch v) := by
  simp only [Store.fetch]
  split
  next found => exact Store.kind_of_get? found
  next => simp [Gives, Fault.IsOfValues, Fault.code]

theorem evaluateArguments_yields {es : List Expr} {parameters : List Parameter}
    (each : ∀ e ∈ es, ∀ kind, WellTyped kind e →
      Yields (fun x => x.kind = kind) Fault.IsOfValues (evaluate store kind e))
    (typed : WellTypedArguments parameters es) :
    Yields (fun xs => xs.map Value.kind = es.map Expr.kind) Fault.IsOfValues
      (evaluateArguments store parameters es) := by
  induction es generalizing parameters with
  | nil =>
    rw [evaluateArguments]
    exact .pure rfl
  | cons e es ih =>
    cases typed with
    | cons first rest =>
      rw [evaluateArguments]
      -- The arguments are evaluated in turn, each at the kind of its parameter.
      refine (each e (by simp) _ first).bind fun x hx => ?_
      refine (ih (fun d member => each d (by simp [member])) rest).bind fun xs hxs => .pure ?_
      simp [hx, hxs, first.kind_eq]

/-- What is well typed at a kind has values of it, and fails for values alone. -/
theorem evaluate_yields {e : Expr} (conforms : e.Conforms) {kind : Kind}
    (typed : WellTyped kind e) :
    Yields (fun x => x.kind = kind) Fault.IsOfValues (evaluate store kind e) := by
  induction e using Expr.ind generalizing kind with
  | literal value =>
    cases typed with
    | literal same =>
      rw [evaluate, if_pos same]
      exact .pure same
  | named v =>
    obtain ⟨_⟩ | ⟨same⟩ := typed
    subst same
    rw [evaluate, if_pos rfl]
    exact .ofExcept (fetch_gives v)
  | call f es ih =>
    obtain ⟨⟩ | ⟨⟩ | ⟨fits, each⟩ | ⟨⟩ := conforms
    cases typed with
    | call same arguments =>
      subst same
      rw [evaluate, if_pos rfl]
      refine (evaluateArguments_yields (fun e member kind => ih e member (each e member))
        arguments).bind fun xs kinds => Builtin.call_yields ?_
      rw [kinds]
      exact fits
  | arithmetic op left right ihl ihr =>
    obtain ⟨⟩ | ⟨⟩ | ⟨⟩ | ⟨first, second⟩ := conforms
    cases typed with
    | arithmetic joins typedLeft typedRight =>
      rw [evaluate]
      refine (ihl first typedLeft).bind fun x hx => ?_
      refine (ihr second typedRight).bind fun y hy => ?_
      exact .ofExcept (Operator.apply_gives hx hy joins)
  | comparison r left right _ _ => cases typed

theorem evaluateArguments_fails {es : List Expr} {parameters : List Parameter}
    (each : ∀ e ∈ es, ∀ kind, ¬WellTyped kind e →
      Yields (fun _ => False) (fun _ => True) (evaluate store kind e))
    (long : es.length = parameters.length) (untyped : ¬WellTypedArguments parameters es) :
    Yields (fun _ => False) (fun _ => True) (evaluateArguments store parameters es) := by
  induction es generalizing parameters with
  | nil =>
    obtain rfl := List.length_eq_zero_iff.mp long.symm
    exact absurd .nil untyped
  | cons e es ih =>
    obtain ⟨parameter, more, rfl⟩ := List.exists_cons_of_length_eq_add_one long.symm
    rw [evaluateArguments]
    -- Either the first argument fails, or one of the others does.
    by_cases first : WellTyped (parameter.kindFor e) e
    · have rest : ¬WellTypedArguments more es := fun rest => untyped (.cons first rest)
      have fails := ih (fun d member => each d (by simp [member])) (by simpa using long) rest
      -- What the first argument gives is of no account here: the others fail after any value.
      refine Yields.bind (P := fun _ => True) ?_ fun _ _ => fails.bind fun _ none => none.elim
      intro g
      split <;> trivial
    · exact (each e (by simp) _ first).bind fun _ none => none.elim

/-- What is not well typed at a kind has no value there. -/
theorem evaluate_fails {e : Expr} (conforms : e.Conforms) {kind : Kind}
    (untyped : ¬WellTyped kind e) :
    Yields (fun _ => False) (fun _ => True) (evaluate store kind e) := by
  induction e using Expr.ind generalizing kind with
  | literal value =>
    have other : value.kind ≠ kind := fun same => untyped (.literal same)
    rw [evaluate, if_neg other]
    exact .throw trivial
  | named v =>
    have other : v.kind ≠ kind := fun same => untyped (.variable same)
    rw [evaluate, if_neg other]
    exact .throw trivial
  | call f es ih =>
    obtain ⟨⟩ | ⟨⟩ | ⟨fits, each⟩ | ⟨⟩ := conforms
    rw [evaluate]
    split
    next same =>
      subst same
      have long : es.length = f.parameters.length := by
        simpa using Builtin.length_of_accepts fits
      have arguments : ¬WellTypedArguments f.parameters es := fun typed => untyped (.call rfl typed)
      have fails : Yields (fun _ => False) (fun _ => True)
          (evaluateArguments store f.parameters es) :=
        evaluateArguments_fails (fun e member kind => ih e member (each e member)) long arguments
      exact fails.bind fun _ none => none.elim
    next => exact .throw trivial
  | arithmetic op left right ihl ihr =>
    obtain ⟨⟩ | ⟨⟩ | ⟨⟩ | ⟨first, second⟩ := conforms
    rw [evaluate]
    -- An operand that is not well typed fails. Where both are well typed, they are strings, and the
    -- operator is not `+`.
    by_cases typedLeft : WellTyped kind left
    · refine ((evaluate_yields first typedLeft).mono (fun _ => id) fun _ _ => trivial).bind ?_
      intro x hx
      by_cases typedRight : WellTyped kind right
      · have joins : ¬(kind = .string → op = .add) :=
          fun joins => untyped (.arithmetic joins typedLeft typedRight)
        obtain ⟨rfl, other⟩ := Classical.not_imp.mp joins
        refine ((evaluate_yields second typedRight).mono (fun _ => id) fun _ _ => trivial).bind ?_
        exact fun y _ => .ofExcept (Operator.apply_strings hx other)
      · exact (ihr second typedRight).bind fun _ none => none.elim
    · exact (ihl first typedLeft).bind fun _ none => none.elim
  | comparison r left right _ _ => cases conforms

end

/-- Evaluating what the parser produces is sound and complete for the rules: a value is of the kind
asked for, against the rules there is none, and under the rules only a value can be at fault. -/
theorem evaluate_respects_typing {level : Level} {tokens : List Token} {e : Expr}
    (produced : (Parse.expr level tokens).outcome = .found e) (kind : Kind) (store : Store)
    (g : Generator) :
    (∀ x g', evaluate store kind e g = .ok x g' → x.kind = kind ∧ e.kind = kind) ∧
    (¬WellTyped kind e → ∃ f g', evaluate store kind e g = .error f g') ∧
    (WellTyped kind e → ∀ f g', evaluate store kind e g = .error f g' →
      f.code ≠ .typeMismatch ∧
      f.code ∈ [.undefinedVariable, .overflow, .divisionByZero, .illegalFunctionCall]) := by
  have conforms := Parse.conforms_of_found produced
  refine ⟨?_, ?_, ?_⟩
  -- A value shows that the rules allow the expression, for otherwise there is none.
  · intro x g' evaluated
    by_cases typed : WellTyped kind e
    · exact ⟨(evaluate_yields conforms typed).of_ok evaluated, typed.kind_eq⟩
    · exact ((evaluate_fails conforms typed).of_ok evaluated).elim
  · intro untyped
    cases evaluated : evaluate store kind e g with
    | ok x g' => exact ((evaluate_fails conforms untyped).of_ok evaluated).elim
    | error f g' => exact ⟨f, g', rfl⟩
  · intro typed f g' failed
    have ofValues : f.IsOfValues := (evaluate_yields conforms typed).of_error failed
    refine ⟨?_, ofValues⟩
    intro mismatch
    simp [Fault.IsOfValues, mismatch] at ofValues

namespace Grammar

theorem derives_call_of_one {t l v r : Token} {f : Builtin} (kind : t.kind = .word)
    (named : Builtin.ofName? t.text = some f) (opened : l.kind = .symbol .leftParen)
    (argument : v.kind = .word) (shut : r.kind = .symbol .rightParen)
    (fits : f.accepts [Ident.kind ⟨v.text⟩] = true) :
    Derives .factor [t, l, v, r] (.call f [.variable ⟨v.text⟩]) :=
  .call kind named opened (.some (p := [v]) (.one (.sum (.product (.variable argument)))) shut) fits

theorem derives_call_of_two {t l v c w r : Token} {f : Builtin} (kind : t.kind = .word)
    (named : Builtin.ofName? t.text = some f) (opened : l.kind = .symbol .leftParen)
    (first : v.kind = .word) (comma : c.kind = .symbol .comma) (second : w.kind = .word)
    (shut : r.kind = .symbol .rightParen)
    (fits : f.accepts [Ident.kind ⟨v.text⟩, Ident.kind ⟨w.text⟩] = true) :
    Derives .factor [t, l, v, c, w, r] (.call f [.variable ⟨v.text⟩, .variable ⟨w.text⟩]) :=
  .call kind named opened (.some (p := [v, c, w]) (.more (p := [v])
    (.sum (.product (.variable first))) comma (.one (.sum (.product (.variable second))))) shut) fits

end Grammar

theorem evaluate_respects_typing_of_joined_strings :
    (Parse.expression (lex "left$(s$, n) + num$(x%)").tokens).outcome =
        .found (.arithmetic .add (.call .left [.variable ⟨"s$"⟩, .variable ⟨"n"⟩])
          (.call .num [.variable ⟨"x%"⟩])) ∧
      ∀ f g, evaluate .empty .string (.arithmetic .add
          (.call .left [.variable ⟨"s$"⟩, .variable ⟨"n"⟩]) (.call .num [.variable ⟨"x%"⟩]))
          (.ofSeed 0) = .error f g →
        f.code ≠ .typeMismatch ∧
        f.code ∈ [.undefinedVariable, .overflow, .divisionByZero, .illegalFunctionCall] := by
  have produced : (Parse.expression (lex "left$(s$, n) + num$(x%)").tokens).outcome =
      .found (.arithmetic .add (.call .left [.variable ⟨"s$"⟩, .variable ⟨"n"⟩])
        (.call .num [.variable ⟨"x%"⟩])) := by
    -- The parser is not evaluated: the tokens are, and what they derive is found.
    have tokens : (lex "left$(s$, n) + num$(x%)").tokens =
        [⟨.word, some "left$", ⟨1, 0⟩⟩, ⟨.symbol .leftParen, none, ⟨1, 5⟩⟩,
          ⟨.word, some "s$", ⟨1, 6⟩⟩, ⟨.symbol .comma, none, ⟨1, 8⟩⟩, ⟨.word, some "n", ⟨1, 10⟩⟩,
          ⟨.symbol .rightParen, none, ⟨1, 11⟩⟩, ⟨.symbol (.operator .add), none, ⟨1, 13⟩⟩,
          ⟨.word, some "num$", ⟨1, 15⟩⟩, ⟨.symbol .leftParen, none, ⟨1, 19⟩⟩,
          ⟨.word, some "x%", ⟨1, 20⟩⟩, ⟨.symbol .rightParen, none, ⟨1, 22⟩⟩] := by decide +kernel
    have derived : Grammar.Derives .sum (lex "left$(s$, n) + num$(x%)").tokens
        (.arithmetic .add (.call .left [.variable ⟨"s$"⟩, .variable ⟨"n"⟩])
          (.call .num [.variable ⟨"x%"⟩])) := by
      rw [tokens]
      exact .operation (p := [_, _, _, _, _, _]) rfl rfl
        (.sum (.product (Grammar.derives_call_of_two rfl (by decide +kernel) rfl rfl rfl rfl rfl
          (by decide))))
        (.product (Grammar.derives_call_of_one rfl (by decide +kernel) rfl rfl rfl (by decide)))
    have found := Parse.expression_complete derived (Grammar.free_nil _) nofun
    rw [List.append_nil] at found
    exact congrArg Reply.outcome found
  have left : WellTyped .string (.call .left [.variable ⟨"s$"⟩, .variable ⟨"n"⟩]) := by
    refine .call (f := .left) rfl (.cons (.variable ?_) (.cons (.variable ?_) .nil)) <;> decide
  have num : WellTyped .string (.call .num [.variable ⟨"x%"⟩]) :=
    .call (f := .num) rfl (.cons (.variable rfl) .nil)
  have typed := WellTyped.arithmetic (fun _ => rfl) left num
  exact ⟨produced, (evaluate_respects_typing produced .string .empty (.ofSeed 0)).2.2 typed⟩

end LabelBasic
