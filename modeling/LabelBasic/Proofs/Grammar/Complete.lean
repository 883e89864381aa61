import LabelBasic.Proofs.Grammar

/-!
# What is derived is found

A rule finds whatever the tokens in front derive, if what follows them cannot belong to it too. The
rules for expressions are greedy, so what follows must not go on with an operator, and no parenthesis
may stand behind a variable that has the name of a function.
-/
namespace LabelBasic

namespace Reply

variable {α β : Type}

theorem andThen_found (a : α) (n : Nat) (k : α → Nat → Reply β) :
    (found a n).andThen k = (k a n).after n := rfl

theorem after_found (a : α) (m n : Nat) : (found a n).after m = found a (m + n) := rfl

theorem after_after (r : Reply α) (m n : Nat) : (r.after n).after m = r.after (m + n) := by
  simp only [after, Nat.add_assoc]

theorem map_found (f : α → β) (a : α) (n : Nat) : (found a n).map f = found (f a) n := rfl

end Reply

namespace Rule

variable {α β : Type} {p r : List Token}

theorem bind_apply (rule : Rule α) (next : α → Rule β) (s : List Token) :
    (rule >>= next) s = (rule s).andThen fun a n => next a (s.drop n) := rfl

theorem pure_apply (a : α) (s : List Token) : (pure a : Rule α) s = .found a 0 := rfl

theorem bind_found {rule : Rule α} {next : α → Rule β} {a : α}
    (found : rule (p ++ r) = .found a p.length) :
    (rule >>= next) (p ++ r) = (next a r).after p.length := by
  change (rule (p ++ r)).andThen (fun a n => next a ((p ++ r).drop n)) = _
  rw [found, Reply.andThen_found, List.drop_left]

section

variable {t : Token} {kind : Token.Kind} {next : Token → Rule β}

theorem token_found (same : t.kind = kind) (r : List Token) :
    (token kind >>= next) (t :: r) = (next t r).after 1 :=
  bind_found (p := [t]) (if_pos same)

theorem expect_found {fault : SyntaxFault} (same : t.kind = kind) (r : List Token) :
    (expect kind fault >>= next) (t :: r) = (next t r).after 1 :=
  bind_found (p := [t]) (if_pos same)

end

end Rule

namespace Grammar

/-- What follows the tokens does not make a call of the variable they end with. -/
def Free (p r : List Token) : Prop :=
  ∀ t ∈ p.getLast?, t.kind = .word → (Builtin.ofName? t.text).isSome →
    ∀ l ∈ r.head?, l.kind ≠ .symbol .leftParen

/-- What follows does not go on with an operator that holds tighter than the level. -/
def Loose (level : Level) (r : List Token) : Prop :=
  ∀ t ∈ r.head?, ∀ op, t.kind = .symbol (.operator op) → level = .sum → op.level = .sum

/-- What follows does not go on with an operator. -/
def Closed (r : List Token) : Prop := ∀ t ∈ r.head?, ∀ op, t.kind ≠ .symbol (.operator op)

theorem Closed.loose {r : List Token} (closed : Closed r) (level : Level) : Loose level r :=
  fun t head op kind => absurd kind (closed t head op)

/-- The token belongs neither to what is in front of it nor to what follows it. -/
def Parts (t : Token) : Prop :=
  t.kind ≠ .symbol .leftParen ∧ ∀ op, t.kind ≠ .symbol (.operator op)

theorem Parts.free {t : Token} (parts : Parts t) (p r : List Token) : Free p (t :: r) := by
  rintro _ _ _ _ _ ⟨⟩
  exact parts.1

theorem Parts.closed {t : Token} (parts : Parts t) (r : List Token) : Closed (t :: r) := by
  rintro _ ⟨⟩
  exact parts.2

section

variable {t : Token} {op : Operator} (kind : t.kind = .symbol (.operator op))

include kind

/-- An operator makes no call of what is in front of it. -/
theorem free_of_operator (p r : List Token) : Free p (t :: r) := by
  rintro _ _ _ _ _ ⟨⟩
  simp [kind]

/-- An operator is the tightest that an operand of its own level has to leave. -/
theorem loose_of_operator {level : Level} (binds : op.level = level) (r : List Token) :
    Loose level (t :: r) := by
  rintro _ ⟨⟩ op' kind' rfl
  obtain rfl : op = op' := by simpa [kind] using kind'
  exact binds

end

/-- What follows is nothing, or a line end. -/
def Ends (r : List Token) : Prop := ∀ t ∈ r.head?, t.kind = .endOfLine

theorem Ends.ne {r : List Token} (ends : Ends r) {kind : Token.Kind} (other : kind ≠ .endOfLine) :
    ∀ t ∈ r.head?, t.kind ≠ kind :=
  fun t head same => other (same.symm.trans (ends t head))

theorem Ends.closed {r : List Token} (ends : Ends r) : Closed r := by
  intro t head op
  simp [ends t head]

theorem Ends.free {r : List Token} (ends : Ends r) (p : List Token) : Free p r := by
  intro _ _ _ _ l head
  simp [ends l head]

theorem free_nil (p : List Token) : Free p [] := by
  rintro t _ _ _ l ⟨⟩

/-- The token can start an expression. -/
def Starts (t : Token) : Prop :=
  t.kind = .word ∨ t.kind = .number ∨ t.kind = .string ∨ t.kind = .symbol .leftParen

theorem starts_of_derives {level : Level} {p : List Token} {e : Expr}
    (derived : Derives level p e) : ∃ t q, p = t :: q ∧ Starts t := by
  match derived with
  | .number kind _ => exact ⟨_, _, rfl, .inr (.inl kind)⟩
  | .string kind => exact ⟨_, _, rfl, .inr (.inr (.inl kind))⟩
  | .variable kind => exact ⟨_, _, rfl, .inl kind⟩
  | .group opened _ _ => exact ⟨_, _, rfl, .inr (.inr (.inr opened))⟩
  | .call kind _ _ _ _ => exact ⟨_, _, rfl, .inl kind⟩
  | .product inner => exact starts_of_derives inner
  | .sum inner => exact starts_of_derives inner
  | .operation _ _ first _ =>
    obtain ⟨t, q, rfl, starts⟩ := starts_of_derives first
    exact ⟨t, _, rfl, starts⟩

theorem starts_of_list {p : List Token} {es : List Expr} (derived : DerivesList p es) :
    ∃ t q, p = t :: q ∧ Starts t := by
  cases derived with
  | one inner => exact starts_of_derives inner
  | more inner _ _ =>
    obtain ⟨t, q, rfl, starts⟩ := starts_of_derives inner
    exact ⟨t, _, rfl, starts⟩

theorem nonempty_of_derives {level : Level} {p : List Token} {e : Expr}
    (derived : Derives level p e) : p ≠ [] := by
  obtain ⟨t, q, rfl, _⟩ := starts_of_derives derived
  exact List.cons_ne_nil t q

theorem nonempty_of_list {p : List Token} {es : List Expr} (derived : DerivesList p es) :
    p ≠ [] := by
  obtain ⟨t, q, rfl, _⟩ := starts_of_list derived
  exact List.cons_ne_nil t q

/-- The last token of an operation is that of its right operand. -/
theorem getLast?_operation (p : List Token) (t : Token) {q : List Token} (nonempty : q ≠ []) :
    (p ++ t :: q).getLast? = q.getLast? := by
  obtain ⟨u, more, rfl⟩ := List.exists_cons_of_ne_nil nonempty
  simp [List.getLast?_cons]

theorem free_operation {p q r : List Token} {t : Token} (nonempty : q ≠ []) :
    Free (p ++ t :: q) r ↔ Free q r := by
  simp only [Free, getLast?_operation p t nonempty]

theorem Free.right {p q r : List Token} {t : Token} (nonempty : q ≠ [])
    (free : Free (p ++ t :: q) r) : Free q r :=
  (free_operation nonempty).mp free

end Grammar

namespace Parse

open Grammar

theorem operations_closed {level : Level} {e : Expr} {r : List Token} (closed : Closed r) :
    operations level e r = .found e 0 :=
  operations_done fun t head op kind => absurd kind (closed t head op)

/-- No operator joins factors without making a product of them. -/
theorem operations_factor (e : Expr) (r : List Token) : operations .factor e r = .found e 0 := by
  refine operations_done fun t head op kind => ?_
  -- Each operator has a level of its own, and none has that of factors.
  cases op <;> decide

theorem operations_tighter {level : Level} {e : Expr} {r : List Token} (loose : Loose level r) :
    operations level.tighter e r = .found e 0 := by
  cases level with
  | sum =>
    refine operations_done fun t head op kind => ?_
    rw [loose t head op kind rfl]
    decide
  | product => exact operations_factor e r
  | factor => exact operations_factor e r

/-- Where no operator follows, the expression is all that is found. -/
theorem found_of_closed {level : Level} {e : Expr} {p r : List Token}
    (found : expr level (p ++ r) = (operations level e r).after p.length) (closed : Closed r) :
    expr level (p ++ r) = .found e p.length := by
  rwa [operations_closed closed, Reply.after_found] at found

mutual

/-- The expression is found, and then the operations behind it. -/
theorem expr_complete {level : Level} {p : List Token} {e : Expr} (derived : Derives level p e)
    (r : List Token) (free : Free p r) (loose : Loose level r) :
    expr level (p ++ r) = (operations level e r).after p.length := by
  match derived with
  -- A literal or a variable is one token, with nothing behind it to go on with.
  | .number kind read =>
    rw [expr, List.singleton_append, factor_number r kind read, operations_factor]
    rfl
  | .string kind =>
    rw [expr, List.singleton_append, factor_string r kind, operations_factor]
    rfl
  | .variable kind =>
    rw [expr, List.singleton_append, factor_variable kind (free _ rfl kind), operations_factor]
    rfl
  | .group (r := c) (p := p) opened inner shut =>
    have parts : Parts c := by simp [Parts, shut]
    have closed := parts.closed r
    have found := found_of_closed
      (expr_complete inner (c :: r) (parts.free _ _) (closed.loose _)) closed
    -- The parenthesis is in the tokens behind the inner expression, at the front of what is left.
    rw [expr, List.cons_append, List.append_assoc, List.singleton_append, factor_group _ opened,
      found, Reply.andThen_found, List.drop_left, operations_factor]
    obtain ⟨_, text, place⟩ := c
    cases shut
    simp only [Reply.after_found, List.length_cons, List.length_append, List.length_nil]
    congr 1
    omega
  | .call (p := p) kind named opened inner fits =>
    rw [expr, List.cons_append, List.cons_append, factor_call _ kind named opened, call,
      arguments_complete inner r, operations_factor, Reply.andThen_found, if_pos fits]
    simp only [Reply.after_found, List.length_cons]
    congr 1
    omega
  | .product inner =>
    rw [expr, expr_complete inner r free (fun _ _ _ _ => nofun), operations_factor,
      Reply.after_found, Reply.andThen_found, Nat.add_zero, List.drop_left]
  | .sum inner =>
    -- The product has used the operators of its own level, so the sum finds none of them.
    have tighter : operations .product e r = .found e 0 := operations_tighter loose
    rw [expr, expr_complete inner r free (fun _ _ _ _ => nofun), tighter,
      Reply.after_found, Reply.andThen_found, Nat.add_zero, List.drop_left]
  | @Derives.operation _ op t p q _ _ kind binds first second =>
    -- The operator ends the left operand; behind the right operand no operator of a tighter level
    -- follows.
    have left := expr_complete first (t :: (q ++ r)) (free_of_operator kind p _)
      (loose_of_operator kind binds _)
    have behind : Loose level.tighter r := by
      intro u head op' kind' same
      cases level <;> cases same
    rw [List.append_assoc, List.cons_append, left, operations_of_level _ _ kind binds,
      expr_complete second r (free.right (nonempty_of_derives second)) behind,
      operations_tighter loose, Reply.after_found, Reply.andThen_found, Nat.add_zero, List.drop_left]
    simp only [Reply.after_after, List.length_append, List.length_cons]
    congr 1
    omega

theorem arguments_complete {p : List Token} {es : List Expr} (derived : DerivesArguments p es)
    (r : List Token) : arguments (p ++ r) = .found es p.length := by
  match derived with
  | .none closed =>
    rw [arguments, if_pos (by simp [closed])]
    rfl
  | .some (r := c) (p := p) inner shut =>
    have found := argumentList_complete inner shut r
    -- No expression starts with a closing parenthesis, so the list is not taken for an empty one.
    have other : (p ++ [c] ++ r).head?.map Token.kind ≠ some (.symbol .rightParen) := by
      obtain ⟨t, q, rfl, starts⟩ := starts_of_list inner
      rcases starts with kind | kind | kind | kind <;> simp [kind]
    rw [arguments, if_neg other, List.append_assoc, List.singleton_append, found]
    simp

theorem argumentList_complete {p : List Token} {es : List Expr} (derived : DerivesList p es)
    {c : Token} (shut : c.kind = .symbol .rightParen) (r : List Token) :
    argumentList (p ++ c :: r) = .found es (p.length + 1) := by
  match derived with
  | .one inner =>
    have parts : Parts c := by simp [Parts, shut]
    have closed := parts.closed r
    have found := found_of_closed
      (expr_complete inner (c :: r) (parts.free _ _) (closed.loose _)) closed
    rw [argumentList, found, Reply.andThen_found]
    split
    next after =>
      rw [List.drop_left] at after
      cases after
      cases shut
    next after =>
      rw [Reply.after_found]
    next none =>
      obtain ⟨_, text, place⟩ := c
      cases shut
      exact absurd (List.drop_left ..) (none text place r)
  -- The comma leaves only the branch that reads on.
  | .more (c := d) (q := q) inner comma rest =>
    have parts : Parts d := by simp [Parts, comma]
    have closed := parts.closed (q ++ c :: r)
    have found := found_of_closed
      (expr_complete inner (d :: (q ++ c :: r)) (parts.free _ _) (closed.loose _)) closed
    have more := argumentList_complete rest shut r
    rw [List.append_assoc, List.cons_append, argumentList, found, Reply.andThen_found]
    split
    next after =>
      rw [List.drop_left] at after
      cases after
      rw [more, Reply.map_found, Reply.after_found, Reply.after_found]
      simp only [List.length_append, List.length_cons]
      congr 1
      omega
    next after =>
      rw [List.drop_left] at after
      cases after
      cases comma
    next none _ =>
      obtain ⟨_, text, place⟩ := d
      cases comma
      exact absurd (List.drop_left ..) (none text place _)

end

section

variable {p r : List Token}

theorem expression_complete {e : Expr} (derived : Derives .sum p e) (free : Free p r)
    (closed : Closed r) : expression (p ++ r) = .found e p.length :=
  found_of_closed (expr_complete derived r free (closed.loose _)) closed

/-- A token that parts ends the expression in front of it. -/
theorem expression_before {e : Expr} {t : Token} (derived : Derives .sum p e) (parts : Parts t)
    (r : List Token) : expression (p ++ t :: r) = .found e p.length :=
  expression_complete derived (parts.free _ _) (parts.closed _)

theorem expressionList_complete {es : List Expr} (derived : DerivesList p es) (free : Free p r)
    (closed : Closed r) (last : ∀ t ∈ r.head?, t.kind ≠ .symbol .comma) :
    expressionList (p ++ r) = .found es p.length := by
  induction es generalizing p with
  | nil => cases derived
  | cons e es ih =>
    cases derived with
    | one inner =>
      -- A comma behind the last expression would make the list go on.
      rw [expressionList, expression_complete inner free closed, Reply.andThen_found]
      split
      next after =>
        rw [List.drop_left] at after
        exact absurd rfl (last _ (by rw [after]; rfl))
      next => rfl
    | more inner comma rest =>
      rename_i d p q
      have parts : Parts d := by simp [Parts, comma]
      have more := ih rest (free.right (nonempty_of_list rest))
      rw [List.append_assoc, List.cons_append, expressionList, expression_before inner parts,
        Reply.andThen_found]
      split
      next after =>
        rw [List.drop_left] at after
        cases after
        rw [more, Reply.map_found, Reply.after_found, Reply.after_found]
        simp only [List.length_append, List.length_cons]
        congr 1
        omega
      next none =>
        obtain ⟨_, text, place⟩ := d
        cases comma
        exact absurd (List.drop_left ..) (none text place _)

theorem tokenList_complete {α : Type} {item : Token → Outcome α} {D : Token → α → Prop} {as : List α}
    (reads : ∀ t a, D t a → item t = .found a) (derived : DerivesItems D p as)
    (last : ∀ t ∈ r.head?, t.kind ≠ .symbol .comma) :
    Rule.tokenList item (p ++ r) = .found as p.length := by
  induction derived with
  | one first =>
    rw [List.singleton_append, Rule.tokenList.eq_def]
    simp only [reads _ _ first]
    cases r with
    | nil => rfl
    | cons c more => exact if_neg (last c rfl)
  | more first comma rest ih =>
    rw [List.cons_append, List.cons_append, Rule.tokenList]
    simp only [reads _ _ first, if_pos comma, ih, Reply.map_found, Reply.after_found]
    simp only [List.length_cons]
    congr 1
    omega

theorem comparison_complete {e : Expr} (derived : DerivesComparison p e) (free : Free p r)
    (closed : Closed r) : comparison (p ++ r) = .found e p.length := by
  obtain @⟨relation, t, p, q, left, right, first, kind, second⟩ := derived
  have parts : Parts t := by simp [Parts, kind]
  have behind := expression_complete second (free.right (nonempty_of_derives second)) closed
  obtain ⟨_, text, place⟩ := t
  cases kind
  rw [List.append_assoc, List.cons_append]
  simp only [comparison]
  rw [Rule.bind_found (expression_before first parts _)]
  change Reply.after p.length (Reply.after 1 ((do
    let right ← expression
    pure (Expr.comparison relation left right)) (q ++ r))) = _
  rw [Rule.bind_found behind]
  change Reply.after p.length (Reply.after 1 (Reply.after q.length (Reply.found _ 0))) = _
  simp only [Reply.after_found, List.length_append, List.length_cons]
  congr 1
  omega

end

/-! ### Commands at the end of a line -/

theorem command_assignment {t : Token} (kind : t.kind = .word) (rest : List Token) :
    command t rest = (assignment ⟨t.text⟩ rest).after 1 := by
  simp only [command]
  rw [kind]

theorem command_keyword {t : Token} {k : Keyword} {rule : Rule Command}
    (kind : t.kind = .keyword k) (chosen : ofKeyword k = some rule) (rest : List Token) :
    command t rest = (rule rest).after 1 := by
  simp only [command]
  rw [kind]
  simp only [chosen]

theorem printItems_eq (s : List Token) : printItems s = (expressionList s).map .print := rfl

theorem dataItems_eq (s : List Token) :
    dataItems s = (Rule.tokenList literalItem s).map .data := rfl

theorem readTargets_eq (s : List Token) :
    readTargets s = (Rule.tokenList identifierItem s).map .read := rfl

theorem inputVariables_eq (prompt : List Expr) (s : List Token) :
    inputVariables prompt s = (Rule.tokenList identifierItem s).map fun vs =>
      .input (prompt ++ vs.map .variable) := rfl

theorem labelName_found {t : Token} (kind : t.kind = .word) (r : List Token) :
    labelName (t :: r) = .found t.text 1 := by
  rw [labelName, Rule.token_found kind]
  rfl

theorem identifierItem_found {t : Token} {v : Ident} (names : Names t v) :
    identifierItem t = .found v := by
  obtain ⟨kind, rfl⟩ := names
  simp [identifierItem, kind]

theorem literalItem_found {t : Token} {e : Expr} (denotes : Denotes t e) :
    literalItem t = .found e := by
  obtain ⟨value, rfl, ⟨kind, rfl⟩ | ⟨kind, read⟩⟩ := denotes
  · simp [literalItem, kind]
  · simp [literalItem, kind, read]

section

variable {r : List Token} (ends : Ends r)

include ends

theorem inputVariables_complete {p : List Token} {vs : List Ident}
    (derived : DerivesItems Names p vs) (prompt : List Expr) :
    inputVariables prompt (p ++ r) = .found (.input (prompt ++ vs.map .variable)) p.length := by
  have found : Rule.tokenList identifierItem (p ++ r) = .found vs p.length :=
    tokenList_complete (fun _ _ => identifierItem_found) derived (ends.ne nofun)
  rw [inputVariables_eq, found, Reply.map_found]

theorem inputItems_complete {p : List Token} {vs : List Ident} (derived : DerivesItems Names p vs) :
    inputItems (p ++ r) = .found (.input (vs.map .variable)) p.length := by
  have found := inputVariables_complete ends derived []
  -- The first token is a name, so it is not taken for a prompt.
  have first : ∃ t q, p = t :: q ∧ t.kind = .word := by
    cases derived with
    | one names => exact ⟨_, _, rfl, names.1⟩
    | more names _ _ => exact ⟨_, _, rfl, names.1⟩
  obtain ⟨⟨_, text, place⟩, q, rfl, rfl⟩ := first
  exact found

theorem prompt_complete {t : Token} (kind : t.kind = .string) :
    inputItems (t :: r) = .found (.input [.literal (.string t.text)]) 1 := by
  obtain ⟨_, text, place⟩ := t
  cases kind
  simp only [inputItems]
  split
  next heq =>
    cases heq
    exact absurd (ends _ rfl) nofun
  next _ heq =>
    cases heq
    rfl
  next none => exact absurd rfl (none text place r)

theorem promptedInput_complete {t c : Token} {p : List Token} {vs : List Ident}
    (kind : t.kind = .string) (comma : c.kind = .symbol .comma)
    (derived : DerivesItems Names p vs) : inputItems (t :: c :: (p ++ r)) =
      .found (.input (.literal (.string t.text) :: vs.map .variable)) (p.length + 2) := by
  have found := inputVariables_complete ends derived [.literal (.string t.text)]
  obtain ⟨_, text, place⟩ := t
  obtain ⟨_, text', place'⟩ := c
  cases kind
  cases comma
  unfold inputItems
  dsimp only
  rw [found, Reply.after_found, Nat.add_comm]
  rfl

theorem nextVariable_absent : nextVariable r = .found (.next none) 0 := by
  simp only [nextVariable]
  split
  next => exact absurd (ends _ rfl) nofun
  next => rfl

omit ends in
theorem nextVariable_found {t : Token} (kind : t.kind = .word) :
    nextVariable (t :: r) = .found (.next (some ⟨t.text⟩)) 1 := by
  obtain ⟨_, text, place⟩ := t
  cases kind
  rfl

section

variable {t s till : Token} {p q : List Token} {first last : Expr} (kind : t.kind = .word)
  (equals : s.kind = .symbol (.relation .equal)) (lower : Derives .sum p first)
  (upTo : till.kind = .keyword .TO) (upper : Derives .sum q last)

include kind equals lower upTo upper

omit ends in
/-- The part of FOR that all loops have. -/
theorem loopBounds_front (rest : List Token) (free : Free q rest) (closed : Closed rest) :
    loopBounds (t :: s :: (p ++ till :: (q ++ rest))) =
      Reply.after (p.length + q.length + 3) ((do
        if ← Rule.accept (.keyword .STEP) then
          let step ← expression
          pure (.loop ⟨t.text⟩ first last step)
        else pure (.loop ⟨t.text⟩ first last (.literal (.integer 1))) : Rule Command) rest) := by
  have named : identifier ([t] ++ s :: (p ++ till :: (q ++ rest))) = .found ⟨t.text⟩ 1 := by
    rw [List.singleton_append, identifier, Rule.token_found kind]
    rfl
  have before := expression_before lower (t := till) (by simp [Parts, upTo]) (q ++ rest)
  have behind := expression_complete upper free closed
  rw [← List.singleton_append, loopBounds, Rule.bind_found named, Rule.expect_found equals,
    Rule.bind_found before, Rule.token_found upTo, Rule.bind_found behind]
  simp only [Reply.after_after, List.length_singleton]
  congr 1
  omega

theorem loopBounds_complete : loopBounds (t :: s :: (p ++ till :: (q ++ r))) =
    .found (.loop ⟨t.text⟩ first last (.literal (.integer 1))) (p.length + q.length + 3) := by
  -- What ends the line is not STEP.
  have noStep : Rule.accept (.keyword .STEP) r = .found false 0 := by
    cases r with
    | nil => rfl
    | cons u more => exact if_neg (by simp [ends u rfl])
  rw [loopBounds_front kind equals lower upTo upper r (ends.free _) ends.closed, Rule.bind_apply,
    noStep, Reply.andThen_found]
  rfl

theorem loopStep_complete {u : Token} {w : List Token} {step : Expr}
    (stepped : u.kind = .keyword .STEP) (increment : Derives .sum w step) :
    loopBounds (t :: s :: (p ++ till :: (q ++ u :: (w ++ r)))) =
      .found (.loop ⟨t.text⟩ first last step) (p.length + q.length + w.length + 4) := by
  have parts : Parts u := by simp [Parts, stepped]
  have front := loopBounds_front kind equals lower upTo upper (u :: (w ++ r)) (parts.free _ _)
    (parts.closed _)
  have found := expression_complete increment (ends.free _) ends.closed
  have step_ : Rule.accept (.keyword .STEP) ([u] ++ (w ++ r)) = .found true 1 := if_pos stepped
  rw [front, ← List.singleton_append, Rule.bind_found step_, if_pos rfl, Rule.bind_found found,
    Rule.pure_apply]
  simp only [Reply.after_found, List.length_singleton]
  congr 1
  omega

end

omit ends in
theorem branchTarget_complete {u t : Token} {p : List Token} {e : Expr}
    (condition : DerivesComparison p e) (consequent : u.kind = .keyword .THEN)
    (kind : t.kind = .word) :
    branchTarget (p ++ u :: t :: r) = .found (.branch e t.text) (p.length + 2) := by
  have parts : Parts u := by simp [Parts, consequent]
  have found := comparison_complete condition (parts.free _ (t :: r)) (parts.closed _)
  have named : labelName ([t] ++ r) = .found t.text 1 := labelName_found kind r
  rw [branchTarget, Rule.bind_found found, Rule.token_found consequent, ← List.singleton_append,
    Rule.bind_found named, Rule.pure_apply]
  rfl

omit ends in
theorem whileTarget_complete {t : Token} {p : List Token} {e : Expr}
    (condition : DerivesComparison p e) (kind : t.kind = .word) :
    whileTarget (p ++ t :: r) = .found (.whileLoop e t.text) (p.length + 1) := by
  have parts : Parts t := by simp [Parts, kind]
  have found := comparison_complete condition (parts.free _ r) (parts.closed _)
  have named : labelName ([t] ++ r) = .found t.text 1 := labelName_found kind r
  rw [whileTarget, Rule.bind_found found, ← List.singleton_append, Rule.bind_found named,
    Rule.pure_apply]
  rfl

omit ends in
/-- A command starts with a word. -/
theorem command_first {t : Token} {p : List Token} {c : Command}
    (derived : DerivesCommand (t :: p) c) : t.kind ≠ .label ∧ t.kind ≠ .endOfLine := by
  cases derived with
  | assign kind => simp [kind]
  | _ keyword => simp [keyword]

omit ends in
/-- No statement starts with a line end. -/
theorem statement_separators {p : List Token} {s : Statement} (derived : DerivesStatement p s)
    (r : List Token) : separators (p ++ r) = 0 := by
  cases derived with
  | command inner => simp [separators, (command_first inner).2]
  | label kind _ => simp [separators, kind]

/-- Before a line end a command is found with the tokens that derive it. RETURN also takes the line
ends. -/
theorem command_complete {t : Token} {p : List Token} {c : Command}
    (derived : DerivesCommand (t :: p) c) :
    ∃ k ≤ separators r, command t (p ++ r) = .found c (p.length + 1 + k) := by
  -- All but RETURN use exactly their tokens.
  suffices found : c = .ret ∧ p = [] ∧ t.kind = .keyword .RETURN ∨
      command t (p ++ r) = .found c (1 + p.length) by
    rcases found with ⟨rfl, rfl, kind⟩ | found
    · refine ⟨separators r, Nat.le_refl _, ?_⟩
      -- RETURN is found where its line ends, and then the line ends are used too.
      have atEnd : separators r ≠ 0 ∨ r = [] := by
        cases r with
        | nil => exact .inr rfl
        | cons u more => exact .inl (by simp [separators, ends u rfl])
      rw [command_keyword kind rfl, List.nil_append, returnEnd, if_pos atEnd, Reply.after_found]
      rfl
    · exact ⟨0, Nat.zero_le _, by rw [found, Nat.add_comm 1, Nat.add_zero]⟩
  cases derived with
  | assign kind equals value =>
    right
    have found := expression_complete value (ends.free _) ends.closed
    rw [command_assignment kind, List.cons_append, assignment, Rule.expect_found equals,
      Rule.bind_found found, Rule.pure_apply]
    simp only [Reply.after_found, List.length_cons, Nat.add_comm, Nat.add_zero]
  | print keyword items =>
    right
    have found := expressionList_complete items (ends.free _) ends.closed (ends.ne nofun)
    rw [command_keyword keyword rfl, printItems_eq, found, Reply.map_found, Reply.after_found]
  | data keyword items =>
    right
    have found : Rule.tokenList literalItem (p ++ r) = .found _ p.length :=
      tokenList_complete (fun _ _ => literalItem_found) items (ends.ne nofun)
    rw [command_keyword keyword rfl, dataItems_eq, found, Reply.map_found, Reply.after_found]
  | read keyword targets =>
    right
    have found : Rule.tokenList identifierItem (p ++ r) = .found _ p.length :=
      tokenList_complete (fun _ _ => identifierItem_found) targets (ends.ne nofun)
    rw [command_keyword keyword rfl, readTargets_eq, found, Reply.map_found, Reply.after_found]
  | input keyword targets =>
    right
    rw [command_keyword keyword rfl, inputItems_complete ends targets, Reply.after_found]
  | prompt keyword kind =>
    right
    rw [command_keyword keyword rfl, List.singleton_append, prompt_complete ends kind]
    rfl
  | promptedInput keyword kind comma targets =>
    right
    rw [command_keyword keyword rfl, List.cons_append, List.cons_append,
      promptedInput_complete ends kind comma targets, Reply.after_found]
    rfl
  | gosub keyword kind =>
    right
    have named : labelName ([_] ++ r) = .found _ 1 := labelName_found kind r
    rw [command_keyword keyword rfl, gosubLabel, Rule.bind_found named, Rule.pure_apply]
    rfl
  | ret keyword => exact .inl ⟨rfl, rfl, keyword⟩
  | stop keyword =>
    right
    rw [command_keyword keyword rfl, Rule.pure_apply]
    rfl
  | loop keyword kind equals lower upTo upper =>
    right
    simp only [List.cons_append, List.append_assoc]
    rw [command_keyword keyword rfl, loopBounds_complete ends kind equals lower upTo upper,
      Reply.after_found]
    simp only [List.length_append, List.length_cons]
    rfl
  | loopStep keyword kind equals lower upTo upper stepped increment =>
    right
    simp only [List.cons_append, List.append_assoc]
    rw [command_keyword keyword rfl,
      loopStep_complete ends kind equals lower upTo upper stepped increment, Reply.after_found]
    simp only [List.length_append, List.length_cons]
    congr 1
    omega
  | next keyword =>
    right
    rw [command_keyword keyword rfl, List.nil_append, nextVariable_absent ends]
    rfl
  | nextOf keyword kind =>
    right
    rw [command_keyword keyword rfl, List.singleton_append, nextVariable_found kind,
      Reply.after_found]
    rfl
  | branch keyword condition consequent kind =>
    right
    rw [command_keyword keyword rfl, List.append_assoc, List.cons_append, List.cons_append,
      List.nil_append, branchTarget_complete condition consequent kind, Reply.after_found,
      List.length_append]
    rfl
  | whileLoop keyword condition kind =>
    right
    rw [command_keyword keyword rfl, List.append_assoc, List.cons_append, List.nil_append,
      whileTarget_complete condition kind, Reply.after_found, List.length_append]
    rfl

/-- Labels in front are found with the statement. -/
theorem statement_complete {p : List Token} {s : Statement} (derived : DerivesStatement p s) :
    ∃ k ≤ separators r, statement (p ++ r) = .found s (p.length + k) := by
  induction derived with
  | command inner =>
    rename_i t p c
    obtain ⟨k, bound, found⟩ := command_complete ends inner
    have unlabeled : t.kind ≠ .label := (command_first inner).1
    refine ⟨k, bound, ?_⟩
    rw [List.cons_append, statement, if_neg unlabeled, found, Reply.map_found]
    rfl
  | label kind inner ih =>
    obtain ⟨k, bound, found⟩ := ih
    refine ⟨k, bound, ?_⟩
    rw [List.cons_append, statement, if_pos kind, found, Reply.map_found, Reply.after_found]
    simp only [List.length_cons]
    congr 1
    omega

end

/-! ### Programs -/

theorem separators_cons {t : Token} (lineEnd : t.kind = .endOfLine) (s : List Token) :
    separators (t :: s) = separators s + 1 := by
  simp [separators, lineEnd]

theorem separators_cons_of_plain {t : Token} (plain : t.kind ≠ .endOfLine) (s : List Token) :
    separators (t :: s) = 0 := by
  simp [separators, plain]

theorem separators_drop {r : List Token} {k : Nat} (bound : k ≤ separators r) :
    separators (r.drop k) = separators r - k := by
  induction k generalizing r with
  | zero => rfl
  | succ k ih =>
    cases r with
    | nil => simp [separators] at bound
    | cons t r =>
      by_cases kind : t.kind = .endOfLine
      -- A line end that is dropped is one separator less.
      · rw [separators_cons kind] at bound ⊢
        rw [List.drop_succ_cons, ih (by omega)]
        omega
      · rw [separators_cons_of_plain kind] at bound
        omega

/-- The line ends behind a statement are passed, whether or not it took some of them. -/
theorem statements_of_derives {p r : List Token} {s : Statement} (derived : DerivesStatement p s)
    (ends : Ends r) :
    statements (p ++ r) =
      let more := statements (r.drop (separators r))
      ⟨s :: more.statements, more.fault?, p.length + separators r + more.used, more.log⟩ := by
  obtain ⟨k, bound, found⟩ := statement_complete ends derived
  have behind : (p ++ r).drop (p.length + k) = r.drop k := List.drop_length_add_append k
  have passed : p.length + k + separators ((p ++ r).drop (p.length + k)) =
      p.length + separators r := by
    rw [behind, separators_drop bound]
    omega
  rw [statements_of_found found, passed]
  simp only [List.drop_length_add_append, List.nil_append]

theorem statements_complete {p : List Token} {ss : List Statement} (derived : DerivesProgram p ss) :
    separators p = 0 ∧ statements p = ⟨ss, none, p.length, []⟩ := by
  induction derived with
  | nil => exact ⟨rfl, statements_nil⟩
  | last only =>
    have found := statements_of_derives only (r := []) nofun
    rw [List.append_nil, List.drop_nil, statements_nil] at found
    have starts := statement_separators only []
    rw [List.append_nil] at starts
    exact ⟨starts, found⟩
  | more first lineEnd rest ih =>
    rename_i t p q s ss
    -- The next statement does not start with a line end, so there is just one between the two.
    have one : separators (t :: q) = 1 := by
      have same := ih.1
      simp only [separators] at same
      simp [separators, lineEnd, same]
    have ends : Ends (t :: q) := by
      rintro _ ⟨⟩
      exact lineEnd
    have found := statements_of_derives first ends
    rw [one, List.drop_one, List.tail_cons, ih.2] at found
    refine ⟨statement_separators first _, ?_⟩
    rw [found, List.length_append, List.length_cons]
    simp only [Progress.mk.injEq, true_and, and_true]
    omega

end Parse

open Grammar Parse

/-- Parsing finds the statements of a program, and has nothing else to tell. -/
theorem parse_complete {p : List Token} {ss : List Statement} (derived : DerivesProgram p ss) :
    parse p = ⟨.ok ss, [.parsed ss.length]⟩ := by
  obtain ⟨none, found⟩ := statements_complete derived
  simp [parse, none, found]

end LabelBasic
