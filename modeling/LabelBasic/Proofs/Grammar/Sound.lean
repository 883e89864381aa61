import LabelBasic.Proofs.Grammar

/-!
# What is found is derived

Whatever a parsing rule finds, the tokens it uses derive it. A rule is sound when each of its
replies is; the soundness of a rule that is made of others follows theirs, so the proof of each rule
has the shape of the rule.
-/
namespace LabelBasic

variable {α β : Type}

/-- What the reply finds stands in the relation to the tokens it uses. -/
def Reply.Sound (D : List Token → α → Prop) (s : List Token) (r : Reply α) : Prop :=
  ∀ a, r.outcome = .found a → ∃ p q, s = p ++ q ∧ p.length = r.used ∧ D p a

/-- Each reply of the rule is sound. -/
def Rule.Sound (D : List Token → α → Prop) (rule : Rule α) : Prop := ∀ s, (rule s).Sound D s

namespace Reply.Sound

variable {D : List Token → α → Prop} {E : List Token → β → Prop} {s : List Token}

theorem found {a : α} {p : List Token} (derived : D p a) (q : List Token) :
    (Reply.found a p.length).Sound D (p ++ q) := by
  intro b same
  cases same
  exact ⟨p, q, rfl, rfl, derived⟩

theorem found_zero {a : α} (derived : D [] a) : (Reply.found a 0).Sound D s :=
  found derived s

theorem absent {n : Nat} {log : List Event} : Reply.Sound D s ⟨.absent, n, log⟩ := by
  intro a same
  cases same

theorem failed {f : SyntaxFault} {n : Nat} {log : List Event} :
    Reply.Sound D s ⟨.failed f, n, log⟩ := by
  intro a same
  cases same

theorem mono {D' : List Token → α → Prop} {r : Reply α} (sound : r.Sound D s)
    (weaker : ∀ p a, D p a → D' p a) : r.Sound D' s := by
  intro a same
  obtain ⟨p, q, split, used, derived⟩ := sound a same
  exact ⟨p, q, split, used, weaker p a derived⟩

theorem after {r : Reply α} (p : List Token) (sound : r.Sound (fun q a => D (p ++ q) a) s) :
    (r.after p.length).Sound D (p ++ s) := by
  intro a same
  obtain ⟨q, rest, rfl, used, derived⟩ := sound a same
  refine ⟨p ++ q, rest, by simp, ?_, derived⟩
  simp [Reply.after, used]

theorem andThen {r : Reply α} {k : α → Nat → Reply β} (first : r.Sound D s)
    (next : ∀ p a n, D p a → (k a n).Sound (fun q b => E (p ++ q) b) (s.drop n)) :
    (r.andThen k).Sound E s := by
  intro b same
  cases outcome : r.outcome with
  | absent => simp [Reply.andThen, outcome] at same
  | failed f => simp [Reply.andThen, outcome] at same
  | found a =>
    -- The second rule starts where the first one stopped, so the derivations lie side by side.
    obtain ⟨p, q, rfl, used, derived⟩ := first a outcome
    simp only [Reply.andThen, outcome, ← used] at same ⊢
    obtain ⟨p', q', split, used', derived'⟩ := next p a p.length derived b same
    rw [List.drop_left] at split
    refine ⟨p ++ p', q', by simp [split], ?_, derived'⟩
    simp [used']

theorem map {r : Reply α} {f : α → β} (sound : r.Sound (fun p a => E p (f a)) s) :
    (r.map f).Sound E s := by
  refine sound.andThen fun p a n derived => found_zero ?_
  simpa using derived

end Reply.Sound

namespace Rule.Sound

variable {D : List Token → α → Prop} {E : List Token → β → Prop}

theorem pure {a : α} (derived : D [] a) : Rule.Sound D (Pure.pure a) :=
  fun _ => Reply.Sound.found_zero derived

theorem bind {rule : Rule α} {next : α → Rule β} (first : rule.Sound D)
    (rest : ∀ p a, D p a → (next a).Sound fun q b => E (p ++ q) b) : (rule >>= next).Sound E := by
  intro s
  exact (first s).andThen fun p a n derived => rest p a derived (s.drop n)

theorem token (kind : Token.Kind) :
    (Rule.token kind).Sound fun p t => p = [t] ∧ t.kind = kind := by
  rintro (_ | ⟨t, rest⟩)
  · exact Reply.Sound.absent
  · simp only [Rule.token]
    split
    next same => exact Reply.Sound.found (p := [t]) ⟨rfl, same⟩ rest
    next => exact Reply.Sound.absent

theorem expect (kind : Token.Kind) (fault : SyntaxFault) :
    (Rule.expect kind fault).Sound fun p t => p = [t] ∧ t.kind = kind := by
  rintro (_ | ⟨t, rest⟩)
  · exact Reply.Sound.failed
  · simp only [Rule.expect]
    split
    next same => exact Reply.Sound.found (p := [t]) ⟨rfl, same⟩ rest
    next => exact Reply.Sound.failed

theorem accept (kind : Token.Kind) :
    (Rule.accept kind).Sound fun p b =>
      b = true ∧ (∃ t, p = [t] ∧ t.kind = kind) ∨ b = false ∧ p = [] := by
  rintro (_ | ⟨t, rest⟩)
  · exact Reply.Sound.found_zero (.inr ⟨rfl, rfl⟩)
  · simp only [Rule.accept]
    split
    next same => exact Reply.Sound.found (p := [t]) (.inl ⟨rfl, t, rfl, same⟩) rest
    next => exact Reply.Sound.found_zero (.inr ⟨rfl, rfl⟩)

end Rule.Sound

namespace Parse

open Grammar

/-! ### Expressions -/

theorem rightParen_sound (e : Expr) (s : List Token) :
    Reply.Sound (fun p a => a = e ∧ ∃ r, p = [r] ∧ r.kind = .symbol .rightParen) s
      (match s with
        | ⟨.symbol .rightParen, _, _⟩ :: _ => .found e 1
        | _ => .failed .expectedRightParen) := by
  split
  next text place rest => exact Reply.Sound.found (p := [_]) ⟨rfl, _, rfl, rfl⟩ rest
  next => exact Reply.Sound.failed

section

variable {level : Level} {left : Expr} {p : List Token}

theorem operations_sound_of_operator {op : Operator} {text : Option String} {place : Position}
    {rest : List Token} (derived : Derives op.level p left)
    (operand : (expr op.level.tighter rest).Sound (Derives op.level.tighter) rest)
    (more : ∀ right n p, Derives op.level p (.arithmetic op left right) →
      (operations op.level (.arithmetic op left right) (rest.drop n)).Sound
        (fun q e => Derives op.level (p ++ q) e) (rest.drop n)) :
    (operations op.level left (⟨.symbol (.operator op), text, place⟩ :: rest)).Sound
      (fun q e => Derives op.level (p ++ q) e) (⟨.symbol (.operator op), text, place⟩ :: rest) := by
  rw [operations_of_level left rest rfl rfl]
  apply Reply.Sound.after [_]
  refine operand.andThen fun q right n derived' => ?_
  -- The operation so far is the left operand of the next one: operators group from the left.
  have whole := more right n _
    (.operation (t := ⟨.symbol (.operator op), text, place⟩) rfl rfl derived derived')
  simpa using whole

theorem operations_sound_of_done {s : List Token} (derived : Derives level p left)
    (done : ∀ t ∈ s.head?, ∀ op, t.kind = .symbol (.operator op) → op.level ≠ level) :
    (operations level left s).Sound (fun q e => Derives level (p ++ q) e) s := by
  rw [operations_done done]
  apply Reply.Sound.found_zero
  simpa using derived

end

theorem factor_sound_of_word {t : Token} {rest : List Token} (kind : t.kind = .word)
    (none : ∀ f text place inner, Builtin.ofName? t.text = some f →
      rest = ⟨.symbol .leftParen, text, place⟩ :: inner → False) :
    (factor (t :: rest)).Sound (Derives .factor) (t :: rest) := by
  -- The name of a function stands for a variable unless a parenthesis follows.
  have noCall : (Builtin.ofName? t.text).isSome → ∀ l ∈ rest.head?, l.kind ≠ .symbol .leftParen := by
    rintro named ⟨_, text, place⟩ head rfl
    obtain ⟨f, named⟩ := Option.isSome_iff_exists.mp named
    obtain ⟨inner, rfl⟩ := List.head?_eq_some_iff.mp head
    exact none f text place inner named rfl
  rw [factor_variable kind noCall]
  exact Reply.Sound.found (p := [t]) (.variable kind) rest

theorem factor_sound_of_group {t : Token} {rest : List Token} (kind : t.kind = .symbol .leftParen)
    (inner : (expr .sum rest).Sound (Derives .sum) rest) :
    (factor (t :: rest)).Sound (Derives .factor) (t :: rest) := by
  rw [factor_group rest kind]
  apply Reply.Sound.after [t]
  refine inner.andThen fun p e n derived => ?_
  apply (rightParen_sound e _).mono
  rintro q _ ⟨rfl, r, rfl, closed⟩
  exact .group kind derived closed

/-- Items of a call, with the parenthesis behind them. -/
def DerivesItemsClosed (p : List Token) (es : List Expr) : Prop :=
  ∃ q r, p = q ++ [r] ∧ r.kind = .symbol .rightParen ∧ DerivesList q es

theorem argumentList_sound_of_first {s : List Token} (first : (expr .sum s).Sound (Derives .sum) s)
    (more : ∀ n text place rest, s.drop n = ⟨.symbol .comma, text, place⟩ :: rest →
      (argumentList rest).Sound DerivesItemsClosed rest) :
    (argumentList s).Sound DerivesItemsClosed s := by
  rw [argumentList]
  refine first.andThen fun p e n derived => ?_
  split
  next text place rest after =>
    rw [after]
    refine Reply.Sound.after [_] (Reply.Sound.map ((more n text place rest after).mono ?_))
    rintro _ es ⟨q, r, rfl, closed, tail⟩
    exact ⟨p ++ ⟨.symbol .comma, text, place⟩ :: q, r, by simp, closed, .more derived rfl tail⟩
  next text place rest after =>
    rw [after]
    exact Reply.Sound.found (p := [_]) ⟨p, _, rfl, rfl, .one derived⟩ rest
  next => exact Reply.Sound.absent

theorem expr_sound (level : Level) (s : List Token) : (expr level s).Sound (Derives level) s := by
  revert level s
  -- The induction is that of the parser. What it says of the operations behind an expression holds
  -- for any tokens the expression came from.
  refine (expr.mutual_induct
    (fun level s => (expr level s).Sound (Derives level) s)
    (fun level left s => ∀ p, Derives level p left →
      (operations level left s).Sound (fun q e => Derives level (p ++ q) e) s)
    (fun s => (factor s).Sound (Derives .factor) s)
    (fun f s => (call f s).Sound (fun p e => ∃ es, e = .call f es ∧ DerivesArguments p es ∧
      f.accepts (es.map Expr.kind) = true) s)
    (fun s => (arguments s).Sound DerivesArguments s)
    (fun s => (argumentList s).Sound DerivesItemsClosed s)
    ?_ ?_ ?_ ?_ ?_ ?_ ?_ ?_ ?_ ?_ ?_ ?_ ?_ ?_ ?_ ?_ ?_ ?_).1
  -- The three levels.
  · intro s factor
    rw [expr]
    exact factor
  · intro s factors more
    rw [expr]
    exact factors.andThen fun p left n derived => more left n p (.product derived)
  · intro s products more
    rw [expr]
    exact products.andThen fun p left n derived => more left n p (.sum derived)
  -- Operations: an operator of the level, one of another level, and none.
  · intro left op text place rest operand more p derived
    exact operations_sound_of_operator derived operand more
  · intro level left op text place rest other p derived
    exact operations_sound_of_done derived (by simpa using other)
  · intro level left s none p derived
    apply operations_sound_of_done derived
    rintro ⟨_, text, place⟩ head op rfl
    obtain ⟨rest, rfl⟩ := List.head?_eq_some_iff.mp head
    exact (none op text place rest rfl).elim
  -- Factors, by their first token.
  · rw [factor]
    exact Reply.Sound.failed
  · intro t kind f text place inner named found
    rw [factor_call inner kind named rfl]
    refine Reply.Sound.after [_, _] (found.mono ?_)
    rintro p _ ⟨es, rfl, arguments, fits⟩
    exact .call kind named rfl arguments fits
  · exact fun t rest kind none => factor_sound_of_word kind none
  · intro t rest kind value read
    rw [factor_number rest kind read]
    exact Reply.Sound.found (p := [t]) (.number kind read) rest
  · intro t rest kind unread
    unfold factor
    simp only [kind, unread]
    exact Reply.Sound.failed
  · intro t rest kind
    rw [factor_string rest kind]
    exact Reply.Sound.found (p := [t]) (.string kind) rest
  · exact fun t rest kind inner => factor_sound_of_group kind inner
  · intro t rest noWord noNumber noString noParen
    unfold factor
    split <;> simp_all
    exact Reply.Sound.failed
  -- A call is refused, and so not found, if its arguments do not fit.
  · intro f s found
    rw [call]
    refine found.andThen fun p es n derived => ?_
    split
    next fits => exact Reply.Sound.found_zero ⟨es, rfl, by simpa using derived, fits⟩
    next => exact Reply.Sound.absent
  -- Arguments: none, or a list.
  · intro s head
    rw [arguments, if_pos head]
    obtain ⟨r, first, closed⟩ := Option.map_eq_some_iff.mp head
    obtain ⟨rest, rfl⟩ := List.head?_eq_some_iff.mp first
    exact Reply.Sound.found (p := [r]) (.none closed) rest
  · intro s head found
    rw [arguments, if_neg head]
    apply found.mono
    rintro _ es ⟨q, r, rfl, closed, derived⟩
    exact .some derived closed
  · exact fun s first more => argumentList_sound_of_first first more

theorem expression_sound : Rule.Sound (Derives .sum) expression := expr_sound .sum

theorem expressionList_sound : Rule.Sound DerivesList expressionList := by
  intro s
  -- The induction goes from comma to comma.
  induction s using expressionList.induct with
  | case1 s ih =>
    rw [expressionList]
    refine (expression_sound s).andThen fun p e n derived => ?_
    split
    next text place rest after =>
      rw [after]
      refine Reply.Sound.after [_] (Reply.Sound.map ((ih n text place rest after).mono ?_))
      exact fun q es tail => .more derived rfl tail
    next => exact Reply.Sound.found_zero (by simpa using .one derived)

theorem comparison_sound : Rule.Sound DerivesComparison comparison := by
  refine expression_sound.bind fun p left first => ?_
  refine Rule.Sound.bind (D := fun q r => ∃ t, q = [t] ∧ t.kind = .symbol (.relation r)) ?_ ?_
  · intro s
    dsimp only
    split
    next r text place rest => exact Reply.Sound.found (p := [_]) ⟨_, rfl, rfl⟩ rest
    next => exact Reply.Sound.absent
  · rintro _ r ⟨t, rfl, kind⟩
    refine expression_sound.bind fun q right second => Rule.Sound.pure ?_
    simpa using .intro first kind second

/-! ### Commands -/

theorem identifier_sound : identifier.Sound fun p v => ∃ t, p = [t] ∧ Names t v := by
  apply (Rule.Sound.token .word).bind
  rintro _ t ⟨rfl, kind⟩
  exact Rule.Sound.pure ⟨t, rfl, kind, rfl⟩

theorem labelName_sound :
    labelName.Sound fun p l => ∃ t, p = [t] ∧ t.kind = .word ∧ l = t.text := by
  apply (Rule.Sound.token .word).bind
  rintro _ t ⟨rfl, kind⟩
  exact Rule.Sound.pure ⟨t, rfl, kind, rfl⟩

theorem tokenList_sound {item : Token → Outcome α} {D : Token → α → Prop}
    (sound : ∀ t a, item t = .found a → D t a) :
    (Rule.tokenList item).Sound (DerivesItems D) := by
  intro s
  fun_induction Rule.tokenList item s with
  | case1 => exact Reply.Sound.absent
  | case2 t rest absent => exact Reply.Sound.absent
  | case3 t rest f failed => exact Reply.Sound.failed
  | case4 t a found => exact Reply.Sound.found (p := [t]) (.one (sound t a found)) []
  | case5 t a found c more comma ih =>
    refine Reply.Sound.after [t, c] (Reply.Sound.map (ih.mono fun q as tail => ?_))
    exact .more (sound t a found) comma tail
  | case6 t a found c more comma =>
    exact Reply.Sound.found (p := [t]) (.one (sound t a found)) (c :: more)

theorem identifierItem_names (t : Token) (v : Ident) (found : identifierItem t = .found v) :
    Names t v := by
  simp only [identifierItem] at found
  split at found
  next kind =>
    cases found
    exact ⟨kind, rfl⟩
  next => cases found

theorem literalItem_denotes (t : Token) (e : Expr) (found : literalItem t = .found e) :
    Denotes t e := by
  simp only [literalItem] at found
  split at found
  next kind =>
    cases found
    exact ⟨_, rfl, .inl ⟨kind, rfl⟩⟩
  split at found
  next kind =>
    split at found
    next value read =>
      cases found
      exact ⟨value, rfl, .inr ⟨kind, read⟩⟩
    next => cases found
  next => cases found

/-! Each rule is told the keyword, or the variable, that it was chosen by. -/

theorem assignment_sound {t : Token} (kind : t.kind = .word) :
    (assignment ⟨t.text⟩).Sound fun p c => DerivesCommand (t :: p) c := by
  apply (Rule.Sound.expect _ _).bind
  rintro _ s ⟨rfl, equals⟩
  refine expression_sound.bind fun p e value => Rule.Sound.pure ?_
  simpa using .assign kind equals value

section

variable {k : Token}

theorem printItems_sound (keyword : k.kind = .keyword .PRINT) :
    printItems.Sound fun p c => DerivesCommand (k :: p) c := by
  refine expressionList_sound.bind fun p es items => Rule.Sound.pure ?_
  simpa using .print keyword items

theorem dataItems_sound (keyword : k.kind = .keyword .DATA) :
    dataItems.Sound fun p c => DerivesCommand (k :: p) c := by
  refine (tokenList_sound literalItem_denotes).bind fun p es items => Rule.Sound.pure ?_
  simpa using .data keyword items

theorem readTargets_sound (keyword : k.kind = .keyword .READ) :
    readTargets.Sound fun p c => DerivesCommand (k :: p) c := by
  refine (tokenList_sound identifierItem_names).bind fun p vs targets => Rule.Sound.pure ?_
  simpa using .read keyword targets

theorem inputVariables_sound (prompt : List Expr) :
    (inputVariables prompt).Sound fun p c =>
      ∃ vs, DerivesItems Names p vs ∧ c = .input (prompt ++ vs.map .variable) := by
  refine (tokenList_sound identifierItem_names).bind fun p vs targets => Rule.Sound.pure ?_
  exact ⟨vs, by simpa using targets, rfl⟩

theorem inputItems_sound (keyword : k.kind = .keyword .INPUT) :
    inputItems.Sound fun p c => DerivesCommand (k :: p) c := by
  intro s
  simp only [inputItems]
  split
  -- A prompt and a comma, a prompt alone, or variables from the first token on.
  next text place comma place' rest =>
    refine Reply.Sound.after [_, _] ((inputVariables_sound _ rest).mono ?_)
    rintro p _ ⟨vs, targets, rfl⟩
    exact .promptedInput keyword rfl rfl targets
  next text place rest _ =>
    exact Reply.Sound.found (p := [_]) (.prompt keyword rfl) rest
  next =>
    apply (inputVariables_sound [] s).mono
    rintro p _ ⟨vs, targets, rfl⟩
    exact .input keyword targets

theorem gosubLabel_sound (keyword : k.kind = .keyword .GOSUB) :
    gosubLabel.Sound fun p c => DerivesCommand (k :: p) c := by
  apply labelName_sound.bind
  rintro _ _ ⟨t, rfl, kind, rfl⟩
  exact Rule.Sound.pure (.gosub keyword kind)

theorem loopBounds_sound (keyword : k.kind = .keyword .FOR) :
    loopBounds.Sound fun p c => DerivesCommand (k :: p) c := by
  apply identifier_sound.bind
  rintro _ _ ⟨t, rfl, kind, rfl⟩
  apply (Rule.Sound.expect _ _).bind
  rintro _ s ⟨rfl, equals⟩
  refine expression_sound.bind fun p first lower => ?_
  apply (Rule.Sound.token _).bind
  rintro _ till ⟨rfl, upTo⟩
  refine expression_sound.bind fun q last upper => ?_
  apply (Rule.Sound.accept _).bind
  -- The step is written, or it is one.
  rintro _ _ (⟨rfl, by_, rfl, stepped⟩ | ⟨rfl, rfl⟩)
  · refine expression_sound.bind fun r step increment => Rule.Sound.pure ?_
    simpa using .loopStep keyword kind equals lower upTo upper stepped increment
  · apply Rule.Sound.pure
    simpa using .loop keyword kind equals lower upTo upper

theorem nextVariable_sound (keyword : k.kind = .keyword .NEXT) :
    nextVariable.Sound fun p c => DerivesCommand (k :: p) c := by
  intro s
  simp only [nextVariable]
  split
  next text place rest => exact Reply.Sound.found (p := [_]) (.nextOf keyword rfl) rest
  next => exact Reply.Sound.found_zero (.next keyword)

theorem branchTarget_sound (keyword : k.kind = .keyword .IF) :
    branchTarget.Sound fun p c => DerivesCommand (k :: p) c := by
  refine comparison_sound.bind fun p e condition => ?_
  apply (Rule.Sound.token _).bind
  rintro _ then_ ⟨rfl, consequent⟩
  apply labelName_sound.bind
  rintro _ _ ⟨t, rfl, kind, rfl⟩
  apply Rule.Sound.pure
  simpa using .branch keyword condition consequent kind

theorem whileTarget_sound (keyword : k.kind = .keyword .WHILE) :
    whileTarget.Sound fun p c => DerivesCommand (k :: p) c := by
  refine comparison_sound.bind fun p e condition => ?_
  apply labelName_sound.bind
  rintro _ _ ⟨t, rfl, kind, rfl⟩
  apply Rule.Sound.pure
  simpa using .whileLoop keyword condition kind

/-- RETURN takes the line ends behind it. -/
theorem returnEnd_sound (keyword : k.kind = .keyword .RETURN) :
    returnEnd.Sound fun p c => (∀ t ∈ p, t.kind = .endOfLine) ∧ DerivesCommand [k] c := by
  intro s
  simp only [returnEnd]
  split
  -- The tokens that are used are the line ends, all of them.
  · have ends : ∀ t ∈ s.takeWhile fun t : Token => t.kind == .endOfLine, t.kind = .endOfLine :=
      fun t member => by simpa using List.all_eq_true.mp List.all_takeWhile t member
    have found := Reply.Sound.found
      (D := fun p c => (∀ t ∈ p, t.kind = .endOfLine) ∧ DerivesCommand [k] c)
      ⟨ends, .ret keyword⟩ (s.dropWhile fun t : Token => t.kind == .endOfLine)
    rwa [List.takeWhile_append_dropWhile] at found
  · exact Reply.Sound.absent

end

/-- A derivation, and line ends behind it. -/
def Ended (D : List Token → α → Prop) (p : List Token) (a : α) : Prop :=
  ∃ body ends, p = body ++ ends ∧ (∀ t ∈ ends, t.kind = .endOfLine) ∧ D body a

theorem Ended.of {D : List Token → α → Prop} {p : List Token} {a : α} (derived : D p a) :
    Ended D p a := ⟨p, [], by simp, by simp, derived⟩

theorem ofKeyword_sound {k : Token} {keyword : Keyword} {rule : Rule Command}
    (kind : k.kind = .keyword keyword) (chosen : ofKeyword keyword = some rule) :
    rule.Sound fun p c => Ended DerivesCommand (k :: p) c := by
  intro s
  cases keyword <;> cases chosen
  case PRINT => exact (printItems_sound kind s).mono fun _ _ => .of
  case READ => exact (readTargets_sound kind s).mono fun _ _ => .of
  case INPUT => exact (inputItems_sound kind s).mono fun _ _ => .of
  case DATA => exact (dataItems_sound kind s).mono fun _ _ => .of
  case GOSUB => exact (gosubLabel_sound kind s).mono fun _ _ => .of
  case FOR => exact (loopBounds_sound kind s).mono fun _ _ => .of
  case NEXT => exact (nextVariable_sound kind s).mono fun _ _ => .of
  case RETURN =>
    -- RETURN alone uses tokens that do not belong to the command.
    apply (returnEnd_sound kind s).mono
    exact fun p c ⟨ends, derived⟩ => ⟨[k], p, rfl, ends, derived⟩
  case IF => exact (branchTarget_sound kind s).mono fun _ _ => .of
  case WHILE => exact (whileTarget_sound kind s).mono fun _ _ => .of
  case END => exact Reply.Sound.found_zero (.of (.stop kind))

theorem command_sound (t : Token) (rest : List Token) :
    (command t rest).Sound (Ended DerivesCommand) (t :: rest) := by
  simp only [command]
  split
  next kind =>
    exact Reply.Sound.after [t] ((assignment_sound kind rest).mono fun _ _ => .of)
  next keyword kind =>
    split
    next rule chosen => exact Reply.Sound.after [t] (ofKeyword_sound kind chosen rest)
    next => exact Reply.Sound.absent
  next => exact Reply.Sound.absent

/-! ### Statements and programs -/

theorem statement_sound : statement.Sound (Ended DerivesStatement) := by
  intro s
  induction s with
  | nil => exact Reply.Sound.absent
  | cons t rest ih =>
    rw [statement]
    split
    next kind =>
      refine Reply.Sound.after [t] (Reply.Sound.map (ih.mono ?_))
      rintro _ st ⟨body, ends, rfl, closed, derived⟩
      exact ⟨t :: body, ends, by simp, closed, .label kind derived⟩
    next =>
      refine Reply.Sound.map fun c found => ?_
      -- The line of the statement is that of `t`, so `t` has to be the first token of the derivation.
      obtain ⟨_, q, split, used, body, ends, rfl, closed, derived⟩ := command_sound t rest c found
      refine ⟨_, q, split, used, body, ends, rfl, closed, ?_⟩
      have nonempty : body ≠ [] := by cases derived <;> simp
      obtain ⟨first, more, rfl⟩ := List.exists_cons_of_ne_nil nonempty
      obtain rfl : t = first := by simpa using congrArg List.head? split
      exact .command derived

/-- Each statement of a program is derived from some of the tokens, side by side. -/
theorem derives_of_mem_statements {s : List Token} {st : Statement}
    (member : st ∈ (statements s).statements) : ∃ p, p <:+: s ∧ DerivesStatement p st := by
  -- Each step of the parser goes on with a part of the tokens, so a part of that part will do.
  fun_induction statements s with
  | case1 s first n log h passed more ih =>
    rcases List.mem_cons.mp member with rfl | later
    · obtain ⟨_, q, rfl, _, p, ends, rfl, _, derived⟩ := statement_sound s st (by rw [h])
      exact ⟨p, ⟨[], ends ++ q, by simp⟩, derived⟩
    · obtain ⟨p, part, derived⟩ := ih later
      exact ⟨p, part.trans (List.drop_suffix _ _).isInfix, derived⟩
  | case2 s n log h => simp at member
  | case3 s f n log h => simp at member

end Parse

theorem derives_of_mem_parse {tokens : List Token} {ss : List Statement} {st : Statement}
    (parsed : (parse tokens).result = .ok ss) (member : st ∈ ss) :
    ∃ p, p <:+: tokens ∧ Grammar.DerivesStatement p st := by
  unfold parse at parsed
  dsimp only at parsed
  split at parsed
  next => cases parsed
  next =>
    cases parsed
    obtain ⟨p, part, derived⟩ := Parse.derives_of_mem_statements member
    exact ⟨p, part.trans (List.drop_suffix _ _).isInfix, derived⟩

end LabelBasic
