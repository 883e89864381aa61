import LabelBasic.Proofs.Grammar.Complete

/-!
# Rules keep to their line

What a parsing rule answers depends on nothing but the line it starts in, however the text goes on
behind the end of that line, and not on how many lines there are above it. Of that line it depends
on no more than the tokens that the rule uses and the one behind them. Only RETURN takes line ends,
and those could as well be left to the separation of statements.
-/
namespace LabelBasic

variable {α β : Type}

/-! ### Lines of tokens -/

/-- The same place `k` lines further down. -/
def Position.lower (k : Nat) (p : Position) : Position := { p with line := p.line + k }

/-- The same token `k` lines further down. -/
def Token.lower (k : Nat) (t : Token) : Token := { t with position := t.position.lower k }

namespace Parse

/-- The tokens in front of the first line end. -/
def firstLine (s : List Token) : List Token := s.takeWhile fun t => t.kind != .endOfLine

theorem firstLine_cons {t : Token} (plain : t.kind ≠ .endOfLine) (s : List Token) :
    firstLine (t :: s) = t :: firstLine s :=
  List.takeWhile_cons_of_pos (by simpa using plain)

theorem firstLine_cons_of_end {t : Token} (lineEnd : t.kind = .endOfLine) (s : List Token) :
    firstLine (t :: s) = [] :=
  List.takeWhile_cons_of_neg (by simpa using lineEnd)

/-- A list starts with an empty line or with a token of a line. -/
theorem firstLine_cases (s : List Token) :
    firstLine s = [] ∨ ∃ t rest, s = t :: rest ∧ t.kind ≠ .endOfLine := by
  cases s with
  | nil => exact .inl rfl
  | cons t rest =>
    by_cases lineEnd : t.kind = .endOfLine
    · exact .inl (firstLine_cons_of_end lineEnd rest)
    · exact .inr ⟨t, rest, rfl, lineEnd⟩

theorem kind_of_firstLine_nil {s : List Token} (empty : firstLine s = []) :
    ∀ t ∈ s.head?, t.kind = .endOfLine := by
  intro t head
  obtain ⟨rest, rfl⟩ := List.head?_eq_some_iff.mp head
  rcases Decidable.em (t.kind = .endOfLine) with lineEnd | plain
  · exact lineEnd
  · simp [firstLine_cons plain] at empty

theorem firstLine_length_le (s : List Token) : (firstLine s).length ≤ s.length :=
  (List.takeWhile_prefix _).length_le

theorem firstLine_drop {s : List Token} {n : Nat} (inLine : n ≤ (firstLine s).length) :
    firstLine (s.drop n) = (firstLine s).drop n := by
  induction n generalizing s with
  | zero => rfl
  | succ n ih =>
    rcases firstLine_cases s with empty | ⟨t, rest, rfl, plain⟩
    · simp [empty] at inLine
    · rw [firstLine_cons plain] at inLine ⊢
      exact ih (by simpa using inLine)

/-- The second list starts with the line that the first one starts with, `k` lines further down. -/
def SameLine (k : Nat) (s s' : List Token) : Prop :=
  firstLine s' = (firstLine s).map (Token.lower k)

namespace SameLine

variable {k : Nat} {s s' : List Token}

theorem refl (s : List Token) : SameLine 0 s s := (List.map_id _).symm

theorem map_lower (k : Nat) (s : List Token) : SameLine k s (s.map (Token.lower k)) := by
  rw [SameLine, firstLine, List.takeWhile_map]
  rfl

/-- What follows the end of a line does not belong to it. -/
theorem append {s : List Token} (closed : ∃ t ∈ s, t.kind = .endOfLine) (us : List Token) :
    SameLine 0 s (s ++ us) := by
  induction s with
  | nil => simp at closed
  | cons t rest ih =>
    rw [SameLine, List.cons_append]
    by_cases lineEnd : t.kind = .endOfLine
    · rw [firstLine_cons_of_end lineEnd, firstLine_cons_of_end lineEnd]
      rfl
    · rw [firstLine_cons lineEnd, firstLine_cons lineEnd, ih (by simpa [lineEnd] using closed)]
      rfl

theorem nil (same : SameLine k s s') (empty : firstLine s = []) : firstLine s' = [] := by
  rw [same, empty, List.map_nil]

end SameLine

/-- The line that the second list starts with agrees with that of the first one, `k` lines further
down, in its first `n` tokens. -/
def SameStart (k n : Nat) (s s' : List Token) : Prop :=
  (firstLine s').take n = ((firstLine s).take n).map (Token.lower k)

namespace SameStart

variable {k m n : Nat} {s s' : List Token} {t : Token} {rest : List Token}

theorem of_sameLine (same : SameLine k s s') (n : Nat) : SameStart k n s s' := by
  rw [SameStart, same, List.map_take]

theorem of_take (same : s'.take n = s.take n) : SameStart 0 n s s' := by
  have first := congrArg firstLine same
  rw [firstLine, firstLine, ← List.take_takeWhile, ← List.take_takeWhile] at first
  rw [SameStart, firstLine, first]
  exact (List.map_id _).symm

theorem refl (n : Nat) (s : List Token) : SameStart 0 n s s := of_take rfl

theorem mono (same : SameStart k n s s') (le : m ≤ n) : SameStart k m s s' := by
  have shorter := congrArg (List.take m) same
  rwa [List.take_take, ← List.map_take, List.take_take, Nat.min_eq_left le] at shorter

theorem nil (same : SameStart k (n + 1) s s') (empty : firstLine s = []) : firstLine s' = [] := by
  rw [SameStart, empty] at same
  simpa using same

theorem cons (same : SameStart k (n + 1) (t :: rest) s') (plain : t.kind ≠ .endOfLine) :
    ∃ rest', s' = t.lower k :: rest' ∧ SameStart k n rest rest' := by
  rw [SameStart, firstLine_cons plain, List.take_succ_cons, List.map_cons] at same
  rcases firstLine_cases s' with empty | ⟨t', rest', rfl, plain'⟩
  · simp [empty] at same
  · rw [firstLine_cons plain', List.take_succ_cons] at same
    obtain ⟨rfl, rests⟩ := List.cons.inj same
    exact ⟨rest', rfl, rests⟩

theorem head (same : SameStart k (n + 1) s s') {t' : Token} (first : t' ∈ s'.head?)
    (plain : t'.kind ≠ .endOfLine) : ∃ t ∈ s.head?, t.lower k = t' := by
  rcases firstLine_cases s with empty | ⟨t, rest, rfl, plain'⟩
  · exact absurd (kind_of_firstLine_nil (same.nil empty) t' first) plain
  · obtain ⟨rest', rfl, _⟩ := same.cons plain'
    exact ⟨t, rfl, Option.some.inj first⟩

theorem drop (same : SameStart k (n + m) s s') (inLine : n ≤ (firstLine s).length) :
    SameStart k m (s.drop n) (s'.drop n) := by
  have lengths := congrArg List.length same
  rw [List.length_map, List.length_take, List.length_take] at lengths
  have behind := congrArg (List.drop n) same
  rw [← List.map_drop, List.drop_take, List.drop_take, Nat.add_sub_cancel_left] at behind
  rw [SameStart, firstLine_drop inLine, firstLine_drop (by omega), behind]

end SameStart

theorem SameLine.cons {k : Nat} {t : Token} {rest s' : List Token}
    (same : SameLine k (t :: rest) s') (plain : t.kind ≠ .endOfLine) :
    ∃ rest', s' = t.lower k :: rest' ∧ SameLine k rest rest' := by
  obtain ⟨rest', rfl, _⟩ := (SameStart.of_sameLine same 1).cons plain
  rw [SameLine, firstLine_cons plain, firstLine_cons (by exact plain)] at same
  exact ⟨rest', rfl, (List.cons.inj same).2⟩

end Parse

/-! ### Rules made of rules -/

open Parse

/-- The reply depends on nothing but the line, and uses no more than that. -/
structure Rule.KeepsToLine (rule : Rule α) (s : List Token) : Prop where
  same : ∀ {k s'}, SameLine k s s' → rule s' = rule s
  inLine : (rule s).used ≤ (firstLine s).length

/-- The reply depends on nothing but the tokens that it uses, which are of the line, and the one
behind them. -/
structure Rule.LooksAhead (rule : Rule α) (s : List Token) : Prop where
  same : ∀ {k s'}, SameStart k ((rule s).used + 1) s s' → rule s' = rule s
  inLine : (rule s).used ≤ (firstLine s).length

namespace Rule.LooksAhead

variable {rule rule' : Rule α} {s rest : List Token} {t : Token}

theorem keepsToLine (looks : rule.LooksAhead s) : rule.KeepsToLine s where
  same same := looks.same (.of_sameLine same _)
  inLine := looks.inLine

theorem congr (agree : ∀ k s', SameStart k 1 s s' → rule s' = rule' s')
    (looks : rule'.LooksAhead s) : rule.LooksAhead s := by
  have here := agree 0 s (.refl 1 s)
  refine ⟨fun same => ?_, here ▸ looks.inLine⟩
  rw [here] at same
  rw [agree _ _ (same.mono (Nat.le_add_left 1 _)), looks.same same, here]

theorem const {r : Reply α} (unused : r.used = 0) : Rule.LooksAhead (fun _ => r) s :=
  ⟨fun _ => rfl, by simp [unused]⟩

theorem pure (a : α) : (Pure.pure a : Rule α).LooksAhead s := const rfl

theorem bind {next : α → Rule β} (first : rule.LooksAhead s)
    (more : ∀ a n, (next a).LooksAhead (s.drop n)) : (rule.bind next).LooksAhead s := by
  constructor
  · intro k s' same
    simp only [Rule.bind, Reply.andThen] at same ⊢
    cases outcome : (rule s).outcome with
    | absent | failed =>
      simp only [outcome] at same
      simp only [first.same same, outcome]
    | found a =>
      -- The second rule sees of the line what the first one left, and as far as it needs to.
      simp only [outcome, Nat.add_assoc] at same
      have here := first.same (same.mono (by omega))
      simp only [here, outcome, (more a _).same (same.drop first.inLine)]
  · have used := first.inLine
    simp only [Rule.bind, Reply.andThen]
    cases (rule s).outcome with
    | absent | failed => exact used
    | found a =>
      have left := (more a (rule s).used).inLine
      rw [firstLine_drop used, List.length_drop] at left
      dsimp only
      omega

theorem map (f : α → β) (looks : rule.LooksAhead s) :
    Rule.LooksAhead (fun s => (rule s).map f) s :=
  looks.bind fun _ _ => const rfl

/-- The rule goes on behind the first token. -/
theorem after (plain : t.kind ≠ .endOfLine)
    (agree : ∀ k rest', SameStart k 1 rest rest' →
      rule (t.lower k :: rest') = (rule' rest').after 1)
    (looks : rule'.LooksAhead rest) : rule.LooksAhead (t :: rest) := by
  have here : rule (t :: rest) = (rule' rest).after 1 := agree 0 rest (.refl 1 rest)
  constructor
  · intro k s' same
    obtain ⟨rest', rfl, rests⟩ := same.cons plain
    rw [here, Reply.after, Nat.add_comm 1] at rests
    rw [agree k rest' (rests.mono (Nat.le_add_left 1 _)), looks.same rests, here]
  · have used := looks.inLine
    rw [here, firstLine_cons plain]
    simp only [Reply.after, List.length_cons]
    omega

/-- The rule is settled by the first token. -/
theorem first {r : Reply α} (plain : t.kind ≠ .endOfLine) (used : r.used ≤ 1)
    (agree : ∀ k rest', SameStart k r.used rest rest' → rule (t.lower k :: rest') = r) :
    rule.LooksAhead (t :: rest) := by
  have here : rule (t :: rest) = r := agree 0 rest (.refl _ rest)
  constructor
  · intro k s' same
    rw [here] at same
    obtain ⟨rest', rfl, rests⟩ := same.cons plain
    rw [agree k rest' rests, here]
  · rw [here, firstLine_cons plain, List.length_cons]
    omega

/-- The rule asks for a token of some kinds, and no such token comes first. -/
theorem missing (P : Token.Kind → Prop) (miss : Rule α) (plain : ¬P .endOfLine)
    (other : ∀ s, (∀ t ∈ s.head?, ¬P t.kind) → rule s = miss s)
    (here : ∀ t ∈ s.head?, ¬P t.kind) (missed : miss.LooksAhead s) : rule.LooksAhead s := by
  refine congr (fun k s' same => other s' fun t' head wanted => ?_) missed
  -- The first token of the other list is that of this one, unless it is a line end.
  obtain ⟨t, head', rfl⟩ := same.head head fun lineEnd => plain (lineEnd ▸ wanted)
  exact here t head' wanted

/-- A token of one kind is asked for, and what it says does not depend on its place. -/
theorem ofKind (kind : Token.Kind) (next : Token → Rule α) (miss : Rule α)
    (plain : kind ≠ .endOfLine)
    (hit : ∀ t rest, t.kind = kind → rule (t :: rest) = (next t rest).after 1)
    (other : ∀ s, (∀ t ∈ s.head?, t.kind ≠ kind) → rule s = miss s)
    (level : ∀ k t, next (t.lower k) = next t)
    (looks : ∀ t rest, s = t :: rest → t.kind = kind → (next t).LooksAhead rest)
    (missed : miss.LooksAhead s) : rule.LooksAhead s := by
  by_cases here : ∀ t ∈ s.head?, t.kind ≠ kind
  · exact missing (· = kind) miss (Ne.symm plain) other here missed
  · simp only [ne_eq, Classical.not_forall, Classical.not_not] at here
    obtain ⟨t, head, same⟩ := here
    obtain ⟨rest, rfl⟩ := List.head?_eq_some_iff.mp head
    refine after (by simpa [same] using plain) (fun k rest' _ => ?_) (looks t rest rfl same)
    rw [hit (t.lower k) rest' same, level]

section

variable {kind : Token.Kind} {next : Token → Rule α} (plain : kind ≠ .endOfLine)
  (level : ∀ k t, next (t.lower k) = next t) (looks : ∀ t rest, (next t).LooksAhead rest)

include plain level looks

theorem token : (Rule.token kind >>= next).LooksAhead s := by
  refine ofKind kind next (fun _ => .absent) plain (fun t rest same => Rule.token_found same rest)
    (fun s other => ?_) level (fun t rest _ _ => looks t rest) (const rfl)
  cases s with
  | nil => rfl
  | cons t rest =>
    rw [Rule.bind_apply, Rule.token, if_neg (other t rfl)]
    rfl

theorem expect {fault : SyntaxFault} : (Rule.expect kind fault >>= next).LooksAhead s := by
  refine ofKind kind next (fun _ => .failed fault) plain
    (fun t rest same => Rule.expect_found same rest) (fun s other => ?_) level
    (fun t rest _ _ => looks t rest) (const rfl)
  cases s with
  | nil => rfl
  | cons t rest =>
    rw [Rule.bind_apply, Rule.expect, if_neg (other t rfl)]
    rfl

end

theorem accept {kind : Token.Kind} (plain : kind ≠ .endOfLine) :
    (Rule.accept kind).LooksAhead s := by
  refine ofKind kind (fun _ _ => .found true 0) (fun _ => .found false 0) plain
    (fun t rest same => if_pos same) (fun s other => ?_) (fun _ _ => rfl)
    (fun _ _ _ _ => const rfl) (const rfl)
  cases s with
  | nil => rfl
  | cons t rest => exact if_neg (other t rfl)

end Rule.LooksAhead

/-- Behind an item of a list: a comma and further items, or nothing that belongs to the list. -/
def Rule.further (rule : Rule (List α)) (a : α) : Rule (List α)
  | t :: rest =>
    if t.kind = .symbol .comma then ((rule rest).map (a :: ·)).after 1 else .found [a] 0
  | [] => .found [a] 0

/-- Behind an item that is found, the list goes on. -/
theorem Rule.tokenList_of_found {item : Token → Outcome α} {t : Token} {a : α}
    (found : item t = .found a) (rest : List Token) :
    Rule.tokenList item (t :: rest) = ((Rule.tokenList item).further a rest).after 1 := by
  cases rest with
  | nil =>
    simp only [Rule.tokenList, found]
    rfl
  | cons c more =>
    simp only [Rule.tokenList, found, Rule.further]
    split
    · rw [Reply.after_after]
    · rfl

namespace Rule.LooksAhead

variable {s : List Token}

theorem further {rule : Rule (List α)} (a : α)
    (looks : ∀ t rest, s = t :: rest → t.kind = .symbol .comma → rule.LooksAhead rest) :
    (rule.further a).LooksAhead s := by
  refine ofKind (.symbol .comma) (fun _ s => (rule s).map (a :: ·))
    (fun _ => .found [a] 0) (by decide) (fun t rest comma => if_pos comma)
    (fun s other => ?_) (fun _ _ => rfl)
    (fun t rest split comma => (looks t rest split comma).map _) (const rfl)
  cases s with
  | nil => rfl
  | cons t rest => exact if_neg (other t rfl)

theorem tokenList {item : Token → Outcome α} (level : ∀ k t, item (t.lower k) = item t)
    (plain : ∀ t, t.kind = .endOfLine → item t = .absent) :
    (Rule.tokenList item).LooksAhead s := by
  have looks_of_found : ∀ {t a rest}, item t = .found a →
      (∀ c more, rest = c :: more → c.kind = .symbol .comma →
        (Rule.tokenList item).LooksAhead more) →
      (Rule.tokenList item).LooksAhead (t :: rest) := by
    intro t a rest found more
    have inLine : t.kind ≠ .endOfLine := fun lineEnd => by simp [plain t lineEnd] at found
    refine after inLine (fun k rest' _ => Rule.tokenList_of_found ?_ rest') (further a more)
    rw [level, found]
  have empty : ∀ s, firstLine s = [] → Rule.tokenList item s = .absent := by
    intro s none
    cases s with
    | nil => rfl
    | cons t rest =>
      have lineEnd : t.kind = .endOfLine := kind_of_firstLine_nil none t rfl
      simp only [Rule.tokenList, plain t lineEnd]
  induction s using Rule.tokenList.induct item with
  | case1 => exact congr (fun _ _ same => empty _ (same.nil rfl)) (const rfl)
  | case2 t rest absent =>
    by_cases lineEnd : t.kind = .endOfLine
    · have none := firstLine_cons_of_end lineEnd rest
      exact congr (fun _ _ same => empty _ (same.nil none)) (const rfl)
    · apply first (r := .absent) lineEnd (Nat.zero_le 1)
      intro k rest' _
      simp only [Rule.tokenList, level, absent]
  | case3 t rest f failed =>
    have inLine : t.kind ≠ .endOfLine := fun lineEnd => by simp [plain t lineEnd] at failed
    apply first (r := .failed f) inLine (Nat.zero_le 1)
    intro k rest' _
    simp only [Rule.tokenList, level, failed]
  | case4 t a found => exact looks_of_found found (by rintro _ _ ⟨⟩)
  | case5 t a found c more comma ih =>
    apply looks_of_found found
    rintro _ _ ⟨⟩ _
    exact ih
  | case6 t a found c more comma =>
    apply looks_of_found found
    rintro _ _ ⟨⟩ comma'
    exact absurd comma' comma

end Rule.LooksAhead

namespace Parse

/-! ### Expressions -/

/-- A closing parenthesis. -/
def closing (a : α) (miss : Reply α) : Rule α
  | ⟨.symbol .rightParen, _, _⟩ :: _ => .found a 1
  | _ => miss

theorem closing_looksAhead (a : α) {miss : Reply α} (unused : miss.used = 0) {s : List Token} :
    (closing a miss).LooksAhead s := by
  refine .ofKind (.symbol .rightParen) (fun _ _ => .found a 0) (fun _ => miss) (by decide) ?_ ?_
    (fun _ _ => rfl) (fun _ _ _ _ => .const rfl) (.const unused)
  · rintro ⟨_, text, place⟩ rest rfl
    rfl
  · intro s other
    simp only [closing]
    split
    next => exact absurd rfl (other _ rfl)
    next => rfl

theorem expr_factor : expr .factor = factor := funext fun s => by rw [expr]

theorem expr_product :
    (expr .product : Rule Expr) = Rule.bind (expr .factor) (operations .product) :=
  funext fun s => by rw [expr]; rfl

theorem expr_sum :
    (expr .sum : Rule Expr) = Rule.bind (expr .product) (operations .sum) :=
  funext fun s => by rw [expr]; rfl

theorem operations_looksAhead_of_done {level : Level} {left : Expr} {s : List Token}
    (done : ∀ t ∈ s.head?, ∀ op, t.kind = .symbol (.operator op) → op.level ≠ level) :
    Rule.LooksAhead (operations level left) s := by
  refine .missing (fun kind => ∃ op, kind = .symbol (.operator op) ∧ op.level = level)
    (fun _ => .found left 0) (by simp) (fun s none => operations_done ?_) ?_ (.const rfl)
  · exact fun t head op kind binds => none t head ⟨op, kind, binds⟩
  · rintro t head ⟨op, kind, binds⟩
    exact done t head op kind binds

theorem factor_other {s : List Token} (other : ∀ t ∈ s.head?, ¬Grammar.Starts t) :
    factor s = .failed .expectedExpression := by
  unfold factor
  split
  next => rfl
  next t rest =>
    have none := other t rfl
    simp only [Grammar.Starts, not_or] at none
    split <;> simp_all

theorem factor_looksAhead_of_other {s : List Token} (other : ∀ t ∈ s.head?, ¬Grammar.Starts t) :
    Rule.LooksAhead factor s :=
  .missing
    (fun kind => kind = .word ∨ kind = .number ∨ kind = .string ∨ kind = .symbol .leftParen)
    (fun _ => .failed .expectedExpression) (by simp) (fun _ => factor_other) other (.const rfl)

theorem factor_looksAhead_of_word {t : Token} {rest : List Token} (kind : t.kind = .word)
    (noCall : (Builtin.ofName? t.text).isSome → ∀ l ∈ rest.head?, l.kind ≠ .symbol .leftParen) :
    Rule.LooksAhead factor (t :: rest) := by
  refine .first (r := .found (.variable ⟨t.text⟩) 1) (by simp [kind]) (Nat.le_refl 1)
    fun k rest' same => ?_
  refine factor_variable (t := t.lower k) kind fun named l' head opened => ?_
  -- The token that follows is the one that does so here.
  obtain ⟨l, head', rfl⟩ := same.head head (by simp [opened])
  exact noCall named l head' opened

theorem factor_looksAhead_of_call {t l : Token} {f : Builtin} {inner : List Token}
    (kind : t.kind = .word) (named : Builtin.ofName? t.text = some f)
    (opened : l.kind = .symbol .leftParen) (looks : Rule.LooksAhead (call f) inner) :
    Rule.LooksAhead factor (t :: l :: inner) := by
  have behind : Rule.LooksAhead (fun s => (call f (s.drop 1)).after 1) (l :: inner) :=
    .after (by simp [opened]) (fun _ _ _ => rfl) looks
  refine .after (by simp [kind]) (fun k rest' same => ?_) behind
  obtain ⟨inner', rfl, _⟩ := same.cons (by simp [opened])
  rw [factor_call (t := t.lower k) (l := l.lower k) inner' kind named opened]
  exact (Reply.after_after _ 1 1).symm

theorem factor_looksAhead_of_group {t : Token} {rest : List Token}
    (kind : t.kind = .symbol .leftParen) (inner : Rule.LooksAhead (expr .sum) rest) :
    Rule.LooksAhead factor (t :: rest) := by
  have closed : ∀ (e : Expr) s, (closing e (.failed .expectedRightParen)).LooksAhead s :=
    fun e _ => closing_looksAhead e rfl
  refine .after (by simp [kind]) (fun k rest' _ => ?_) (inner.bind fun e _ => closed e _)
  exact factor_group (t := t.lower k) rest' kind

/-- The arguments behind the first one. -/
def argumentTail (e : Expr) : Rule (List Expr)
  | ⟨.symbol .comma, _, _⟩ :: rest => ((argumentList rest).map (e :: ·)).after 1
  | ⟨.symbol .rightParen, _, _⟩ :: _ => .found [e] 1
  | _ => .absent

theorem argumentList_eq : argumentList = Rule.bind (expr .sum) argumentTail := by
  funext s
  rw [argumentList]
  congr 1
  funext e n
  rw [argumentTail.eq_def]
  split <;> simp_all

/-- A call with these arguments, if they fit. -/
def fitting (f : Builtin) (es : List Expr) : Rule Expr := fun _ =>
  if f.accepts (es.map Expr.kind) then .found (.call f es) 0
  else ⟨.absent, 0, [.refusedCall f es.length]⟩

theorem call_eq (f : Builtin) : call f = Rule.bind arguments (fitting f) := by
  funext s
  rw [call]
  rfl

theorem fitting_looksAhead (f : Builtin) (es : List Expr) (s : List Token) :
    (fitting f es).LooksAhead s := by
  unfold fitting
  refine .const ?_
  split <;> rfl

theorem argumentTail_looksAhead {e : Expr} {s : List Token}
    (looks : ∀ text place rest, s = ⟨.symbol .comma, text, place⟩ :: rest →
      Rule.LooksAhead argumentList rest) : (argumentTail e).LooksAhead s := by
  refine .ofKind (.symbol .comma) (fun _ s => (argumentList s).map (e :: ·))
    (closing [e] .absent) (by decide) ?_ ?_ (fun _ _ => rfl) ?_ (closing_looksAhead [e] rfl)
  · rintro ⟨_, text, place⟩ rest rfl
    rfl
  · intro s other
    simp only [argumentTail]
    split
    next => exact absurd rfl (other _ rfl)
    next => rfl
    next none =>
      simp only [closing]
  · rintro ⟨_, text, place⟩ rest split rfl
    exact (looks text place rest split).map _

/-- The rules of expressions and of calls, which call each other. -/
theorem exprRules_looksAhead :
    (∀ level s, Rule.LooksAhead (expr level) s) ∧
      (∀ level left s, Rule.LooksAhead (operations level left) s) ∧
      (∀ s, Rule.LooksAhead factor s) ∧ (∀ f s, Rule.LooksAhead (call f) s) ∧
      (∀ s, Rule.LooksAhead arguments s) ∧ ∀ s, Rule.LooksAhead argumentList s := by
  -- The induction is that of the parser.
  refine expr.mutual_induct
    (fun level s => Rule.LooksAhead (expr level) s)
    (fun level left s => Rule.LooksAhead (operations level left) s)
    (fun s => Rule.LooksAhead factor s)
    (fun f s => Rule.LooksAhead (call f) s)
    (fun s => Rule.LooksAhead arguments s)
    (fun s => Rule.LooksAhead argumentList s)
    ?_ ?_ ?_ ?_ ?_ ?_ ?_ ?_ ?_ ?_ ?_ ?_ ?_ ?_ ?_ ?_ ?_ ?_
  -- The three levels.
  · intro s factor
    rwa [expr_factor]
  · intro s factors more
    rw [expr_product]
    exact factors.bind more
  · intro s products more
    rw [expr_sum]
    exact products.bind more
  -- Operations: an operator of the level, one of another level, and none.
  · intro left op text place rest operand more
    refine .after (by simp) (fun k rest' _ => ?_) (operand.bind more)
    exact operations_of_level left rest' rfl rfl
  · intro level left op text place rest other
    exact operations_looksAhead_of_done (by simpa using other)
  · intro level left s none
    apply operations_looksAhead_of_done
    rintro ⟨_, text, place⟩ head op rfl
    obtain ⟨rest, rfl⟩ := List.head?_eq_some_iff.mp head
    exact (none op text place rest rfl).elim
  -- Factors, by their first token.
  · exact factor_looksAhead_of_other (by simp)
  · exact fun t kind f text place inner named looks =>
      factor_looksAhead_of_call kind named rfl looks
  · intro t rest kind none
    apply factor_looksAhead_of_word kind
    rintro named ⟨_, text, place⟩ head rfl
    obtain ⟨f, named⟩ := Option.isSome_iff_exists.mp named
    obtain ⟨inner, rfl⟩ := List.head?_eq_some_iff.mp head
    exact none f text place inner named rfl
  · intro t rest kind value read
    refine .first (r := .found (.literal value) 1) (by simp [kind]) (Nat.le_refl 1)
      fun k rest' _ => ?_
    exact factor_number (t := t.lower k) rest' kind read
  · intro t rest kind unread
    refine .first (r := .failed .invalidNumber) (by simp [kind]) (Nat.zero_le 1) fun k rest' _ => ?_
    have same : (t.lower k).kind = t.kind ∧ (t.lower k).text = t.text := ⟨rfl, rfl⟩
    unfold factor
    simp only [same, kind, unread]
  · intro t rest kind
    refine .first (r := .found (.literal (.string t.text)) 1) (by simp [kind]) (Nat.le_refl 1)
      fun k rest' _ => ?_
    exact factor_string (t := t.lower k) rest' kind
  · exact fun t rest kind inner => factor_looksAhead_of_group kind inner
  · intro t rest noWord noNumber noString noParen
    apply factor_looksAhead_of_other
    rintro _ ⟨⟩
    simp only [Grammar.Starts, not_or]
    exact ⟨noWord, noNumber, noString, noParen⟩
  -- A call and its arguments.
  · intro f s arguments
    rw [call_eq]
    exact arguments.bind fun es _ => fitting_looksAhead f es _
  · intro s head
    obtain ⟨r, first, closed⟩ := Option.map_eq_some_iff.mp head
    obtain ⟨rest, rfl⟩ := List.head?_eq_some_iff.mp first
    refine .first (r := .found [] 1) (by simp [closed]) (Nat.le_refl 1) fun k rest' _ => ?_
    rw [arguments, if_pos]
    exact head
  · intro s head list
    refine .missing (· = .symbol .rightParen) argumentList (by simp) ?_ ?_ list
    · intro s' none
      rw [arguments, if_neg]
      rintro head
      obtain ⟨r, first, closed⟩ := Option.map_eq_some_iff.mp head
      exact none r first closed
    · exact fun t first closed => head (by rw [first, Option.map_some, closed])
  · intro s first more
    rw [argumentList_eq]
    exact first.bind fun e n => argumentTail_looksAhead (more n)

theorem expr_looksAhead (level : Level) (s : List Token) : Rule.LooksAhead (expr level) s :=
  exprRules_looksAhead.1 level s

theorem operations_looksAhead (level : Level) (left : Expr) (s : List Token) :
    Rule.LooksAhead (operations level left) s := exprRules_looksAhead.2.1 level left s

theorem call_looksAhead (f : Builtin) (s : List Token) : Rule.LooksAhead (call f) s :=
  exprRules_looksAhead.2.2.2.1 f s

theorem arguments_looksAhead (s : List Token) : Rule.LooksAhead arguments s :=
  exprRules_looksAhead.2.2.2.2.1 s

theorem argumentList_looksAhead (s : List Token) : Rule.LooksAhead argumentList s :=
  exprRules_looksAhead.2.2.2.2.2 s

theorem expression_looksAhead (s : List Token) : expression.LooksAhead s := expr_looksAhead .sum s

theorem expressionList_eq :
    expressionList = Rule.bind expression (Rule.further expressionList) := by
  funext s
  rw [expressionList]
  congr 1
  funext e n
  split
  next text place rest after =>
    rw [after]
    rfl
  next none =>
    cases after : s.drop n with
    | nil => rfl
    | cons c more =>
      refine (if_neg fun comma => ?_).symm
      obtain ⟨_, text, place⟩ := c
      cases comma
      exact none text place more after

theorem expressionList_looksAhead (s : List Token) : Rule.LooksAhead expressionList s := by
  -- The induction goes from comma to comma.
  induction s using expressionList.induct with
  | case1 s ih =>
    rw [expressionList_eq]
    refine (expression_looksAhead s).bind fun e n => .further e ?_
    rintro ⟨_, text, place⟩ rest after rfl
    exact ih n text place rest after

theorem relation_looksAhead (s : List Token) :
    Rule.LooksAhead (fun
      | ⟨.symbol (.relation r), _, _⟩ :: _ => .found r 1
      | _ => .absent) s := by
  by_cases other : ∀ t ∈ s.head?, ¬∃ r, t.kind = .symbol (.relation r)
  · refine .missing (fun kind => ∃ r, kind = .symbol (.relation r)) (fun _ => .absent) (by simp)
      (fun s none => ?_) other (.const rfl)
    split
    next => exact absurd ⟨_, rfl⟩ (none _ rfl)
    next => rfl
  · simp only [Classical.not_forall, Classical.not_not] at other
    obtain ⟨⟨_, text, place⟩, head, r, rfl⟩ := other
    obtain ⟨rest, rfl⟩ := List.head?_eq_some_iff.mp head
    exact .first (r := .found r 1) (by simp) (Nat.le_refl 1) fun _ _ _ => rfl

theorem comparison_looksAhead (s : List Token) : comparison.LooksAhead s := by
  refine (expression_looksAhead s).bind fun left n => ?_
  refine (relation_looksAhead _).bind fun relation n => ?_
  exact (expression_looksAhead _).bind fun right n => .pure _

/-! ### Commands -/

theorem identifier_looksAhead (s : List Token) : identifier.LooksAhead s :=
  .token (by decide) (fun _ _ => rfl) fun _ _ => .pure _

theorem labelName_looksAhead (s : List Token) : labelName.LooksAhead s :=
  .token (by decide) (fun _ _ => rfl) fun _ _ => .pure _

theorem identifierList_looksAhead (s : List Token) : (Rule.tokenList identifierItem).LooksAhead s :=
  .tokenList (fun _ _ => rfl) fun t lineEnd => by simp [identifierItem, lineEnd]

theorem literalList_looksAhead (s : List Token) : (Rule.tokenList literalItem).LooksAhead s :=
  .tokenList (fun _ _ => rfl) fun t lineEnd => by simp [literalItem, lineEnd]

theorem assignment_looksAhead (v : Ident) (s : List Token) : (assignment v).LooksAhead s :=
  .expect (by decide) (fun _ _ => rfl) fun _ rest =>
    (expression_looksAhead rest).bind fun _ _ => .pure _

theorem inputVariables_looksAhead (prompt : List Expr) (s : List Token) :
    (inputVariables prompt).LooksAhead s := (identifierList_looksAhead s).bind fun _ _ => .pure _

/-- Behind a prompt: a comma and the variables, or nothing. -/
def promptTail (prompt : List Expr) : Rule Command
  | ⟨.symbol .comma, _, _⟩ :: rest => (inputVariables prompt rest).after 1
  | _ => .found (.input prompt) 0

theorem promptTail_looksAhead (prompt : List Expr) (s : List Token) :
    (promptTail prompt).LooksAhead s := by
  refine .ofKind (.symbol .comma) (fun _ => inputVariables prompt)
    (fun _ => .found (.input prompt) 0) (by decide) ?_ ?_ (fun _ _ => rfl)
    (fun _ rest _ _ => inputVariables_looksAhead prompt rest) (.const rfl)
  · rintro ⟨_, text, place⟩ rest rfl
    rfl
  · intro s other
    simp only [promptTail]
    split
    next => exact absurd rfl (other _ rfl)
    next => rfl

theorem inputItems_looksAhead (s : List Token) : inputItems.LooksAhead s := by
  refine .ofKind .string (fun t => promptTail [.literal (.string t.text)])
    (inputVariables []) (by decide) ?_ ?_ (fun _ _ => rfl)
    (fun _ rest _ _ => promptTail_looksAhead _ rest) (inputVariables_looksAhead [] s)
  · rintro ⟨_, text, place⟩ rest rfl
    simp only [inputItems]
    split
    next same =>
      cases same
      exact (Reply.after_after _ 1 1).symm
    next none same =>
      cases same
      simp only [promptTail]
      rfl
    next none => exact (none _ _ _ rfl).elim
  · intro s other
    simp only [inputItems]
    split
    next => exact absurd rfl (other _ rfl)
    next => exact absurd rfl (other _ rfl)
    next => rfl

theorem loopBounds_looksAhead (s : List Token) : loopBounds.LooksAhead s := by
  refine (identifier_looksAhead s).bind fun v n => ?_
  refine .expect (by decide) (fun _ _ => rfl) fun _ rest => ?_
  refine (expression_looksAhead rest).bind fun first n => ?_
  refine .token (by decide) (fun _ _ => rfl) fun _ rest => ?_
  refine (expression_looksAhead rest).bind fun last n => ?_
  refine Rule.LooksAhead.bind (.accept (by decide)) fun stepped n => ?_
  cases stepped with
  | true => exact (expression_looksAhead _).bind fun step n => .pure _
  | false => exact .pure _

theorem nextVariable_looksAhead (s : List Token) : nextVariable.LooksAhead s := by
  refine .ofKind .word (fun t _ => .found (.next (some ⟨t.text⟩)) 0)
    (fun _ => .found (.next none) 0) (by decide) ?_ ?_ (fun _ _ => rfl)
    (fun _ _ _ _ => .const rfl) (.const rfl)
  · rintro ⟨_, text, place⟩ rest rfl
    rfl
  · intro s other
    simp only [nextVariable]
    split
    next => exact absurd rfl (other _ rfl)
    next => rfl

theorem branchTarget_looksAhead (s : List Token) : branchTarget.LooksAhead s := by
  refine (comparison_looksAhead s).bind fun condition n => ?_
  refine .token (by decide) (fun _ _ => rfl) fun _ rest => ?_
  exact (labelName_looksAhead rest).bind fun _ _ => .pure _

theorem whileTarget_looksAhead (s : List Token) : whileTarget.LooksAhead s := by
  refine (comparison_looksAhead s).bind fun condition n => ?_
  exact (labelName_looksAhead _).bind fun _ _ => .pure _

/-- RETURN takes the line ends behind it, every other command looks to its line. -/
theorem ofKeyword_looksAhead {keyword : Keyword} {rule : Rule Command} (other : keyword ≠ .RETURN)
    (chosen : ofKeyword keyword = some rule) (s : List Token) : rule.LooksAhead s := by
  cases keyword <;> cases chosen
  case PRINT => exact (expressionList_looksAhead s).bind fun _ _ => .pure _
  case READ => exact (identifierList_looksAhead s).bind fun _ _ => .pure _
  case INPUT => exact inputItems_looksAhead s
  case DATA => exact (literalList_looksAhead s).bind fun _ _ => .pure _
  case GOSUB => exact (labelName_looksAhead s).bind fun _ _ => .pure _
  case FOR => exact loopBounds_looksAhead s
  case NEXT => exact nextVariable_looksAhead s
  case RETURN => exact absurd rfl other
  case IF => exact branchTarget_looksAhead s
  case WHILE => exact whileTarget_looksAhead s
  case END => exact .pure _

end Parse

end LabelBasic
