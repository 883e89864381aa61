import LabelBasic.Proofs.Grammar.Exact
import LabelBasic.Proofs.Plans

/-!
# The plans follow the parser

When each request is answered as the parser does, the plan for a request comes to what the parser
answers, and takes the cursor as far. On the way it asks for lighter things only: for something in
front of fewer tokens, or in front of as many and of a goal of lower rank. What makes the difference
is that whatever a rule finds is of at least one token, so that behind it anything can be asked for.
-/
namespace LabelBasic

variable {α β : Type}

/-! ### What is found is of at least one token -/

/-- The rule goes no further than the tokens do, and what it finds is of at least one of them. -/
def Rule.Advances (rule : Rule α) : Prop :=
  ∀ s, (rule s).used ≤ s.length ∧ ∀ a, (rule s).outcome = .found a → 0 < (rule s).used

namespace Rule.Advances

variable {rule : Rule α} {next : α → Rule β}

theorem of_sound {D : List Token → α → Prop} (looks : ∀ s, rule.LooksAhead s)
    (sound : rule.Sound D) (nonempty : ∀ p a, D p a → p ≠ []) : rule.Advances := by
  refine fun s => ⟨(looks s).settled.within, fun a found => ?_⟩
  obtain ⟨p, _, _, used, derived⟩ := sound s a found
  exact used ▸ List.length_pos_iff.mpr (nonempty p a derived)

theorem bind (first : rule.Advances) (looks : ∀ s, (rule.bind next).LooksAhead s) :
    (rule.bind next).Advances := by
  refine fun s => ⟨(looks s).settled.within, fun b found => ?_⟩
  cases outcome : (rule s).outcome with
  | found a => exact Nat.lt_of_lt_of_le ((first s).2 a outcome) (Reply.used_le_andThen _ _)
  | absent | failed => simp [Rule.bind, Reply.andThen, outcome] at found

/-- Where something is found, less is left. -/
theorem shorter (advances : rule.Advances) {s : List Token} {a : α}
    (found : (rule s).outcome = .found a) :
    (s.drop (rule s).used).length < s.length := by
  obtain ⟨within, pos⟩ := advances s
  have := pos a found
  rw [List.length_drop]
  omega

end Rule.Advances

namespace Parse

theorem expr_advances (level : Level) : Rule.Advances (expr level) :=
  .of_sound (expr_looksAhead level) (expr_sound level) fun _ _ => Grammar.nonempty_of_derives

theorem factor_advances : Rule.Advances factor := expr_factor ▸ expr_advances .factor

theorem argumentList_advances : Rule.Advances argumentList := by
  have looks := argumentList_looksAhead
  rw [argumentList_eq] at looks ⊢
  exact (expr_advances .sum).bind looks

theorem arguments_advances : Rule.Advances arguments := by
  refine fun s => ⟨(arguments_looksAhead s).settled.within, fun es found => ?_⟩
  by_cases closed : s.head?.map Token.kind = some (.symbol .rightParen)
  · rw [arguments, if_pos closed]
    exact Nat.zero_lt_one
  · rw [arguments, if_neg closed] at found ⊢
    exact (argumentList_advances s).2 es found

theorem call_advances (f : Builtin) : Rule.Advances (call f) := by
  have looks := call_looksAhead f
  rw [call_eq] at looks ⊢
  exact arguments_advances.bind looks

theorem expressionList_advances : Rule.Advances expressionList :=
  .of_sound expressionList_looksAhead expressionList_sound fun _ _ => Grammar.nonempty_of_list

theorem nonempty_of_items {item : Token → α → Prop} {p : List Token} {as : List α}
    (derived : Grammar.DerivesItems item p as) : p ≠ [] := by
  cases derived <;> exact List.cons_ne_nil _ _

theorem literalList_advances : Rule.Advances (Rule.tokenList literalItem) :=
  .of_sound literalList_looksAhead (tokenList_sound literalItem_denotes) fun _ _ => nonempty_of_items

theorem identifierList_advances : Rule.Advances (Rule.tokenList identifierItem) :=
  .of_sound identifierList_looksAhead (tokenList_sound identifierItem_names)
    fun _ _ => nonempty_of_items

theorem statement_advances : Rule.Advances statement := by
  refine fun s => ⟨(statement_settled s).within, fun st found => ?_⟩
  have reply : statement s = ⟨.found st, (statement s).used, (statement s).log⟩ := by rw [← found]
  exact statement_used_pos reply

theorem Request.used_le (q : Request) : q.used ≤ q.tokens.length := by
  obtain ⟨goal, s⟩ := q
  cases goal with
  | expr level => exact (expr_advances level s).1
  | operations level left => exact (operations_looksAhead level left s).settled.within
  | factor => exact (factor_advances s).1
  | call f => exact (call_advances f s).1
  | arguments => exact (arguments_advances s).1
  | argumentList => exact (argumentList_advances s).1
  | expressionList => exact (expressionList_advances s).1
  | literalList => exact (literalList_advances s).1
  | identifierList => exact (identifierList_advances s).1
  | lineEnds => exact separators_le s
  | statement => exact (statement_advances s).1
  | statements =>
    exact (statements_settled fun n _ _ => program_settled (s.drop n)).within
  | program => exact (program_settled s).within

/-! ### Plans that lead to an answer -/

/-- Where no token is used, a request leads to goals of lower rank only. -/
def Goal.rank : Goal → Nat
  | .factor | .operations _ _ | .literalList | .identifierList | .lineEnds | .statement => 0
  | .expr level => level.rank + 1
  | .statements => 1
  | .program => 2
  | .argumentList | .expressionList => 4
  | .arguments => 5
  | .call _ => 6

theorem Goal.rank_lt (g : Goal) : g.rank < 7 := by
  cases g with
  | expr level => cases level <;> decide
  | _ => simp only [rank]; decide

def Request.weight (q : Request) : Nat := 7 * q.tokens.length + q.goal.rank

/-- With the answers of the parser the plan comes to a result. Each request weighs less than `bound`.
The cursor never goes back: it is in front of `s` at first, each request starts where it is or
further ahead and takes it to what is left, and it ends in front of `e`. -/
def Plan.Leads (bound : Nat) (s : List Token) : Plan α → α → List Token → Prop
  | done b, a, e => b = a ∧ e <:+ s
  | ask q next, a, e =>
    q.weight < bound ∧ q.tokens <:+ s ∧ (next q.answer).Leads bound q.rest a e

namespace Plan.Leads

variable {bound bound' : Nat} {s m e : List Token} {p : Plan α} {a : α} {b : β}

theorem done (ahead : e <:+ s) : (Plan.done a).Leads bound s a e := ⟨rfl, ahead⟩

theorem ask {g : Goal} (light : 7 * s.length + g.rank < bound) :
    (Draft.ask g s).Leads bound s (Request.answer ⟨g, s⟩) (Request.rest ⟨g, s⟩) :=
  ⟨light, List.suffix_rfl, rfl, List.suffix_rfl⟩

theorem ahead (leads : p.Leads bound m a e) (ahead : m <:+ s) : p.Leads bound s a e := by
  cases p with
  | done b => exact ⟨leads.1, leads.2.trans ahead⟩
  | ask q next => exact ⟨leads.1, leads.2.1.trans ahead, leads.2.2⟩

theorem bind {next : α → Plan β} (first : p.Leads bound s a m)
    (more : (next a).Leads bound m b e) : (p.bind next).Leads bound s b e := by
  induction p generalizing s with
  | done a' =>
    obtain ⟨rfl, ahead⟩ := first
    exact more.ahead ahead
  | ask q next' ih =>
    obtain ⟨light, ahead, rest⟩ := first
    exact ⟨light, ahead, ih q.answer rest⟩

theorem map (f : α → β) (leads : p.Leads bound s a e) : (p.map f).Leads bound s (f a) e :=
  leads.bind (done List.suffix_rfl)

theorem mono (leads : p.Leads bound s a e) (le : bound ≤ bound') : p.Leads bound' s a e := by
  induction p generalizing s with
  | done => exact leads
  | ask q next ih => exact ⟨Nat.lt_of_lt_of_le leads.1 le, leads.2.1, ih q.answer leads.2.2⟩

theorem askAny (g : Goal) (s : List Token) :
    (Draft.ask g s).Leads (7 * s.length + 7) s (Request.answer ⟨g, s⟩) (Request.rest ⟨g, s⟩) :=
  .ask (Nat.add_lt_add_left g.rank_lt _)

end Plan.Leads

/-- The plan leads to what the rule answers, and takes the cursor there. -/
def Draft.Follows (bound : Nat) (d : Draft α) (rule : Rule α) (s : List Token) : Prop :=
  (d s).Leads bound s (rule s) (s.drop (rule s).used)

/-- The plan follows the rule, and asks for anything that there is to ask of the tokens. -/
def Draft.Drafts (d : Draft α) (rule : Rule α) : Prop :=
  ∀ s, d.Follows (7 * s.length + 7) rule s

namespace Draft

variable {bound : Nat} {d : Draft α} {rule : Rule α} {next : α → Draft β} {next' : α → Rule β}
  {s : List Token}

theorem Drafts.follows (drafts : d.Drafts rule) (le : 7 * s.length + 7 ≤ bound) :
    d.Follows bound rule s := (drafts s).mono le

namespace Follows

theorem ofRule : (ofRule rule).Follows bound rule s := .done (List.drop_suffix _ s)

theorem bind (first : d.Follows bound rule s)
    (more : ∀ a, (rule s).outcome = .found a →
      (next a).Follows bound (next' a) (s.drop (rule s).used)) :
    (d.bind next).Follows bound (rule.bind next') s := by
  refine Plan.Leads.bind first ?_
  -- What is behind starts where the first part has left the cursor.
  simp only [Rule.bind]
  cases outcome : (rule s).outcome with
  | absent | failed =>
    simp only [Reply.andThen, outcome]
    exact .done List.suffix_rfl
  | found a =>
    have leads := (more a outcome).map fun r => (rule s).andThen fun _ _ => r
    simpa only [Reply.andThen, outcome, List.drop_drop] using leads

/-- Behind something that is found, anything can be asked for. -/
theorem bind_found (advances : rule.Advances) (full : 7 * s.length ≤ bound)
    (first : d.Follows bound rule s) (more : ∀ a, (next a).Drafts (next' a)) :
    (d.bind next).Follows bound (rule.bind next') s := by
  refine first.bind fun a found => (more a).follows ?_
  have := advances.shorter found
  omega

/-- Plan and rule both go on behind some tokens. -/
theorem behind {d' : Draft β} {rule' : Rule β} {n : Nat} (h : Reply α → Reply β)
    (follows : d.Follows bound rule (s.drop n)) (plan : d' s = (d (s.drop n)).map h)
    (reply : rule' s = h (rule (s.drop n)))
    (count : (h (rule (s.drop n))).used = n + (rule (s.drop n)).used) :
    d'.Follows bound rule' s := by
  rw [Follows, plan, reply, count, ← List.drop_drop]
  exact (follows.map h).ahead (List.drop_suffix n s)

theorem congr {d' : Draft α} {rule' : Rule α} (follows : d.Follows bound rule s)
    (plan : d' s = d s) (reply : rule' s = rule s) : d'.Follows bound rule' s := by
  rwa [Follows, plan, reply]

theorem done {r : Reply α} (plan : d s = .done r) (reply : rule s = r) :
    d.Follows bound rule s := by
  rw [Follows, plan, reply]
  exact .done (List.drop_suffix _ s)

end Follows

namespace Drafts

theorem ofRule : (ofRule rule).Drafts rule := fun _ => .ofRule

theorem pure (a : α) : (Pure.pure a : Draft α).Drafts (Pure.pure a) := .ofRule

theorem bind (first : d.Drafts rule) (more : ∀ a, (next a).Drafts (next' a)) :
    (d >>= next).Drafts (rule >>= next') := by
  refine fun s => (first s).bind fun a _ => (more a).follows ?_
  rw [List.length_drop]
  omega

end Drafts

/-! ### Expressions -/

theorem expr_drafts (level : Level) : (expr level).Drafts (Parse.expr level) :=
  .askAny (.expr level)

theorem expression_drafts : expression.Drafts Parse.expression := expr_drafts .sum

theorem further_drafts (level : Level) (left : Expr) :
    (further level left).Drafts (Parse.operations level left) :=
  .askAny (.operations level left)

theorem chain_follows {level : Level} (tight : level.tighter.rank < level.rank) :
    (chain level).Follows (7 * s.length + (level.rank + 1))
      (Rule.bind (Parse.expr level.tighter) (Parse.operations level)) s := by
  -- The operand is in front of the same tokens, so that its rank has to be lower.
  refine .bind_found (expr_advances level.tighter) (Nat.le_add_right _ _) ?_ (further_drafts level)
  exact .ask (Nat.add_lt_add_left (Nat.succ_lt_succ tight) _)

theorem operand_follows (level : Level) :
    (operand level).Follows (7 * s.length + (level.rank + 1)) (Parse.expr level) s := by
  cases level with
  | factor =>
    rw [expr_factor]
    exact Plan.Leads.ask (g := .factor) (Nat.lt_succ_self _)
  | product =>
    rw [expr_product]
    exact chain_follows (by decide)
  | sum =>
    rw [expr_sum]
    exact chain_follows (by decide)

theorem operation_drafts (level : Level) (left : Expr) (op : Operator) :
    (operation level left op).Drafts (Rule.bind (Parse.expr level.tighter) fun right =>
      Parse.operations level (.arithmetic op left right)) :=
  (expr_drafts level.tighter).bind fun _ => further_drafts level _

theorem operations_follows (level : Level) (left : Expr) :
    (operations level left).Follows (7 * s.length) (Parse.operations level left) s := by
  by_cases binds : ∃ t rest op, s = t :: rest ∧ t.kind = .symbol (.operator op) ∧ op.level = level
  · obtain ⟨⟨_, text, place⟩, rest, op, rfl, rfl, binds⟩ := binds
    -- The operator itself is the token that makes all that follows lighter.
    have turn := operation_drafts level left op rest
    exact .behind (n := 1) (.after 1) turn (if_pos binds)
      (operations_of_level left rest rfl binds) rfl
  · have done : ∀ t ∈ s.head?, ∀ op, t.kind = .symbol (.operator op) → op.level ≠ level := by
      intro t head op kind same
      obtain ⟨rest, rfl⟩ := List.head?_eq_some_iff.mp head
      exact binds ⟨t, rest, op, rfl, kind, same⟩
    refine .done ?_ (operations_done done)
    unfold operations
    split
    next op text place rest => rw [if_neg (done _ rfl op rfl)]
    next => rfl

theorem called_drafts (f : Builtin) : (called f).Drafts (Parse.call f) := .askAny (.call f)

theorem group_drafts :
    group.Drafts (Rule.bind (Parse.expr .sum) fun e => closing e (.failed .expectedRightParen)) :=
  expression_drafts.bind fun _ => .ofRule

theorem factor_follows_of_word {t : Token} {rest : List Token} (kind : t.kind = .word) :
    factor.Follows (7 * (t :: rest).length) Parse.factor (t :: rest) := by
  by_cases call : ∃ f l inner,
    Builtin.ofName? t.text = some f ∧ rest = l :: inner ∧ l.kind = .symbol .leftParen
  · obtain ⟨f, ⟨_, text, place⟩, inner, named, rfl, rfl⟩ := call
    have inside : (called f).Follows (7 * (inner.length + 2)) (Parse.call f) inner :=
      (called_drafts f).follows (by omega)
    refine .behind (n := 2) (.after 2) inside ?_ (factor_call inner kind named rfl) rfl
    simp only [factor, kind, named]
    rfl
  · have noCall : (Builtin.ofName? t.text).isSome → ∀ l ∈ rest.head?, l.kind ≠ .symbol .leftParen := by
      intro named l head opened
      obtain ⟨f, named⟩ := Option.isSome_iff_exists.mp named
      obtain ⟨inner, rfl⟩ := List.head?_eq_some_iff.mp head
      exact call ⟨f, l, inner, named, rfl, opened⟩
    refine .done ?_ (factor_variable kind noCall)
    simp only [factor, kind]
    split
    next f text place inner named => exact absurd rfl (noCall (by simp [named]) _ rfl)
    next => rfl

theorem factor_follows : factor.Follows (7 * s.length) Parse.factor s := by
  cases s with
  | nil => exact .done rfl (factor_other (by simp))
  | cons t rest =>
    -- The first token decides; there are four sorts that a factor starts with.
    have other (none : ¬Grammar.Starts t) :
        factor.Follows (7 * (t :: rest).length) Parse.factor (t :: rest) := by
      refine .done ?_ (factor_other (by simpa using none))
      simp only [Grammar.Starts, not_or] at none
      simp only [factor]
      split <;> simp_all
    cases kind : t.kind with
    | word => exact factor_follows_of_word kind
    | number =>
      cases read : Value.ofNumeral? t.text with
      | some value =>
        refine .done ?_ (factor_number rest kind read)
        simp only [factor, kind, read]
      | none =>
        refine .done (r := .failed .invalidNumber) ?_ ?_
        · simp only [factor, kind, read]
        · unfold Parse.factor
          simp only [kind, read]
    | string =>
      refine .done ?_ (factor_string rest kind)
      simp only [factor, kind]
    | symbol c =>
      by_cases opened : c = .leftParen
      · subst opened
        refine .behind (n := 1) (.after 1) (group_drafts rest) ?_ (factor_group rest kind) rfl
        simp only [factor, kind]
        rfl
      · exact other (by simp [Grammar.Starts, kind, opened])
    | label | endOfLine | keyword => exact other (by simp [Grammar.Starts, kind])

theorem call_follows (f : Builtin) :
    (call f).Follows (7 * s.length + 6) (Parse.call f) s := by
  rw [call_eq]
  refine .bind_found arguments_advances (Nat.le_add_right _ _) ?_ fun _ => .ofRule
  exact .ask (Nat.add_lt_add_left (by decide) _)

theorem someArguments_drafts : someArguments.Drafts Parse.argumentList := .askAny .argumentList

theorem arguments_follows : arguments.Follows (7 * s.length + 5) Parse.arguments s := by
  by_cases closed : s.head?.map Token.kind = some (.symbol .rightParen)
  · exact .done (if_pos closed) (by rw [Parse.arguments, if_pos closed])
  · have list : someArguments.Follows (7 * s.length + 5) Parse.argumentList s :=
      .ask (Nat.add_lt_add_left (by decide) _)
    exact list.congr (if_neg closed) (by rw [Parse.arguments, if_neg closed])

theorem argumentTail_drafts (e : Expr) : (argumentTail e).Drafts (Parse.argumentTail e) := by
  rintro (_ | ⟨⟨kind, text, place⟩, rest⟩)
  · exact .done rfl rfl
  cases kind with
  | symbol c =>
    cases c with
    | comma =>
      exact .behind (n := 1) (fun r => (r.map (e :: ·)).after 1)
        ((someArguments_drafts rest).mono (Nat.le_add_right _ 7)) rfl rfl
        (congrArg (1 + ·) (Reply.used_map _ _))
    | relation | operator | leftParen | rightParen => exact .done rfl rfl
  | word | number | string | label | endOfLine | keyword => exact .done rfl rfl

theorem argumentList_follows : argumentList.Follows (7 * s.length + 4) Parse.argumentList s := by
  rw [argumentList_eq]
  refine .bind_found (expr_advances .sum) (Nat.le_add_right _ _) ?_ argumentTail_drafts
  exact .ask (Nat.add_lt_add_left (by decide) _)

theorem expressions_drafts : expressions.Drafts Parse.expressionList := .askAny .expressionList

theorem listTail_drafts {rule : Rule (List α)} {more : Draft (List α)} (drafts : more.Drafts rule)
    (a : α) : (listTail more a).Drafts (rule.further a) := by
  rintro (_ | ⟨t, rest⟩)
  · exact .done rfl rfl
  by_cases comma : t.kind = .symbol .comma
  · exact .behind (n := 1) (fun r => (r.map (a :: ·)).after 1)
      ((drafts rest).mono (Nat.le_add_right _ 7)) (if_pos comma) (if_pos comma)
      (congrArg (1 + ·) (Reply.used_map _ _))
  · exact .done (if_neg comma) (if_neg comma)

theorem expressionList_follows :
    expressionList.Follows (7 * s.length + 4) Parse.expressionList s := by
  rw [expressionList_eq]
  refine .bind_found (expr_advances .sum) (Nat.le_add_right _ _) ?_
    (listTail_drafts expressions_drafts)
  exact .ask (Nat.add_lt_add_left (by decide) _)

theorem comparison_drafts : comparison.Drafts Parse.comparison := by
  refine expression_drafts.bind fun left => ?_
  refine Drafts.ofRule.bind fun relation => ?_
  exact expression_drafts.bind fun right => .pure _

/-! ### Lists of items of one token -/

theorem tokenList_follows {item : Token → Outcome α} {more : Draft (List α)}
    (drafts : more.Drafts (Rule.tokenList item)) :
    (tokenList item more).Follows (7 * s.length) (Rule.tokenList item) s := by
  cases s with
  | nil => exact .done rfl rfl
  | cons t rest =>
    cases found : item t with
    | absent =>
      refine .done (r := .absent) ?_ ?_
      · simp only [tokenList, found]
      · simp only [Rule.tokenList, found]
    | failed f =>
      refine .done (r := .failed f) ?_ ?_
      · simp only [tokenList, found]
      · simp only [Rule.tokenList, found]
    | found a =>
      have tail := listTail_drafts drafts a rest
      refine .behind (n := 1) (.after 1) tail ?_ (Rule.tokenList_of_found found rest) rfl
      simp only [tokenList, found]
      rfl

theorem literals_drafts : literals.Drafts (Rule.tokenList literalItem) := .askAny .literalList

theorem identifiers_drafts : identifiers.Drafts (Rule.tokenList identifierItem) :=
  .askAny .identifierList

theorem lineEnds_leads (s : List Token) :
    (lineEnds s).Leads (7 * s.length) s (separators s) (s.drop (separators s)) := by
  cases s with
  | nil => exact .done List.suffix_rfl
  | cons t rest =>
    by_cases lineEnd : t.kind = .endOfLine
    · have more := (Plan.Leads.askAny .lineEnds rest).map (· + 1)
      rw [lineEnds, if_pos lineEnd, separators_cons lineEnd]
      exact more.ahead (List.suffix_cons t rest)
    · rw [lineEnds, if_neg lineEnd, separators_cons_of_plain lineEnd]
      exact .done List.suffix_rfl

/-! ### Commands -/

theorem assignment_drafts (v : Ident) : (assignment v).Drafts (Parse.assignment v) :=
  Drafts.ofRule.bind fun _ => expression_drafts.bind fun _ => .pure _

theorem inputVariables_drafts (prompt : List Expr) :
    (inputVariables prompt).Drafts (Parse.inputVariables prompt) :=
  identifiers_drafts.bind fun _ => .pure _

theorem returnEnd_drafts : returnEnd.Drafts Parse.returnEnd := by
  intro s
  rw [Follows, used_returnEnd]
  exact ⟨Nat.add_lt_add_left (Goal.rank_lt .lineEnds) _, List.suffix_rfl, rfl, List.suffix_rfl⟩

theorem loopBounds_drafts : loopBounds.Drafts Parse.loopBounds := by
  refine Drafts.ofRule.bind fun v => ?_
  refine Drafts.ofRule.bind fun _ => ?_
  refine expression_drafts.bind fun first => ?_
  refine Drafts.ofRule.bind fun _ => ?_
  refine expression_drafts.bind fun last => ?_
  refine Drafts.ofRule.bind fun stepped => ?_
  cases stepped with
  | true => exact expression_drafts.bind fun step => .pure _
  | false => exact .pure _

theorem branchTarget_drafts : branchTarget.Drafts Parse.branchTarget := by
  refine comparison_drafts.bind fun condition => ?_
  exact Drafts.ofRule.bind fun _ => Drafts.ofRule.bind fun _ => .pure _

theorem whileTarget_drafts : whileTarget.Drafts Parse.whileTarget :=
  comparison_drafts.bind fun _ => Drafts.ofRule.bind fun _ => .pure _

theorem inputItems_drafts : inputItems.Drafts Parse.inputItems := by
  have variables_drafts (s : List Token) := inputVariables_drafts [] s
  rintro (_ | ⟨⟨kind, text, place⟩, rest⟩)
  · exact variables_drafts []
  cases kind with
  | string =>
    cases rest with
    | nil => exact .done rfl rfl
    | cons c tail =>
      obtain ⟨kind', text', place'⟩ := c
      cases kind' with
      | symbol c =>
        cases c with
        | comma =>
          exact .behind (n := 2) (.after 2)
            ((inputVariables_drafts _ tail).mono (Nat.le_add_right _ 14)) rfl rfl rfl
        | relation | operator | leftParen | rightParen => exact .done rfl rfl
      | word | number | string | label | endOfLine | keyword => exact .done rfl rfl
  | word | number | label | endOfLine | keyword | symbol => exact variables_drafts _

theorem ofKeyword_drafts {k : Keyword} {rule : Rule Command}
    (chosen : Parse.ofKeyword k = some rule) : ∃ d, ofKeyword k = some d ∧ d.Drafts rule := by
  cases k <;> cases chosen
  case PRINT => exact ⟨_, rfl, expressions_drafts.bind fun _ => .pure _⟩
  case READ => exact ⟨_, rfl, identifiers_drafts.bind fun _ => .pure _⟩
  case INPUT => exact ⟨_, rfl, inputItems_drafts⟩
  case DATA => exact ⟨_, rfl, literals_drafts.bind fun _ => .pure _⟩
  case GOSUB => exact ⟨_, rfl, .ofRule⟩
  case FOR => exact ⟨_, rfl, loopBounds_drafts⟩
  case NEXT => exact ⟨_, rfl, .ofRule⟩
  case RETURN => exact ⟨_, rfl, returnEnd_drafts⟩
  case IF => exact ⟨_, rfl, branchTarget_drafts⟩
  case WHILE => exact ⟨_, rfl, whileTarget_drafts⟩
  case END => exact ⟨_, rfl, .ofRule⟩

theorem command_follows : command.Follows (7 * s.length) startedCommand s := by
  cases s with
  | nil => exact .done rfl rfl
  | cons t rest =>
    obtain ⟨kind, text, place⟩ := t
    cases kind with
    | word => exact .behind (n := 1) (.after 1) (assignment_drafts _ rest) rfl rfl rfl
    | keyword k =>
      cases chosen : Parse.ofKeyword k with
      | some rule =>
        obtain ⟨d, planned, drafts⟩ := ofKeyword_drafts chosen
        refine .behind (n := 1) (.after 1) (drafts rest) ?_ ?_ rfl
        · simp only [command, planned]
          rfl
        · simp only [startedCommand, Parse.command, chosen]
          rfl
      | none => cases k <;> cases chosen <;> exact .done rfl rfl
    | number | string | label | endOfLine | symbol => exact .done rfl rfl

/-! ### Statements and programs -/

theorem labeled_drafts : labeled.Drafts Parse.statement := .askAny .statement

theorem statement_follows : statement.Follows (7 * s.length) Parse.statement s := by
  cases s with
  | nil => exact .done rfl rfl
  | cons t rest =>
    by_cases label : t.kind = .label
    · refine .behind (n := 1) _ (labeled_drafts rest) (if_pos label) ?_ ?_
      · rw [Parse.statement, if_pos label]
        rfl
      · exact congrArg (1 + ·) (Reply.used_map _ _)
    · refine .behind (n := 0) _ command_follows (if_neg label) ?_ ?_
      · rw [Parse.statement, if_neg label]
        rfl
      · rw [Reply.used_map, Nat.zero_add]

theorem proceed_leads (s : List Token) :
    (proceed (Parse.statement s) s).Leads (7 * s.length) (s.drop (Parse.statement s).used)
      (Parse.statements s) (s.drop (Parse.statements s).used) := by
  rw [statements_eq, proceed]
  cases outcome : (Parse.statement s).outcome with
  | found st =>
    have shorter := statement_advances.shorter outcome
    have more := (Plan.Leads.askAny .program (s.drop (Parse.statement s).used)).mono
      (show _ ≤ 7 * s.length by omega)
    have leads := more.map (Progress.ofReply (Parse.statement s))
    simp only [Progress.ofReply, outcome, ← List.drop_drop] at leads ⊢
    exact leads
  | absent | failed =>
    simp only [Progress.ofReply, outcome]
    exact .done List.suffix_rfl

theorem statements_leads (s : List Token) :
    (statements s).Leads (7 * s.length + 1) s (Parse.statements s)
      (s.drop (Parse.statements s).used) :=
  ⟨Nat.lt_succ_self _, List.suffix_rfl, (proceed_leads s).mono (Nat.le_succ _)⟩

theorem program_leads (s : List Token) :
    (program s).Leads (7 * s.length + 2) s (Parse.program s)
      (s.drop (Parse.program s).used) := by
  have fewer : (s.drop (separators s)).length ≤ s.length := (List.drop_suffix _ s).length_le
  have more : (ask .statements (s.drop (separators s))).Leads (7 * s.length + 2) _ _ _ :=
    .ask (by simp only [Goal.rank]; omega)
  have leads := more.map (Progress.behind (separators s))
  refine ⟨Nat.lt_add_of_pos_right (by decide), List.suffix_rfl, ?_⟩
  rw [Parse.program, Progress.behind, ← List.drop_drop]
  exact leads

end Draft

/-! ### Requests -/

namespace Request

theorem leads (q : Request) : q.plan.Leads q.weight q.tokens q.answer q.rest := by
  obtain ⟨goal, s⟩ := q
  cases goal with
  | expr level => exact Draft.operand_follows level
  | operations level left => exact Draft.operations_follows level left
  | factor => exact Draft.factor_follows
  | call f => exact Draft.call_follows f
  | arguments => exact Draft.arguments_follows
  | argumentList => exact Draft.argumentList_follows
  | expressionList => exact Draft.expressionList_follows
  | literalList => exact Draft.tokenList_follows Draft.literals_drafts
  | identifierList => exact Draft.tokenList_follows Draft.identifiers_drafts
  | lineEnds => exact Draft.lineEnds_leads s
  | statement => exact Draft.statement_follows
  | statements => exact Draft.statements_leads s
  | program => exact Draft.program_leads s

end Request

end Parse

end LabelBasic
