import LabelBasic.Proofs.Plans.Following
import Mathlib.Data.List.Chain

/-!
# Parsing goes forward and ends

A request leads to lighter ones only, so that following the plans comes to an end, with the answers
of the parser, at a depth that is linear in the number of tokens. Requests that come back to the
same goal have used a token on the way, and the cursor never goes back.
-/
namespace LabelBasic.Parse

variable {α : Type}

/-- The goals are the same, but for what a chain of operations has come to so far. -/
def Goal.Resumes : Goal → Goal → Prop
  | .operations level _, .operations level' _ => level' = level
  | g, g' => g' = g

/-- What a program is parsed to, by how far parsing its tokens has come. -/
def Progress.parsed (ts : List Token) (p : Progress) : Parsed :=
  match p.fault? with
  | some f => ⟨.error (f.report ((Cursor.ofList ts).skip p.used)), p.log⟩
  | none =>
    ⟨.ok p.statements, p.log ++ (ts.drop p.used).head?.toList.map .unparsed ++
      [.parsed p.statements.length]⟩

namespace Plan.Leads

variable {bound : Nat} {s e : List Token} {p : Plan α} {a : α}

theorem weight_lt (leads : p.Leads bound s a e) {q : Request} (asked : q ∈ p.requests) :
    q.weight < bound := by
  induction p generalizing s with
  | done => cases asked
  | ask r next ih =>
    obtain ⟨light, _, rest⟩ := leads
    rcases List.mem_cons.mp asked with rfl | later
    · exact light
    · exact ih r.answer rest later

theorem result?_eq (leads : p.Leads bound s a e) {answer? : (q : Request) → Option q.goal.Answer}
    (answered : ∀ q, q.weight < bound → answer? q = some q.answer) :
    p.result? answer? = some a := by
  induction p generalizing s with
  | done => exact congrArg some leads.1
  | ask q next ih =>
    obtain ⟨light, _, rest⟩ := leads
    rw [Plan.result?, answered q light]
    exact ih q.answer rest

/-- Inside each request the cursor goes forward, and so it does from one to the next. -/
theorem isChain (leads : p.Leads bound s a e) {way : Request → List (List Token)}
    (inside : ∀ q, (q.tokens :: (way q ++ [q.rest])).IsChain fun s s' => s' <:+ s) :
    (s :: (p.requests.flatMap (fun q => q.tokens :: (way q ++ [q.rest])) ++ [e])).IsChain
      fun s s' => s' <:+ s := by
  induction p generalizing s with
  | done => simpa [Plan.requests] using leads.2
  | ask q next ih =>
    obtain ⟨_, ahead, rest⟩ := leads
    simp only [Plan.requests, List.flatMap_cons, List.cons_append, List.append_assoc,
      List.nil_append]
    exact List.isChain_cons_cons.mpr
      ⟨ahead, List.isChain_cons_split.mpr ⟨inside q, ih q.answer rest⟩⟩

end Plan.Leads

namespace Request

theorem within_eq {q : Request} {depth : Nat} (deep : q.weight < depth) :
    q.within depth = some q.answer := by
  -- The requests that are made for its sake are lighter, so that one level less is enough for them.
  induction depth generalizing q with
  | zero => cases deep
  | succ depth ih =>
    exact q.leads.result?_eq fun r light => ih (Nat.lt_of_lt_of_le light (Nat.le_of_lt_succ deep))

theorem isChain_way (depth : Nat) (q : Request) :
    (q.tokens :: (q.way depth ++ [q.rest])).IsChain fun s s' => s' <:+ s := by
  induction depth generalizing q with
  | zero => exact List.isChain_pair.mpr (List.drop_suffix q.used q.tokens)
  | succ depth ih => exact q.leads.isChain ih

theorem weight_lt_of_asks {q r : Request} (asks : Relation.TransGen Asks q r) :
    r.weight < q.weight := by
  induction asks with
  | single asked => exact (leads _).weight_lt asked
  | tail _ asked lighter => exact Nat.lt_trans ((leads _).weight_lt asked) lighter

end Request

theorem Goal.Resumes.rank_eq {g g' : Goal} (resumes : g.Resumes g') : g'.rank = g.rank := by
  unfold Resumes at resumes
  split at resumes
  next => rfl
  next => rw [resumes]

/-- A chain of operations that uses no token has no operation. -/
theorem operations_of_unused {level : Level} {left : Expr} {s : List Token}
    (unused : (operations level left s).used = 0) : operations level left s = .found left 0 := by
  refine operations_done fun t head op kind binds => ?_
  have pos := @used_operations_pos level left s t op head kind binds
  omega

/-- On every list of tokens parsing goes forward and ends. No rule goes past the end of the tokens.
A statement, an expression, a factor or a call that is found is of at least one token, and so is a
list; a chain of operations of no token has no operation. The cursor never goes back, inside any
request and down to any depth. A request that comes back to its own goal, through however many
others, has used a token by then: that is each turn of a loop but the last one, and each label and
each parenthesis. So what is planned without any reason to end comes to the answers of the parser
at a depth that is linear in the number of tokens, and a program is parsed, however malformed. -/
theorem parsing_advances_and_ends :
    (Rule.Advances statement ∧ (∀ level, Rule.Advances (expr level)) ∧ Rule.Advances factor ∧
      ∀ f, Rule.Advances (call f)) ∧
    (Rule.Advances expressionList ∧ Rule.Advances argumentList ∧
      Rule.Advances (Rule.tokenList literalItem) ∧
      Rule.Advances (Rule.tokenList identifierItem) ∧
      ∀ level left s, (operations level left s).used = 0 → operations level left s = .found left 0) ∧
    (∀ q : Request, q.used ≤ q.tokens.length ∧ ∀ depth,
      (q.tokens :: (q.way depth ++ [q.rest])).IsChain fun s s' => s' <:+ s) ∧
    (∀ q r : Request, Relation.TransGen Request.Asks q r → q.goal.Resumes r.goal →
      r.tokens.length < q.tokens.length) ∧
    (∀ (q : Request) depth, 7 * q.tokens.length + 7 ≤ depth → q.within depth = some q.answer) ∧
    ∀ ts depth, 7 * ts.length + 7 ≤ depth →
      (Request.within depth ⟨.program, ts⟩).map (Progress.parsed ts) = some (parse ts) := by
  have answered (q : Request) (depth : Nat) (deep : 7 * q.tokens.length + 7 ≤ depth) :
      q.within depth = some q.answer :=
    Request.within_eq (Nat.lt_of_lt_of_le (Nat.add_lt_add_left q.goal.rank_lt _) deep)
  refine ⟨⟨statement_advances, expr_advances, factor_advances, call_advances⟩,
    ⟨expressionList_advances, argumentList_advances, literalList_advances,
      identifierList_advances, fun _ _ _ => operations_of_unused⟩,
    fun q => ⟨q.used_le, fun depth => q.isChain_way depth⟩, fun q r asks resumes => ?_, answered,
    fun ts depth deep => ?_⟩
  · have lighter := Request.weight_lt_of_asks asks
    have same := resumes.rank_eq
    simp only [Request.weight] at lighter
    omega
  · rw [answered ⟨.program, ts⟩ depth deep]
    exact congrArg some (parse_eq ts).symm

private def labelToken : Token := ⟨.label, some "a", ⟨1, 0⟩⟩

private def printToken : Token := ⟨.keyword .PRINT, none, ⟨1, 3⟩⟩

private def openToken : Token := ⟨.symbol .leftParen, none, ⟨1, 9⟩⟩

private def textToken : Token := ⟨.string, some "b", ⟨1, 10⟩⟩

private def commaToken : Token := ⟨.symbol .comma, none, ⟨1, 13⟩⟩

/-- Behind a string and a comma a list goes on, whatever follows; and a parenthesis that is not
closed is a syntax error at the comma. -/
theorem parsing_advances_and_ends_of_open_parenthesis :
    (Request.Asks ⟨.literalList, [textToken, commaToken, openToken]⟩ ⟨.literalList, [openToken]⟩ ∧
      Goal.literalList.Resumes .literalList ∧
      [openToken].length < [textToken, commaToken, openToken].length) ∧
    7 * 5 + 7 ≤ 42 ∧
    (parse [labelToken, printToken, openToken, textToken, commaToken]).result =
      .error ⟨.syntaxError, some 1, ⟨13, 14⟩, "EXPECTED RIGHT PARENTHESIS"⟩ := by
  obtain ⟨_, _, _, turns, _, ends⟩ := parsing_advances_and_ends
  have asks : Request.Asks ⟨.literalList, [textToken, commaToken, openToken]⟩
      ⟨.literalList, [openToken]⟩ := List.mem_cons_self
  have parsed := ends [labelToken, printToken, openToken, textToken, commaToken] 42 (by decide)
  refine ⟨⟨asks, rfl, turns _ _ (.single asks) rfl⟩, by decide, ?_⟩
  exact (congrArg Parsed.result (Option.some.inj parsed)).symm

end LabelBasic.Parse
