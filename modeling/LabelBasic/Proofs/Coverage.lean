import LabelBasic.Proofs.Grammar.Sound
import LabelBasic.Proofs.Lines.Programs
import Mathlib.Data.List.TakeWhile

/-!
# Where the tokens of a program go

The tokens of a program are those of its statements, side by side, with line ends between them, and
a rest where no further statement was found. A warning names what is left of that rest. There is
none if the statement that was given up there had used all of it, which happens only in a last line
that does not end: then the tokens of that line are in no statement, and nothing is said of them.
-/
namespace LabelBasic

namespace Grammar

/-! ### Statements stand on one line -/

/-- None of the tokens is a line end. -/
def InLine (p : List Token) : Prop := ∀ t ∈ p, t.kind ≠ .endOfLine

@[simp] theorem inLine_nil : InLine [] := nofun

@[simp] theorem inLine_cons {t : Token} {p : List Token} :
    InLine (t :: p) ↔ t.kind ≠ .endOfLine ∧ InLine p := List.forall_mem_cons

@[simp] theorem inLine_append {p q : List Token} : InLine (p ++ q) ↔ InLine p ∧ InLine q :=
  List.forall_mem_append

mutual

theorem inLine_of_derives {level : Level} {p : List Token} {e : Expr} :
    Derives level p e → InLine p
  | .number kind _ | .string kind | .variable kind => by simp [kind]
  | .group opened inner closed => by simp [opened, inLine_of_derives inner, closed]
  | .call kind _ opened inner _ => by simp [kind, opened, inLine_of_arguments inner]
  | .product inner | .sum inner => inLine_of_derives inner
  | .operation kind _ first second => by
    simp [kind, inLine_of_derives first, inLine_of_derives second]

theorem inLine_of_arguments {p : List Token} {es : List Expr} : DerivesArguments p es → InLine p
  | .none closed => by simp [closed]
  | .some inner closed => by simp [inLine_of_list inner, closed]

theorem inLine_of_list {p : List Token} {es : List Expr} : DerivesList p es → InLine p
  | .one inner => inLine_of_derives inner
  | .more inner comma rest => by simp [inLine_of_derives inner, comma, inLine_of_list rest]

end

theorem inLine_of_comparison {p : List Token} {e : Expr} (derived : DerivesComparison p e) :
    InLine p := by
  obtain ⟨first, kind, second⟩ := derived
  simp [inLine_of_derives first, kind, inLine_of_derives second]

theorem inLine_of_items {α : Type} {item : Token → α → Prop} {p : List Token} {as : List α}
    (plain : ∀ t a, item t a → t.kind ≠ .endOfLine) (derived : DerivesItems item p as) :
    InLine p := by
  induction derived with
  | one first => simpa using plain _ _ first
  | more first comma rest ih => simpa [comma] using ⟨plain _ _ first, ih⟩

theorem inLine_of_names {p : List Token} {vs : List Ident} (derived : DerivesItems Names p vs) :
    InLine p :=
  inLine_of_items (fun t v ⟨kind, _⟩ => by simp [kind]) derived

theorem inLine_of_command {p : List Token} {c : Command} (derived : DerivesCommand p c) :
    InLine p := by
  cases derived with
  | assign kind equals value => simp [kind, equals, inLine_of_derives value]
  | print keyword items => simp [keyword, inLine_of_list items]
  | data keyword items =>
    have literal : ∀ t e, Denotes t e → t.kind ≠ .endOfLine := by
      rintro t e ⟨value, _, ⟨kind, _⟩ | ⟨kind, _⟩⟩ <;> simp [kind]
    simp [keyword, inLine_of_items literal items]
  | read keyword targets | input keyword targets => simp [keyword, inLine_of_names targets]
  | prompt keyword kind | gosub keyword kind | nextOf keyword kind => simp [keyword, kind]
  | promptedInput keyword kind comma targets =>
    simp [keyword, kind, comma, inLine_of_names targets]
  | ret keyword | stop keyword | next keyword => simp [keyword]
  | loop keyword kind equals lower upTo upper =>
    simp [keyword, kind, equals, inLine_of_derives lower, upTo, inLine_of_derives upper]
  | loopStep keyword kind equals lower upTo upper stepped increment =>
    simp [keyword, kind, equals, inLine_of_derives lower, upTo, inLine_of_derives upper, stepped,
      inLine_of_derives increment]
  | branch keyword condition consequent kind =>
    simp [keyword, inLine_of_comparison condition, consequent, kind]
  | whileLoop keyword condition kind => simp [keyword, inLine_of_comparison condition, kind]

theorem inLine_of_statement {p : List Token} {s : Statement} (derived : DerivesStatement p s) :
    InLine p := by
  induction derived with
  | command inner => exact inLine_of_command inner
  | label kind _ ih => simp [kind, ih]

/-! ### Statements side by side -/

/-- The tokens are the statements in order, each on one line, with any number of line ends before,
between and behind them, and then the rest. RETURN has to end its line. -/
inductive ConsistsOf : List Token → List Statement → List Token → Prop
  | rest (r : List Token) : ConsistsOf r [] r
  | lineEnd {t : Token} {s r : List Token} {ss : List Statement} (kind : t.kind = .endOfLine)
      (more : ConsistsOf s ss r) : ConsistsOf (t :: s) ss r
  | statement {p s r : List Token} {st : Statement} {ss : List Statement}
      (derived : DerivesStatement p st) (inLine : InLine p)
      (closed : st.instruction.command = .ret → Ends s) (more : ConsistsOf s ss r) :
      ConsistsOf (p ++ s) (st :: ss) r

namespace ConsistsOf

variable {s r : List Token} {ss : List Statement}

theorem lineEnds {ends : List Token} (closed : ∀ t ∈ ends, t.kind = .endOfLine)
    (more : ConsistsOf s ss r) : ConsistsOf (ends ++ s) ss r := by
  induction ends with
  | nil => exact more
  | cons t ends ih =>
    obtain ⟨kind, closed⟩ := List.forall_mem_cons.mp closed
    exact .lineEnd kind (ih closed)

/-- The line ends that come first. -/
theorem separated (more : ConsistsOf (s.drop (Parse.separators s)) ss r) : ConsistsOf s ss r := by
  have closed : ∀ t ∈ s.takeWhile fun t : Token => t.kind == .endOfLine, t.kind = .endOfLine :=
    fun t member => by simpa using List.mem_takeWhile_imp member
  have whole : s.takeWhile (fun t : Token => t.kind == .endOfLine) ++
      s.drop (Parse.separators s) = s :=
    List.prefix_iff_eq_append.mp (List.takeWhile_prefix _)
  rw [← whole]
  exact more.lineEnds closed

/-- A token that is no line end belongs to a statement or to the rest. -/
theorem belongs (whole : ConsistsOf s ss r) {t : Token} (member : t ∈ s)
    (plain : t.kind ≠ .endOfLine) : t ∈ r ∨ ∃ st ∈ ss, ∃ p, DerivesStatement p st ∧ t ∈ p := by
  induction whole with
  | rest r => exact .inl member
  | lineEnd kind _ ih =>
    rcases List.mem_cons.mp member with rfl | member
    · exact absurd kind plain
    · exact ih member
  | statement derived _ _ _ ih =>
    rcases List.mem_append.mp member with here | later
    · exact .inr ⟨_, List.mem_cons_self, _, derived, here⟩
    · refine (ih later).imp_right ?_
      rintro ⟨st, among, p, derived, inside⟩
      exact ⟨st, List.mem_cons_of_mem _ among, p, derived, inside⟩

theorem suffix (whole : ConsistsOf s ss r) : r <:+ s := by
  induction whole with
  | rest r => exact List.suffix_refl r
  | lineEnd _ _ ih => exact ih.trans (List.suffix_cons _ _)
  | statement _ _ _ _ ih => exact ih.trans (List.suffix_append _ _)

end ConsistsOf

/-- A command that is derived as RETURN is that keyword. -/
theorem eq_of_derives_ret {p : List Token} (derived : DerivesCommand p .ret) :
    ∃ k, p = [k] ∧ k.kind = .keyword .RETURN := by
  cases derived with
  | ret keyword => exact ⟨_, rfl, keyword⟩

end Grammar

theorem Reply.found_of_map {α β : Type} {f : α → β} {r : Reply α} {b : β}
    (found : (r.map f).outcome = .found b) : ∃ a, r.outcome = .found a ∧ f a = b := by
  obtain ⟨outcome, used, log⟩ := r
  cases outcome with
  | absent | failed => cases found
  | found a => exact ⟨a, rfl, Outcome.found.inj found⟩

namespace Parse

open Grammar

/-- RETURN is found only where its line ends. -/
theorem ends_of_returnEnd {s : List Token} {c : Command}
    (found : (returnEnd s).outcome = .found c) : Ends s := by
  rw [returnEnd] at found
  split at found
  next lineEnd => exact kind_of_firstLine_nil (firstLine_eq_nil_iff.mpr lineEnd)
  next => cases found

theorem ends_of_statement {p q : List Token} {st st' : Statement}
    (derived : DerivesStatement p st) (ret : st.instruction.command = .ret)
    (found : (statement (p ++ q)).outcome = .found st') : Ends q := by
  -- Behind its labels the statement is the keyword alone, and the parser has come there.
  induction derived generalizing st' with
  | command inner =>
    rename_i t p c
    obtain rfl : c = .ret := ret
    obtain ⟨k, one, keyword⟩ := eq_of_derives_ret inner
    obtain ⟨rfl, rfl⟩ := List.cons.inj one
    rw [List.singleton_append, statement, if_neg (by simp [keyword]),
      command_keyword keyword rfl] at found
    obtain ⟨c, found, _⟩ := Reply.found_of_map found
    exact ends_of_returnEnd found
  | label kind inner ih =>
    rw [List.cons_append, statement, if_pos kind] at found
    obtain ⟨st, found, _⟩ := Reply.found_of_map found
    exact ih ret found

/-! ### The statements of a program -/

theorem statements_of_found_then {s : List Token} {st : Statement} {n : Nat} {log : List Event}
    {more : Progress} (found : statement s = ⟨.found st, n, log⟩)
    (rest : statements (s.drop (n + separators (s.drop n))) = more) :
    statements s = ⟨st :: more.statements, more.fault?, n + separators (s.drop n) + more.used,
      log ++ more.log⟩ := by
  rw [statements_of_found found, ← rest]

/-- No statement is found at the front of the tokens, and these others are left of them. -/
structure GivenUp (s left : List Token) : Prop where
  start : separators s = 0
  absent : (statement s).outcome = .absent
  left_eq : s.drop (statement s).used = left

theorem consistsOf_statements {s : List Token} (start : separators s = 0)
    (faultless : (statements s).fault? = none) :
    ∃ r, ConsistsOf s (statements s).statements r ∧ GivenUp r (s.drop (statements s).used) := by
  fun_induction statements s with
  | case1 s st n log h passed more ih =>
    obtain ⟨_, q, rfl, used, p, ends, rfl, closed, derived⟩ := statement_sound s st (by rw [h])
    have behind : (p ++ ends ++ q).drop n = q := by
      obtain rfl : (p ++ ends).length = n := by simpa only [h] using used
      exact List.drop_left
    have next : (p ++ ends ++ q).drop passed = q.drop (separators q) := by
      rw [← List.drop_drop, behind]
    have plain : separators ((p ++ ends ++ q).drop passed) = 0 := by
      rw [next, separators_drop (Nat.le_refl _), Nat.sub_self]
    obtain ⟨r, (consists : ConsistsOf _ more.statements r), givenUp⟩ := ih plain faultless
    rw [next] at consists
    rw [List.drop_drop] at givenUp
    refine ⟨r, ?_, givenUp⟩
    -- The line ends that RETURN has used are among those behind it.
    have rest : ConsistsOf (ends ++ q) more.statements r := consists.separated.lineEnds closed
    rw [List.append_assoc] at h ⊢
    exact .statement derived (inLine_of_statement derived)
      (fun ret => ends_of_statement derived ret (by rw [h])) rest
  | case2 s n log h => exact ⟨s, .rest s, start, by rw [h], by rw [h]⟩
  | case3 s f n log h => cases faultless

end Parse

open Grammar Parse

theorem consistsOf_of_parsed {tokens : List Token} {ss : List Statement}
    (parsed : (parse tokens).result = .ok ss) :
    ∃ r left, ConsistsOf tokens ss r ∧ GivenUp r left ∧
      ∀ t ∈ left.head?, .unparsed t ∈ (parse tokens).log := by
  have plain : separators (tokens.drop (separators tokens)) = 0 := by
    rw [separators_drop (Nat.le_refl _), Nat.sub_self]
  unfold parse at parsed ⊢
  dsimp only at parsed ⊢
  split at parsed
  next => cases parsed
  next faultless =>
    cases parsed
    obtain ⟨r, consists, givenUp⟩ := consistsOf_statements plain faultless
    rw [List.drop_drop] at givenUp
    refine ⟨r, _, consists.separated, givenUp, fun t head => ?_⟩
    simp [Option.mem_def.mp head]

/-- The tokens of a program are the statements that are found in it, each derived from tokens of its
own, with nothing but line ends between them, and a rest that does not start with a statement. -/
theorem parsed_tokens_consist_of_statements {tokens : List Token} {ss : List Statement}
    (parsed : (parse tokens).result = .ok ss) :
    ∃ r, ConsistsOf tokens ss r ∧ separators r = 0 ∧ (statement r).outcome = .absent := by
  obtain ⟨r, left, consists, givenUp, _⟩ := consistsOf_of_parsed parsed
  exact ⟨r, consists, givenUp.start, givenUp.absent⟩

/-- A labelled READ, a RETURN below a blank line, and a GOSUB of a number. -/
private def partlyParsed : List Token :=
  [⟨.label, some "again", ⟨1, 0⟩⟩, ⟨.keyword .READ, none, ⟨1, 7⟩⟩, ⟨.word, some "a", ⟨1, 12⟩⟩,
    ⟨.endOfLine, none, ⟨1, 13⟩⟩, ⟨.endOfLine, none, ⟨2, 0⟩⟩, ⟨.keyword .RETURN, none, ⟨3, 0⟩⟩,
    ⟨.endOfLine, none, ⟨3, 6⟩⟩, ⟨.keyword .GOSUB, none, ⟨4, 0⟩⟩, ⟨.number, some "5", ⟨4, 6⟩⟩]

private def parsedPart : List Statement :=
  [⟨[⟨"again", 1⟩], ⟨1, .read [⟨"a"⟩]⟩⟩, ⟨[], ⟨3, .ret⟩⟩]

private theorem parse_partlyParsed : (parse partlyParsed).result = .ok parsedPart := by
  have gosub : statements (partlyParsed.drop 7) = ⟨[], none, 1, []⟩ := statements_of_absent rfl
  have ret : statements (partlyParsed.drop 5) = ⟨_, _, _, _⟩ := statements_of_found_then rfl gosub
  have read : statements partlyParsed = ⟨_, _, _, _⟩ := statements_of_found_then rfl ret
  have start : separators partlyParsed = 0 := rfl
  rw [parse, start, List.drop_zero, read]
  rfl

theorem parsed_tokens_consist_of_statements_and_a_rest :
    ∃ r, ConsistsOf (lex "again: READ a\n\nRETURN\nGOSUB 5").tokens parsedPart r ∧
      separators r = 0 ∧ (statement r).outcome = .absent := by
  have tokens : (lex "again: READ a\n\nRETURN\nGOSUB 5").tokens = partlyParsed := by
    decide +kernel
  rw [tokens]
  exact parsed_tokens_consist_of_statements parse_partlyParsed

/-! ### Tokens that no warning is about -/

/-- A statement that is given up was looked for in one line. -/
theorem used_le_of_absent {s : List Token} (absent : (statement s).outcome = .absent) :
    (statement s).used ≤ (firstLine s).length := by
  obtain ⟨r, ofLine, reads⟩ := statement_line s
  have same := reads 0 s (.refl s)
  rw [Reply.map_lower_zero] at same
  -- Only what is found has line ends behind it, so the two replies are the same.
  obtain ⟨outcome, used, log⟩ := r
  cases here : statement s with
  | mk outcome' used' log' =>
    rw [here] at same absent
    cases absent
    cases outcome with
    | absent =>
      cases same
      exact ofLine.inLine
    | found st => cases congrArg Reply.outcome same
    | failed f => cases congrArg Reply.outcome same

theorem Parse.GivenUp.inLine {r : List Token} (givenUp : GivenUp r []) :
    InLine r ∧ (statement r).used = r.length := by
  have bound := used_le_of_absent givenUp.absent
  have all := List.drop_eq_nil_iff.mp givenUp.left_eq
  have shorter := firstLine_length_le r
  have long : (firstLine r).length = r.length := by omega
  have line : firstLine r = r := (List.takeWhile_prefix _).eq_of_length long
  refine ⟨fun t member => ?_, by omega⟩
  rw [← line] at member
  simpa using List.mem_takeWhile_imp member

/-- Without a warning all tokens but line ends belong to statements, apart from a last line that
does not end: that starts a statement which is given up at the end of the tokens. -/
theorem tokens_used_without_warning {tokens : List Token} {ss : List Statement}
    (parsed : (parse tokens).result = .ok ss)
    (silent : ∀ t, Event.unparsed t ∉ (parse tokens).log) :
    ∃ r, ConsistsOf tokens ss r ∧ InLine r ∧ (statement r).outcome = .absent ∧
      (statement r).used = r.length ∧ (Parse.Closed tokens → r = []) := by
  obtain ⟨r, left, consists, givenUp, warned⟩ := consistsOf_of_parsed parsed
  obtain rfl : left = [] := by
    cases left with
    | nil => rfl
    | cons t left => exact absurd (warned t rfl) (silent t)
  obtain ⟨inLine, used⟩ := givenUp.inLine
  refine ⟨r, consists, inLine, givenUp.absent, used, fun closed => ?_⟩
  by_contra nonempty
  rw [List.suffix_iff_eq_drop.mp consists.suffix] at nonempty inLine
  obtain ⟨t, member, lineEnd⟩ := (closed.drop _).exists nonempty
  exact inLine t member lineEnd

/-- The last statement of the program is not written to its end. -/
private def cutShort : List Token :=
  [⟨.keyword .INPUT, none, ⟨1, 0⟩⟩, ⟨.word, some "n", ⟨1, 6⟩⟩, ⟨.endOfLine, none, ⟨1, 7⟩⟩,
    ⟨.keyword .GOSUB, none, ⟨2, 0⟩⟩]

private theorem parse_cutShort :
    parse cutShort = ⟨.ok [⟨[], ⟨1, .input [.variable ⟨"n"⟩]⟩⟩], [.parsed 1]⟩ := by
  have gosub : statements (cutShort.drop 3) = ⟨[], none, 1, []⟩ := statements_of_absent rfl
  have input : statements cutShort = ⟨_, _, _, _⟩ := statements_of_found_then rfl gosub
  have start : separators cutShort = 0 := rfl
  rw [parse, start, List.drop_zero, input]
  rfl

private theorem silent_cutShort (t : Token) : Event.unparsed t ∉ (parse cutShort).log := by
  simp [parse_cutShort]

theorem tokens_used_without_warning_before_a_last_line :
    ∃ r, ConsistsOf cutShort [⟨[], ⟨1, .input [.variable ⟨"n"⟩]⟩⟩] r ∧ InLine r ∧
      (statement r).outcome = .absent ∧ (statement r).used = r.length ∧
      (Parse.Closed cutShort → r = []) :=
  tokens_used_without_warning (by rw [parse_cutShort]) silent_cutShort

/-- A program that is the word GOSUB is parsed without a warning, and has no statement. -/
theorem not_consistsOf_of_cut_short :
    (parse (lex "GOSUB").tokens).result = .ok [] ∧
      (∀ t, Event.unparsed t ∉ (parse (lex "GOSUB").tokens).log) ∧
      ¬ConsistsOf (lex "GOSUB").tokens [] [] := by
  have tokens : (lex "GOSUB").tokens = [⟨.keyword .GOSUB, none, ⟨1, 0⟩⟩] := by decide +kernel
  have parsed : parse (lex "GOSUB").tokens = ⟨.ok [], [.parsed 0]⟩ := by
    have gosub : statements (lex "GOSUB").tokens = ⟨[], none, 1, []⟩ := by
      rw [tokens]
      exact statements_of_absent rfl
    have start : separators (lex "GOSUB").tokens = 0 := by
      rw [tokens]
      rfl
    rw [parse, start, List.drop_zero, gosub]
    simp [tokens]
  refine ⟨by rw [parsed], by simp [parsed], ?_⟩
  rw [tokens]
  intro consists
  have belongs := consists.belongs (List.mem_singleton_self _) (by decide)
  simp at belongs

end LabelBasic
