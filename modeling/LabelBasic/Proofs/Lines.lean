import LabelBasic.Proofs.Lexing
import LabelBasic.Proofs.Lines.Programs

/-!
# Texts one below the other

A line feed ends every lexeme but a string, so no lexeme goes on behind it once the strings above
have ended, and the lexemes below start in the first column. So two texts, one below the other, are
compiled as the first one and then the second one, that many lines further down.
-/
namespace LabelBasic

/-! ### Lexemes -/

/-- A string has to have its closing quote. -/
def Lexeme.IsTerminated : Lexeme → Prop
  | .string _ ending => ending = .quote
  | _ => True

namespace Lexeme

theorem scanString_plain {c : Char} (quote : c ≠ '"') (backslash : c ≠ '\\') (rest : List Char) :
    scanString (c :: rest) =
      (.plain c :: (scanString rest).1, (scanString rest).2.1, (scanString rest).2.2) := by
  rw [scanString]
  · exact quote
  · exact fun same _ => backslash same
  · exact fun _ _ same _ => backslash same

/-- A backslash starts no piece of one character. -/
theorem ne_backslash {c : Char} {rest : List Char} (last : c = '\\' → rest = [] → False)
    (escape : ∀ d more, c = '\\' → rest = d :: more → False) : c ≠ '\\' := by
  rintro rfl
  cases rest with
  | nil => exact last rfl rfl
  | cons d more => exact escape d more rfl rfl

/-- Behind its closing quote a string does not go on. -/
theorem scanString_append {cs : List Char} (terminated : (scanString cs).2.1 = .quote)
    (below : List Char) :
    scanString (cs ++ below) = ((scanString cs).1, .quote, (scanString cs).2.2 ++ below) := by
  fun_induction scanString cs with
  | case1 => cases terminated
  | case2 rest => rfl
  | case3 => cases terminated
  | case4 c rest pieces ending after eq ih =>
    rw [eq] at ih
    rw [List.cons_append, List.cons_append, scanString, ih terminated]
  | case5 c rest quote last escape pieces ending after eq ih =>
    rw [eq] at ih
    rw [List.cons_append, scanString_plain quote (ne_backslash last escape), ih terminated]

/-- A string that the end of the source cuts off is not ended by a line feed. -/
theorem scanString_unterminated {cs : List Char} (cut : (scanString cs).2.1 ≠ .quote) :
    (scanString (cs ++ ['\n'])).2.1 ≠ .quote := by
  fun_induction scanString cs with
  | case1 => decide
  | case2 rest => exact absurd rfl cut
  | case3 => decide
  | case4 c rest pieces ending after eq ih =>
    rw [eq] at ih
    exact ih cut
  | case5 c rest quote last escape pieces ending after eq ih =>
    rw [eq] at ih
    rw [List.cons_append, scanString_plain quote (ne_backslash last escape)]
    exact ih cut

theorem scanWord_line (first : Char) (rest below : List Char) :
    scanWord first (rest ++ '\n' :: below) =
      ((scanWord first rest).1, (scanWord first rest).2 ++ '\n' :: below) := by
  simp only [scanWord, takeWhile_stop (p := isWordPart) (c := '\n') (by decide),
    dropWhile_stop (p := isWordPart) (c := '\n') (by decide)]
  split
  next => rfl
  next =>
    cases rest.dropWhile isWordPart with
    -- A line feed is neither a suffix nor a colon.
    | nil => rfl
    | cons c after =>
      simp only [List.cons_append]
      split
      next => rfl
      next => split <;> rfl

theorem scanNumber_line (first : Char) (rest below : List Char) :
    scanNumber first (rest ++ '\n' :: below) =
      ((scanNumber first rest).1, (scanNumber first rest).2 ++ '\n' :: below) := by
  simp only [scanNumber, takeWhile_stop (p := Char.isDigit) (c := '\n') (by decide),
    dropWhile_stop (p := Char.isDigit) (c := '\n') (by decide)]
  cases rest.dropWhile Char.isDigit with
  -- A line feed is no point.
  | nil => rfl
  | cons c after =>
    by_cases point : c = '.'
    · subst point
      simp only [List.cons_append]
      split
      next => rfl
      next =>
        rw [takeWhile_stop (p := Char.isDigit) (c := '\n') (by decide),
          dropWhile_stop (p := Char.isDigit) (c := '\n') (by decide)]
    · have other : ∀ (cs : List Char) (after' : List Char), c :: cs ≠ '.' :: after' :=
        fun cs after' same => point (List.cons.inj same).1
      simp only [List.cons_append]
      split
      next same => exact absurd same (other _ _)
      next =>
        split
        next same => exact absurd same (other _ _)
        next => rfl

/-- No symbol ends with a line feed. -/
theorem ofSpelling?_lineFeed (c : Char) : Symbol.ofSpelling? [c, '\n'] = none := by
  cases found : Symbol.ofSpelling? [c, '\n'] with
  | none => rfl
  | some s =>
    have spelled := spelling_of_ofSpelling? found
    cases s with
    | relation r => cases r <;> simp [Symbol.spelling, Relation.symbol] at spelled
    | operator op => cases op <;> simp [Symbol.spelling, Operator.symbol] at spelled
    | leftParen | rightParen | comma => simp [Symbol.spelling] at spelled

theorem scanSymbol?_line (first : Char) (rest below : List Char) :
    scanSymbol? first (rest ++ '\n' :: below) =
      (scanSymbol? first rest).map fun r => (r.1, r.2 ++ '\n' :: below) := by
  cases rest with
  | nil =>
    simp only [List.nil_append, scanSymbol?, ofSpelling?_lineFeed, Option.map_none, Option.none_or,
      Option.map_map]
    rfl
  | cons second after =>
    simp only [List.cons_append, scanSymbol?, Option.map_or, Option.map_map]
    rfl

theorem scan_line {first : Char} {rest : List Char}
    (terminated : first = '"' → (scanString rest).2.1 = .quote) (below : List Char) :
    scan first (rest ++ '\n' :: below) =
      ((scan first rest).1, (scan first rest).2 ++ '\n' :: below) := by
  unfold scan
  split
  next => rfl
  split
  next => rfl
  split
  next => rfl
  split
  next quote =>
    simp only [scanString_append (terminated quote), terminated quote]
  split
  next => exact scanWord_line first rest below
  split
  next => exact scanNumber_line first rest below
  next =>
    rw [scanSymbol?_line]
    cases scanSymbol? first rest <;> rfl

theorem scanString_of_isTerminated {first : Char} {rest : List Char}
    (terminated : (scan first rest).1.IsTerminated) (quote : first = '"') :
    (scanString rest).2.1 = .quote := by
  subst quote
  exact terminated

end Lexeme

/-- The lexemes below a line end are those that are read there alone. -/
theorem lexemes_line {cs : List Char} (terminated : ∀ l ∈ lexemes cs, l.IsTerminated)
    (below : List Char) :
    lexemes (cs ++ '\n' :: below) = lexemes cs ++ .lineFeed :: lexemes below := by
  induction cs using lexemes.induct with
  | case1 => exact (Reads.lineFeed : Reads [.lineFeed] below).trans (by rw [lexemes]; rfl)
  | case2 first rest ih =>
    rw [lexemes] at terminated ⊢
    obtain ⟨here, later⟩ := List.forall_mem_cons.mp terminated
    rw [List.cons_append, lexemes, Lexeme.scan_line (Lexeme.scanString_of_isTerminated here),
      ih later]
    rfl

/-- The strings that have ended at a line end have ended before it. -/
theorem isTerminated_of_line {cs : List Char}
    (terminated : ∀ l ∈ lexemes (cs ++ ['\n']), l.IsTerminated) :
    ∀ l ∈ lexemes cs, l.IsTerminated := by
  induction cs using lexemes.induct with
  | case1 => simp [lexemes]
  | case2 first rest ih =>
    rw [List.cons_append, lexemes] at terminated
    have ended : first = '"' → (Lexeme.scanString rest).2.1 = .quote := by
      intro quote
      refine Decidable.byContradiction fun cut => Lexeme.scanString_unterminated cut ?_
      exact Lexeme.scanString_of_isTerminated (terminated _ (List.mem_cons_self ..)) quote
    rw [Lexeme.scan_line ended] at terminated
    obtain ⟨here, later⟩ := List.forall_mem_cons.mp terminated
    rw [lexemes]
    exact List.forall_mem_cons.mpr ⟨here, ih later⟩

/-! ### Places -/

theorem Position.next_lower (k : Nat) (p : Position) (c : Char) :
    (p.lower k).next c = (p.next c).lower k := by
  simp only [next, lower]
  split
  next => rw [Nat.add_right_comm]
  next => rfl

theorem Position.advance_lower (k : Nat) (p : Position) (cs : List Char) :
    (p.lower k).advance cs = (p.advance cs).lower k := by
  induction cs generalizing p with
  | nil => rfl
  | cons c cs ih => rw [advance_cons, advance_cons, next_lower, ih]

theorem Lexeme.next_lower (k : Nat) (p : Position) (l : Lexeme) :
    l.next (p.lower k) = (l.next p).lower k := by
  cases l with
  | carriageReturn => rfl
  | blank | lineFeed | word | label | number | string | symbol | stray => exact p.advance_lower k _

theorem Lexeme.token?_lower (k : Nat) (p : Position) (l : Lexeme) :
    l.token? (p.lower k) = (l.token? p).map (Token.lower k) := by
  cases l with
  | word text =>
    simp only [token?, wordToken, Option.map_some]
    split <;> rfl
  | carriageReturn | blank | lineFeed | label | number | string | symbol | stray => rfl

theorem tokensAt_lower (k : Nat) (p : Position) (ls : List Lexeme) :
    tokensAt (p.lower k) ls = (tokensAt p ls).map (Token.lower k) := by
  induction ls generalizing p with
  | nil => rfl
  | cons l ls ih =>
    rw [tokensAt_cons, tokensAt_cons, Lexeme.token?_lower, Lexeme.next_lower, ih, List.map_append]
    cases l.token? p <;> rfl

/-! ### Tokens -/

open Parse

theorem toList_lineEnd (a : String) : (a ++ "\n").toList = a.toList ++ ['\n'] := by simp

theorem toList_line (a b : String) : (a ++ "\n" ++ b).toList = a.toList ++ '\n' :: b.toList := by
  simp

theorem lexemes_lineEnd {a : String} (terminated : ∀ l ∈ lexemes a.toList, l.IsTerminated) :
    lexemes (a ++ "\n").toList = lexemes a.toList ++ [.lineFeed] := by
  rw [toList_lineEnd, lexemes_line terminated [], lexemes]

theorem place_lineEnd (a : String) :
    placeAfter .start (lexemes a.toList ++ [.lineFeed]) =
      Position.start.lower (1 + a.toList.count '\n') := by
  have line := line_placeAfter .start (lexemes a.toList)
  rw [flatMap_chars_lexemes] at line
  rw [placeAfter, List.foldl_append]
  change Position.mk ((placeAfter .start (lexemes a.toList)).line + 1) 0 = _
  rw [line, Position.lower, Nat.add_comm 1 (a.toList.count '\n'), Nat.add_assoc]
  rfl

section

variable {a : String} (terminated : ∀ l ∈ lexemes a.toList, l.IsTerminated)

include terminated

/-- Below a line end, the tokens are those of the text alone, further down. -/
theorem tokens_line (b : String) :
    (lex (a ++ "\n" ++ b)).tokens = (lex (a ++ "\n")).tokens ++
      (lex b).tokens.map (Token.lower (1 + a.toList.count '\n')) := by
  have split : lexemes (a ++ "\n" ++ b).toList =
      lexemes (a ++ "\n").toList ++ lexemes b.toList := by
    rw [toList_line, lexemes_line terminated, lexemes_lineEnd terminated, List.append_assoc]
    rfl
  change tokensAt .start _ = tokensAt .start _ ++ (tokensAt .start _).map _
  rw [split, tokensAt_append, ← tokensAt_lower, ← place_lineEnd, lexemes_lineEnd terminated]

theorem closed_tokens : Closed (lex (a ++ "\n")).tokens := by
  intro t last
  change t ∈ (tokensAt .start (lexemes (a ++ "\n").toList)).getLast? at last
  rw [lexemes_lineEnd terminated, tokensAt_append, List.getLast?_append] at last
  cases last
  rfl

end

theorem exists_mem_placed {ls : List Lexeme} {l : Lexeme} (member : l ∈ ls) (p : Position) :
    ∃ q, ⟨q, l⟩ ∈ placed p ls := by
  induction ls generalizing p with
  | nil => simp at member
  | cons first rest ih =>
    rcases List.mem_cons.mp member with rfl | later
    · exact ⟨p, List.mem_cons_self ..⟩
    · obtain ⟨q, found⟩ := ih later (first.next p)
      exact ⟨q, List.mem_cons_of_mem _ found⟩

/-- A string without its end is warned about. -/
theorem isTerminated_of_log {source : String}
    (silent : ∀ p, Event.unterminatedString p ∉ (compile source).log) :
    ∀ l ∈ lexemes source.toList, l.IsTerminated := by
  intro l member
  obtain ⟨q, found⟩ := exists_mem_placed member .start
  have untold : l.warning? q ≠ some (.unterminatedString q) := by
    intro told
    refine silent q (List.mem_append_left _ (List.mem_append_left _ ?_))
    exact List.mem_filterMap.mpr ⟨_, found, told⟩
  cases l with
  | string pieces ending =>
    cases ending with
    | quote => rfl
    | source | backslash => exact absurd rfl untold
  | carriageReturn | blank | lineFeed | word | label | number | symbol | stray => trivial

/-- Two texts, one below the other, are compiled as the first one and then the second one, with its
lines and the line of its error counted on from those of the first one. The first text has to be
compiled to its end, and its strings have to end. -/
theorem compile_append {a b : String} {above : List Statement}
    (compiled : (compile (a ++ "\n")).result = .ok above)
    (terminated : ∀ p, Event.unterminatedString p ∉ (compile (a ++ "\n")).log)
    (all : ∀ t, Event.unparsed t ∉ (compile (a ++ "\n")).log) :
    (compile (a ++ "\n" ++ b)).result =
      match (compile b).result with
      | .ok below => .ok (above ++ below.map (Statement.lower (1 + a.toList.count '\n')))
      | .error report => .error (report.lower (1 + a.toList.count '\n')) := by
  have ended : ∀ l ∈ lexemes a.toList, l.IsTerminated := by
    apply isTerminated_of_line
    rw [← toList_lineEnd]
    exact isTerminated_of_log terminated
  have parsed : ∀ t, Event.unparsed t ∉ (parse (lex (a ++ "\n")).tokens).log :=
    fun t member => all t (List.mem_append_right _ member)
  change (parse _).result = _
  rw [tokens_line ended]
  exact parse_append (closed_tokens ended) compiled parsed _ _

/-- What RETURN takes of the line ends between the two, and where the error stands at the end of the
second one, is the same for them together. -/
theorem compile_append_of_return :
    (compile ("sub: RETURN" ++ "\n" ++ "\nx")).result =
      .error ⟨.syntaxError, some 3, ⟨1, 1⟩, "EXPECTED ="⟩ := by
  have tokens : (lex ("sub: RETURN" ++ "\n")).tokens =
      [⟨.label, some "sub", ⟨1, 0⟩⟩, ⟨.keyword .RETURN, none, ⟨1, 5⟩⟩,
        ⟨.endOfLine, none, ⟨1, 11⟩⟩] := by decide +kernel
  have silent : ((placed .start (lexemes ("sub: RETURN" ++ "\n").toList)).filterMap
      Placed.warning?).isEmpty = true := by decide +kernel
  have derived : Grammar.DerivesProgram (lex ("sub: RETURN" ++ "\n")).tokens
      [⟨[⟨"sub", 1⟩], ⟨1, .ret⟩⟩] := by
    rw [tokens]
    exact .more (p := [_, _]) (.label rfl (.command (.ret rfl))) rfl .nil
  have parsed := parse_complete derived
  have told : ∀ event ∈ (compile ("sub: RETURN" ++ "\n")).log,
      (∃ lines count, event = .lexed lines count 0) ∨ event = .parsed 1 := by
    intro event member
    rcases List.mem_append.mp member with lexed | found
    · rw [lex, List.isEmpty_iff.mp silent] at lexed
      exact .inl ⟨_, _, List.mem_singleton.mp lexed⟩
    · rw [parsed] at found
      exact .inr (List.mem_singleton.mp found)
  have below : (compile "\nx").result = .error ⟨.syntaxError, some 2, ⟨1, 1⟩, "EXPECTED ="⟩ := by
    have tokens : (lex "\nx").tokens =
        [⟨.endOfLine, none, ⟨1, 0⟩⟩, ⟨.word, some "x", ⟨2, 0⟩⟩] := by decide +kernel
    have failed : statements [⟨.word, some "x", ⟨2, 0⟩⟩] = ⟨[], some .expectedEquals, 1, []⟩ :=
      statements_of_failed rfl
    have separated : program [⟨.endOfLine, none, ⟨1, 0⟩⟩, ⟨.word, some "x", ⟨2, 0⟩⟩] =
        ⟨[], some .expectedEquals, 2, []⟩ := congrArg (Progress.behind 1) failed
    simp only [compile, tokens, parse_eq, separated]
    rfl
  have whole := compile_append (a := "sub: RETURN") (b := "\nx") (congrArg Parsed.result parsed)
    (fun p member => by simpa using told _ member) (fun t member => by simpa using told _ member)
  rw [below] at whole
  exact whole

end LabelBasic
