import LabelBasic.Proofs.Lines
import LabelBasic.Proofs.Places

/-!
# Line ends of two characters

Between lexemes a carriage return is skipped and takes no column. In a string it is a character like
others, but the column it takes is forgotten at the line feed behind it. So with a carriage return in
front of every line feed a text has the same tokens at the same places and the same warnings, except
that the strings have the carriage returns too. Where no string goes over a line end, nothing changes.
-/
namespace LabelBasic

/-- The characters with a carriage return in front of each line feed. -/
def crlf (cs : List Char) : List Char :=
  cs.flatMap fun c => if c = '\n' then ['\r', '\n'] else [c]

/-- The text with a carriage return in front of each line feed. -/
def withCarriageReturns (text : String) : String := String.ofList (crlf text.toList)

/-! ### Characters -/

@[simp] theorem crlf_nil : crlf [] = [] := rfl

@[simp] theorem crlf_lineFeed (rest : List Char) :
    crlf ('\n' :: rest) = '\r' :: '\n' :: crlf rest := rfl

theorem crlf_cons {c : Char} (other : c ≠ '\n') (rest : List Char) :
    crlf (c :: rest) = c :: crlf rest := by
  simp [crlf, other]

theorem crlf_append (cs ds : List Char) : crlf (cs ++ ds) = crlf cs ++ crlf ds := by
  simp [crlf]

theorem length_le_crlf (cs : List Char) : cs.length + cs.count '\n' ≤ (crlf cs).length := by
  induction cs with
  | nil => exact Nat.le_refl 0
  | cons c rest ih =>
    by_cases lineFeed : c = '\n'
    · subst lineFeed
      simp only [crlf_lineFeed, List.length_cons, List.count_cons_self]
      omega
    · rw [crlf_cons lineFeed, List.length_cons, List.length_cons, List.count_cons_of_ne lineFeed]
      omega

theorem crlf_eq_self_iff {cs : List Char} : crlf cs = cs ↔ '\n' ∉ cs := by
  constructor
  · intro same
    have longer := length_le_crlf cs
    rw [same] at longer
    exact List.count_eq_zero.mp (by omega)
  · intro none
    induction cs with
    | nil => rfl
    | cons c rest ih =>
      have other : c ≠ '\n' := Ne.symm (List.ne_of_not_mem_cons none)
      rw [crlf_cons other, ih (List.not_mem_of_not_mem_cons none)]

section

variable {p : Char → Bool} (carriageReturn : p '\r' = false) (lineFeed : p '\n' = false)

include carriageReturn lineFeed

theorem takeWhile_crlf (cs : List Char) : (crlf cs).takeWhile p = cs.takeWhile p := by
  induction cs with
  | nil => rfl
  | cons c rest ih =>
    by_cases same : c = '\n'
    · subst same
      simp [carriageReturn, lineFeed]
    · rw [crlf_cons same, List.takeWhile_cons, List.takeWhile_cons, ih]

theorem dropWhile_crlf (cs : List Char) : (crlf cs).dropWhile p = crlf (cs.dropWhile p) := by
  induction cs with
  | nil => rfl
  | cons c rest ih =>
    by_cases same : c = '\n'
    · subst same
      simp [carriageReturn, lineFeed]
    · rw [crlf_cons same, List.dropWhile_cons, List.dropWhile_cons, ih]
      split
      next => rfl
      next => rw [crlf_cons same]

end

/-- The column that a carriage return takes is forgotten at the line feed. -/
theorem Position.advance_crlf (p : Position) (cs : List Char) :
    p.advance (crlf cs) = p.advance cs := by
  induction cs generalizing p with
  | nil => rfl
  | cons c rest ih =>
    by_cases lineFeed : c = '\n'
    · subst lineFeed
      exact ih ⟨p.line + 1, 0⟩
    · rw [crlf_cons lineFeed, advance_cons, advance_cons, ih]

/-! ### Lexemes -/

/-- What becomes of a character of a string. A backslash in front of a line feed is now one in front
of the carriage return. -/
def Piece.underCrlf : Piece → List Piece
  | .plain c => if c = '\n' then [.plain '\r', .plain '\n'] else [.plain c]
  | .escaped c => if c = '\n' then [.escaped '\r', .plain '\n'] else [.escaped c]

/-- What becomes of a lexeme. -/
def Lexeme.underCrlf : Lexeme → Lexeme
  | .string pieces ending => .string (pieces.flatMap Piece.underCrlf) ending
  | l => l

/-- The lexemes that become of one. -/
def Lexeme.expand : Lexeme → List Lexeme
  | .lineFeed => [.carriageReturn, .lineFeed]
  | l => [l.underCrlf]

theorem Piece.map_char_underCrlf (pieces : List Piece) :
    (pieces.flatMap Piece.underCrlf).map Piece.char = crlf (pieces.map Piece.char) := by
  induction pieces with
  | nil => rfl
  | cons piece rest ih =>
    rw [List.flatMap_cons, List.map_append, ih, List.map_cons]
    cases piece with
    | plain c | escaped c =>
      by_cases lineFeed : c = '\n'
      · subst lineFeed
        rfl
      · simp [Piece.underCrlf, Piece.char, lineFeed, crlf_cons]

theorem Piece.flatMap_chars_underCrlf (pieces : List Piece) :
    (pieces.flatMap Piece.underCrlf).flatMap Piece.chars =
      crlf (pieces.flatMap Piece.chars) := by
  induction pieces with
  | nil => rfl
  | cons piece rest ih =>
    rw [List.flatMap_cons, List.flatMap_append, ih, List.flatMap_cons, crlf_append]
    cases piece with
    | plain c | escaped c =>
      by_cases lineFeed : c = '\n'
      · subst lineFeed
        rfl
      · simp [Piece.underCrlf, Piece.chars, lineFeed, crlf_cons]

theorem StringEnd.crlf_chars (ending : StringEnd) : crlf ending.chars = ending.chars := by
  cases ending <;> rfl

namespace Lexeme

theorem scanString_crlf (cs : List Char) :
    scanString (crlf cs) =
      ((scanString cs).1.flatMap Piece.underCrlf, (scanString cs).2.1,
        crlf (scanString cs).2.2) := by
  fun_induction scanString cs with
  | case1 => rfl
  | case2 rest =>
    rw [crlf_cons (by decide)]
    rfl
  | case3 => rfl
  | case4 c rest pieces ending after eq ih =>
    rw [eq] at ih
    rw [crlf_cons (by decide)]
    by_cases lineFeed : c = '\n'
    -- The backslash now escapes the carriage return, and the line feed stands alone.
    · subst lineFeed
      rw [crlf_lineFeed, scanString, scanString_plain (by decide) (by decide), ih]
      rfl
    · rw [crlf_cons lineFeed, scanString, ih]
      simp [Piece.underCrlf, lineFeed]
  | case5 c rest quote last escape pieces ending after eq ih =>
    rw [eq] at ih
    by_cases lineFeed : c = '\n'
    · subst lineFeed
      rw [crlf_lineFeed, scanString_plain (by decide) (by decide),
        scanString_plain (by decide) (by decide), ih]
      rfl
    · rw [crlf_cons lineFeed, scanString_plain quote (ne_backslash last escape), ih]
      simp [Piece.underCrlf, lineFeed]

theorem scanWord_crlf (first : Char) (rest : List Char) :
    scanWord first (crlf rest) =
      ((scanWord first rest).1.underCrlf, crlf (scanWord first rest).2) := by
  simp only [scanWord, takeWhile_crlf (p := isWordPart) (by decide) (by decide),
    dropWhile_crlf (p := isWordPart) (by decide) (by decide)]
  split
  next => rfl
  next =>
    cases rest.dropWhile isWordPart with
    | nil => rfl
    | cons c after =>
      by_cases lineFeed : c = '\n'
      -- Neither of the two characters is a suffix or a colon.
      · subst lineFeed
        rfl
      · simp only [crlf_cons lineFeed]
        split
        next => rfl
        next =>
          split
          next => rfl
          next =>
            rw [crlf_cons lineFeed]
            rfl

theorem scanNumber_crlf (first : Char) (rest : List Char) :
    scanNumber first (crlf rest) =
      ((scanNumber first rest).1.underCrlf, crlf (scanNumber first rest).2) := by
  simp only [scanNumber, takeWhile_crlf (p := Char.isDigit) (by decide) (by decide),
    dropWhile_crlf (p := Char.isDigit) (by decide) (by decide)]
  cases rest.dropWhile Char.isDigit with
  | nil => rfl
  | cons c after =>
    by_cases point : c = '.'
    · subst point
      rw [crlf_cons (by decide)]
      simp only
      split
      next =>
        rw [crlf_cons (by decide)]
        rfl
      next =>
        rw [takeWhile_crlf (p := Char.isDigit) (by decide) (by decide),
          dropWhile_crlf (p := Char.isDigit) (by decide) (by decide)]
        rfl
    · have other : ∀ (cs ds : List Char), c :: cs ≠ '.' :: ds :=
        fun _ _ same => point (List.cons.inj same).1
      by_cases lineFeed : c = '\n'
      -- Neither of the two characters is a point.
      · subst lineFeed
        rfl
      · rw [crlf_cons lineFeed]
        split
        next same => exact absurd same (other _ _)
        next =>
          split
          next same => exact absurd same (other _ _)
          next =>
            rw [crlf_cons lineFeed]
            rfl

/-- No symbol ends with a carriage return. -/
theorem ofSpelling?_carriageReturn (c : Char) : Symbol.ofSpelling? [c, '\r'] = none := by
  cases found : Symbol.ofSpelling? [c, '\r'] with
  | none => rfl
  | some s =>
    have last := mem_markCharacters s '\r' (by simp [spelling_of_ofSpelling? found])
    exact absurd last (by decide)

theorem scanSymbol?_crlf (first : Char) (rest : List Char) :
    scanSymbol? first (crlf rest) =
      (scanSymbol? first rest).map fun r => (r.1.underCrlf, crlf r.2) := by
  cases rest with
  | nil =>
    simp only [crlf_nil, scanSymbol?, Option.map_map]
    rfl
  | cons second after =>
    by_cases lineFeed : second = '\n'
    · subst lineFeed
      simp only [crlf_lineFeed, scanSymbol?, ofSpelling?_carriageReturn, ofSpelling?_lineFeed,
        Option.map_none, Option.none_or, Option.map_map]
      rfl
    · simp only [crlf_cons lineFeed, scanSymbol?, Option.map_or, Option.map_map]
      rw [← crlf_cons lineFeed]
      rfl

theorem scan_crlf (first : Char) (rest : List Char) :
    scan first (crlf rest) = ((scan first rest).1.underCrlf, crlf (scan first rest).2) := by
  unfold scan
  split
  next => rfl
  split
  next => rfl
  split
  next => rfl
  split
  next => rw [scanString_crlf]; rfl
  split
  next => exact scanWord_crlf first rest
  split
  next => exact scanNumber_crlf first rest
  next =>
    rw [scanSymbol?_crlf]
    cases scanSymbol? first rest <;> rfl

theorem expand_scan {first : Char} (other : first ≠ '\n') (rest : List Char) :
    (scan first rest).1.expand = [(scan first rest).1.underCrlf] := by
  have whole := chars_scan first rest
  cases scanned : (scan first rest).1 with
  | lineFeed =>
    rw [scanned] at whole
    exact absurd (List.cons.inj whole).1.symm other
  | _ => rfl

end Lexeme

theorem lexemes_crlf (cs : List Char) : lexemes (crlf cs) = (lexemes cs).flatMap Lexeme.expand := by
  induction cs using lexemes.induct with
  | case1 => simp [lexemes]
  | case2 first rest ih =>
    rw [lexemes, List.flatMap_cons, ← ih]
    -- The line feed is the one lexeme that becomes two.
    by_cases lineFeed : first = '\n'
    · subst lineFeed
      exact ((Reads.of_scan [] rfl rfl : Reads [.carriageReturn] ('\n' :: crlf rest))).trans
        (congrArg _ Reads.lineFeed)
    · rw [crlf_cons lineFeed, lexemes, Lexeme.scan_crlf, Lexeme.expand_scan lineFeed]
      rfl

/-! ### Tokens and warnings -/

/-- What becomes of a token. -/
def Token.underCrlf (t : Token) : Token :=
  if t.kind = .string then { t with text? := t.text?.map withCarriageReturns } else t

theorem Lexeme.next_underCrlf (p : Position) (l : Lexeme) : l.underCrlf.next p = l.next p := by
  cases l with
  | string pieces ending =>
    have chars : (Lexeme.string (pieces.flatMap Piece.underCrlf) ending).chars =
        crlf (Lexeme.string pieces ending).chars := by
      simp only [Lexeme.chars]
      rw [crlf_append, crlf_cons (by decide), Piece.flatMap_chars_underCrlf, StringEnd.crlf_chars]
    exact (congrArg p.advance chars).trans (p.advance_crlf _)
  | _ => rfl

theorem Lexeme.token?_underCrlf (p : Position) (l : Lexeme) :
    l.underCrlf.token? p = (l.token? p).map Token.underCrlf := by
  cases l with
  | string pieces ending =>
    simp only [underCrlf, token?, Piece.map_char_underCrlf, Option.map_some, Token.underCrlf,
      if_true, withCarriageReturns, String.toList_ofList]
  | word text =>
    simp only [underCrlf, token?, wordToken, Option.map_some]
    split <;> rfl
  | _ => rfl

theorem Lexeme.warning?_underCrlf (p : Position) (l : Lexeme) :
    l.underCrlf.warning? p = l.warning? p := by
  cases l with
  | string pieces ending => cases ending <;> rfl
  | _ => rfl

/-- A carriage return has no token, and the line feed behind it stands where it did. -/
theorem tokensAt_expand (p : Position) (ls : List Lexeme) :
    tokensAt p (ls.flatMap Lexeme.expand) = (tokensAt p ls).map Token.underCrlf := by
  induction ls generalizing p with
  | nil => rfl
  | cons l ls ih =>
    rw [List.flatMap_cons, tokensAt_cons, List.map_append, ← ih]
    cases l with
    | lineFeed => rfl
    | carriageReturn | blank | word | label | number | string | symbol | stray =>
      simp only [Lexeme.expand, List.singleton_append, tokensAt_cons, Lexeme.token?_underCrlf,
        Lexeme.next_underCrlf, Option.toList_map]

theorem warningsAt_expand (p : Position) (ls : List Lexeme) :
    warningsAt p (ls.flatMap Lexeme.expand) = warningsAt p ls := by
  induction ls generalizing p with
  | nil => rfl
  | cons l ls ih =>
    rw [List.flatMap_cons, warningsAt_cons, ← ih]
    cases l with
    | lineFeed => rfl
    | carriageReturn | blank | word | label | number | string | symbol | stray =>
      simp only [Lexeme.expand, List.singleton_append, warningsAt_cons, Lexeme.warning?_underCrlf,
        Lexeme.next_underCrlf]

theorem Lexeme.placeAfter_expand (p : Position) (l : Lexeme) : placeAfter p l.expand = l.next p := by
  cases l with
  | lineFeed => rfl
  | carriageReturn | blank | word | label | number | string | symbol | stray =>
    simp only [expand, placeAfter, List.foldl_cons, List.foldl_nil, next_underCrlf]

theorem placeAfter_flatMap_expand (p : Position) (ls : List Lexeme) :
    placeAfter p (ls.flatMap Lexeme.expand) = placeAfter p ls := by
  induction ls generalizing p with
  | nil => rfl
  | cons l ls ih =>
    rw [List.flatMap_cons, placeAfter, List.foldl_append]
    exact (ih _).trans (congrArg (placeAfter · ls) (Lexeme.placeAfter_expand p l))

/-- With carriage returns in front of its line feeds a text has the same tokens at the same places,
but that its strings hold carriage returns too, and there is the same to say about it. -/
theorem lex_withCarriageReturns (source : String) :
    lex (withCarriageReturns source) =
      ⟨(lex source).tokens.map Token.underCrlf, (lex source).log⟩ := by
  have tokens := tokensAt_expand .start (lexemes source.toList)
  have warnings := warningsAt_expand .start (lexemes source.toList)
  have place := placeAfter_flatMap_expand .start (lexemes source.toList)
  simp only [tokensAt, warningsAt] at tokens warnings
  simp only [lex, withCarriageReturns, String.toList_ofList, lexemes_crlf, tokens, warnings, place,
    List.length_map]

theorem Token.underCrlf_eq_self {t : Token} (unbroken : t.kind = .string → '\n' ∉ t.text.toList) :
    t.underCrlf = t := by
  unfold underCrlf
  split
  next string =>
    obtain ⟨kind, text?, position⟩ := t
    cases text? with
    | none => rfl
    | some text =>
      have same : crlf text.toList = text.toList := crlf_eq_self_iff.mpr (unbroken string)
      simp [withCarriageReturns, same]
  next => rfl

/-- Where no string goes over a line end, a text with carriage returns in front of its line feeds has
exactly the same tokens and warnings, and is compiled to the same statements or the same error. -/
theorem compile_withCarriageReturns {source : String}
    (unbroken : ∀ t ∈ (lex source).tokens, t.kind = .string → '\n' ∉ t.text.toList) :
    lex (withCarriageReturns source) = lex source ∧
      compile (withCarriageReturns source) = compile source := by
  have same : lex (withCarriageReturns source) = lex source := by
    rw [lex_withCarriageReturns,
      List.map_congr_left fun t member => Token.underCrlf_eq_self (unbroken t member), List.map_id']
  refine ⟨same, ?_⟩
  unfold compile
  rw [same]

/-- The carriage returns here stand behind a label, a string, a word, the start of a longer symbol, a
number and a character that starts no lexeme. -/
theorem compile_withCarriageReturns_of_ends :
    withCarriageReturns "a:\n\"é\"\nb\n<\n1.\n?\n" =
        "a:\r\n\"é\"\r\nb\r\n<\r\n1.\r\n?\r\n" ∧
      lex (withCarriageReturns "a:\n\"é\"\nb\n<\n1.\n?\n") =
        lex "a:\n\"é\"\nb\n<\n1.\n?\n" ∧
        compile (withCarriageReturns "a:\n\"é\"\nb\n<\n1.\n?\n") =
          compile "a:\n\"é\"\nb\n<\n1.\n?\n" :=
  ⟨by decide +kernel, compile_withCarriageReturns (by decide +kernel)⟩

end LabelBasic
