import LabelBasic.Proofs.Division

/-!
# Where tokens are

Main result: a token is where its first character is in the source text, and so is what there is to
warn about. The line is one more than there are line feeds before that character. The column is the
number of characters between the last of them and it, but for carriage returns outside of strings.
-/
namespace LabelBasic

/-- The place behind some characters, where each comes with whether it is in a string. -/
def placeBehind (before : List (Char × Bool)) : Position where
  line := 1 + before.countP fun (c, _) => c == '\n'
  column := (before.reverse.takeWhile fun (c, _) => c != '\n').countP
    fun (c, inString) => c != '\r' || inString

/-- Behind these characters the text is divided into lexemes and skipped characters. The tokens and
the warnings have the places that the characters before them lead to. -/
inductive Places : List (Char × Bool) → List Char → List Token → List Event → Prop
  | nil {before : List (Char × Bool)} : Places before [] [] []
  | blank {before : List (Char × Bool)} {c : Char} {rest : List Char} {ts : List Token}
      {ws : List Event} (kind : c = ' ' ∨ c = '\t' ∨ c = '\r')
      (later : Places (before ++ [(c, false)]) rest ts ws) : Places before (c :: rest) ts ws
  | stray {before : List (Char × Bool)} {c : Char} {rest : List Char} {ts : List Token}
      {ws : List Event} (other : ¬(c = ' ' ∨ c = '\t' ∨ c = '\r')) (none : StartsNone c)
      (later : Places (before ++ [(c, false)]) rest ts ws) :
      Places before (c :: rest) ts (.strayCharacter c (placeBehind before) :: ws)
  | token {before : List (Char × Bool)} {form : Form} {cs rest : List Char} {kind : Token.Kind}
      {text? : Option String} {ts : List Token} {ws : List Event}
      (terminated : ¬IsUnterminated cs) (first : IsLongest form cs rest kind text?)
      (later : Places (before ++ cs.map fun c => (c, form == .string)) rest ts ws) :
      Places before (cs ++ rest) (⟨kind, text?, placeBehind before⟩ :: ts) ws
  | unterminated {before : List (Char × Bool)} {cs rest : List Char} {kind : Token.Kind}
      {text? : Option String} {ts : List Token} {ws : List Event}
      (unterminated : IsUnterminated cs) (first : IsLongest .string cs rest kind text?)
      (later : Places (before ++ cs.map fun c => (c, true)) rest ts ws) :
      Places before (cs ++ rest) (⟨kind, text?, placeBehind before⟩ :: ts)
        (.unterminatedString (placeBehind before) :: ws)

/-! ### One character and one lexeme -/

section

variable {before : List (Char × Bool)}

theorem placeBehind_carriageReturn (before : List (Char × Bool)) :
    placeBehind (before ++ [('\r', false)]) = placeBehind before := by
  simp [placeBehind]

theorem placeBehind_append {c : Char} {inString : Bool} (counts : c ≠ '\r' ∨ inString = true) :
    placeBehind (before ++ [(c, inString)]) = (placeBehind before).next c := by
  by_cases lineFeed : c = '\n'
  · subst lineFeed
    simp [placeBehind, Position.next, Nat.add_assoc]
  · simp [placeBehind, Position.next, lineFeed, counts]

theorem placeBehind_append_map {cs : List Char} {inString : Bool}
    (counts : '\r' ∉ cs ∨ inString = true) :
    placeBehind (before ++ cs.map fun c => (c, inString)) = (placeBehind before).advance cs := by
  induction cs generalizing before with
  | nil => simp
  | cons c cs ih =>
    have first : c ≠ '\r' ∨ inString = true :=
      counts.imp_left fun other => Ne.symm (List.ne_of_not_mem_cons other)
    rw [List.map_cons, ← List.singleton_append, ← List.append_assoc,
      ih (counts.imp_left List.not_mem_of_not_mem_cons), placeBehind_append first,
      Position.advance_cons]

end

/-- The characters of lexemes that are neither words nor numbers nor strings, and the point of a
number. -/
def markCharacters : List Char := ['\n', ':', '.', '<', '>', '=', '(', ')', '+', '-', '*', '/', ',']

theorem mem_markCharacters (s : Symbol) : ∀ c ∈ s.spelling.toList, c ∈ markCharacters := by
  have all : s.spelling.toList.all markCharacters.contains = true := by
    cases s with
    | relation r => cases r <;> decide
    | operator op => cases op <;> decide
    | leftParen | rightParen | comma => decide
  exact fun c member => List.contains_iff_mem.mp (List.all_eq_true.mp all c member)

/-- Only strings have other characters in them than words, numbers and symbols. -/
theorem Spells.not_mem {form : Form} {cs rest : List Char} {kind : Token.Kind}
    {text? : Option String} (spells : Spells form cs rest kind text?) (other : form ≠ .string)
    {c : Char} (start : isWordStart c = false) (part : isWordPart c = false)
    (mark : c ∉ markCharacters) : c ∉ cs := by
  cases spells with
  | lineEnd => exact fun member => mark (List.mem_singleton.mp member ▸ by decide)
  | keyword word | word word => exact not_mem_of_isWord start part word
  | label stem =>
    intro member
    rcases List.mem_append.mp member with name | colon
    · exact not_mem_of_isStem start part stem name
    · exact mark (List.mem_singleton.mp colon ▸ by decide)
  | number number =>
    intro member
    rcases number.each _ member with digit | rfl
    · simp [isWordPart, digit] at part
    · exact absurd mark (by decide)
  | string | unclosed | dangling => exact absurd rfl other
  | symbol s => exact fun member => mark (mem_markCharacters s c member)

theorem Lexeme.next_of_token? {l : Lexeme} {p : Position} {t : Token} (made : l.token? p = some t) :
    l.next p = p.advance l.chars := by
  cases l with
  | carriageReturn => cases made
  | _ => rfl

/-- The place behind a lexeme is the one that its characters lead to. -/
theorem IsLongest.placeBehind_append {before : List (Char × Bool)} {l : Lexeme} {form : Form}
    {rest : List Char} {kind : Token.Kind} {text? : Option String}
    (longest : IsLongest form l.chars rest kind text?)
    (made : ∀ p, l.token? p = some ⟨kind, text?, p⟩) :
    placeBehind (before ++ l.chars.map fun c => (c, form == .string)) =
      l.next (placeBehind before) := by
  rw [Lexeme.next_of_token? (made _), placeBehind_append_map]
  by_cases string : form = .string
  · exact .inr (beq_iff_eq.mpr string)
  · exact .inl (longest.spells.not_mem string (by decide) (by decide) (by decide))

/-! ### Texts -/

/-- The warnings about lexemes that start at a place. -/
def warningsAt (p : Position) (ls : List Lexeme) : List Event :=
  (placed p ls).filterMap Placed.warning?

theorem warningsAt_cons (p : Position) (l : Lexeme) (ls : List Lexeme) :
    warningsAt p (l :: ls) = (l.warning? p).toList ++ warningsAt (l.next p) ls := by
  rw [warningsAt, placed, List.filterMap_cons]
  cases made : l.warning? p <;> simp [Placed.warning?, made, warningsAt]

theorem places_lexemes (before : List (Char × Bool)) (cs : List Char) :
    Places before cs (tokensAt (placeBehind before) (lexemes cs))
      (warningsAt (placeBehind before) (lexemes cs)) := by
  induction cs using lexemes.induct generalizing before with
  | case1 =>
    rw [lexemes]
    exact .nil
  | case2 first rest ih =>
    have whole := Lexeme.chars_scan first rest
    have one := Lexeme.scan_fits first rest
    rw [lexemes, tokensAt_cons, warningsAt_cons]
    generalize (Lexeme.scan first rest).1 = l at whole one
    generalize (Lexeme.scan first rest).2 = behind at whole one ih
    rw [← whole]
    -- In each case the place that the scanner goes on from is the one behind the lexeme.
    cases one with
    | token made quiet terminated longest =>
      rw [made, quiet, ← longest.placeBehind_append made]
      exact .token terminated longest (ih _)
    | unterminated made warned unterminated longest =>
      rw [made, warned, ← longest.placeBehind_append made]
      exact .unterminated unterminated longest (ih _)
    | @blank c _ kind =>
      have counts : c ≠ '\r' := by rcases kind with rfl | rfl <;> decide
      have next : placeBehind (before ++ [(c, false)]) = (Lexeme.blank c).next (placeBehind before) :=
        placeBehind_append (.inl counts)
      rw [← next]
      exact .blank (kind.imp_right .inl) (ih _)
    | carriageReturn =>
      have next : placeBehind (before ++ [('\r', false)]) =
          Lexeme.carriageReturn.next (placeBehind before) := placeBehind_carriageReturn before
      rw [← next]
      exact .blank (.inr (.inr rfl)) (ih _)
    | @stray c _ other none =>
      have next : placeBehind (before ++ [(c, false)]) = (Lexeme.stray c).next (placeBehind before) :=
        placeBehind_append (.inl fun same => other (.inr (.inr same)))
      rw [← next]
      exact .stray other none (ih _)

/-- Every token of a source text and every warning has the place of its first character. -/
theorem lex_places (source : String) : ∃ warnings,
    Places [] source.toList (lex source).tokens warnings ∧
      (lex source).log = warnings ++
        [.lexed (1 + source.toList.count '\n') (lex source).tokens.length warnings.length] := by
  refine ⟨warningsAt .start (lexemes source.toList), places_lexemes [] source.toList, ?_⟩
  have line := line_placeAfter .start (lexemes source.toList)
  rw [flatMap_chars_lexemes] at line
  simp only [lex, line]
  rfl

end LabelBasic
