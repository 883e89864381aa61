import LabelBasic.Cursor
import LabelBasic.Proofs.Places
import Mathlib.Data.List.Induction

/-!
# The columns of tokens

Main result: in a text without carriage returns, the columns of a token on one line are those of its
characters, unless it is a string that has dropped backslashes or is not closed. Its columns are
counted from its text, with two more for quotes: each backslash that is not in the text makes them
one too few, and a quote that is missing makes them one too many.
-/
namespace LabelBasic

/-- The columns of characters on one line, behind the characters before them. -/
def columnsOf (before cs : List Char) : Columns :=
  let column := (before.reverse.takeWhile (· != '\n')).length
  ⟨column, column + cs.length⟩

/-- How many backslashes stand for the character behind them, or have none behind them. -/
def escapeCount : List Char → Nat
  | [] => 0
  | '\\' :: [] => 1
  | '\\' :: _ :: cs => escapeCount cs + 1
  | _ :: cs => escapeCount cs

/-- Behind the characters before it, the text is divided into lexemes and skipped characters. Each
token satisfies `P` with the characters of the text that it is made of, and those before them. -/
inductive EachToken (P : List Char → List Char → Token → Prop) :
    List Char → List Char → List Token → Prop
  | nil {before : List Char} : EachToken P before [] []
  | skip {before : List Char} {c : Char} {rest : List Char} {ts : List Token}
      (skipped : c = ' ' ∨ c = '\t' ∨ c = '\r' ∨ StartsNone c)
      (later : EachToken P (before ++ [c]) rest ts) : EachToken P before (c :: rest) ts
  | token {before : List Char} {form : Form} {cs rest : List Char} {t : Token} {ts : List Token}
      (first : IsLongest form cs rest t.kind t.text?) (holds : P before cs t)
      (later : EachToken P (before ++ cs) rest ts) : EachToken P before (cs ++ rest) (t :: ts)

/-- The token has the columns of its characters, and so have the errors that are reported at it, and
the empty range of those that are reported behind it. -/
structure PointsAt (before cs : List Char) (t : Token) : Prop where
  covers : t.columns = columnsOf before cs
  here : ∀ c : Cursor Token, c.ahead.head? = some t → c.columns = columnsOf before cs
  behind : ∀ c : Cursor Token, c.ahead = [] → c.passed = some t →
    c.columns = ⟨(columnsOf before cs).stop, (columnsOf before cs).stop⟩

/-- The columns start with the first character, and end early by the backslashes that are dropped
and late by the quote that is missing. -/
structure Extends (before cs : List Char) (t : Token) : Prop where
  start : t.columns.start = (columnsOf before cs).start
  closed : ¬IsUnterminated cs → t.columns.stop + escapeCount cs = (columnsOf before cs).stop
  unclosed : IsUnterminated cs → t.columns.stop + escapeCount cs = (columnsOf before cs).stop + 1

/-- As many backslashes are dropped as closing quotes are missing. -/
def KeepsWidth (cs : List Char) : Prop :=
  (IsUnterminated cs → escapeCount cs = 1) ∧ (¬IsUnterminated cs → escapeCount cs = 0)

/-! ### Backslashes -/

theorem escapeCount_cons {c : Char} (other : c ≠ '\\') (cs : List Char) :
    escapeCount (c :: cs) = escapeCount cs := by
  rw [escapeCount]
  · exact fun same _ => other same
  · exact fun _ _ same _ => other same

theorem escapeCount_eq_zero {cs : List Char} (none : '\\' ∉ cs) : escapeCount cs = 0 := by
  induction cs with
  | nil => rfl
  | cons c cs ih =>
    rw [escapeCount_cons (Ne.symm (List.ne_of_not_mem_cons none)),
      ih (List.not_mem_of_not_mem_cons none)]

/-- The inside of a string is longer than its text by the backslashes that are dropped. -/
theorem Unescapes.escapeCount_append {cs text : List Char} (inside : Unescapes cs text)
    (rest : List Char) :
    escapeCount (cs ++ rest) + text.length = cs.length + escapeCount rest := by
  induction inside with
  | nil => simp
  | @plain c cs text _ backslash _ ih =>
    rw [List.cons_append, escapeCount_cons backslash]
    simp only [List.length_cons]
    omega
  | @escaped c cs text _ ih =>
    rw [List.cons_append, List.cons_append, escapeCount]
    simp only [List.length_cons]
    omega

/-! ### The width of a token -/

section

variable {form : Form} {cs rest : List Char} {kind : Token.Kind} {text? : Option String}

/-- What is not a string is as wide as its characters are many. -/
theorem Spells.length_of_ne_string (spells : Spells form cs rest kind text?)
    (other : form ≠ .string) :
    (text?.getD kind.spelling).length + kind.dropped = cs.length := by
  cases spells with
  | lineEnd => rfl
  | @keyword cs _ k word folded =>
    -- Folding the case keeps the length.
    have length : (String.ofList cs).toLower.length = cs.length :=
      (String.length_map ..).trans String.length_ofList
    rw [folded] at length
    simpa [Token.Kind.spelling, Token.Kind.dropped] using length
  | word => simp [Token.Kind.dropped]
  | label => simp [Token.Kind.dropped]
  | number => simp [Token.Kind.dropped]
  | string | unclosed | dangling => exact absurd rfl other
  | symbol s => exact String.length_toList.symm

/-- The width of a string is that of its characters, less a column for each dropped backslash, and
one more if it is not closed. -/
theorem Spells.length_of_string (spells : Spells .string cs rest kind text?) :
    (¬IsUnterminated cs →
      (text?.getD kind.spelling).length + kind.dropped + escapeCount cs = cs.length) ∧
    (IsUnterminated cs →
      (text?.getD kind.spelling).length + kind.dropped + escapeCount cs = cs.length + 1) := by
  cases spells with
  | @string cs text _ inside =>
    refine ⟨fun _ => ?_, fun open_ => absurd open_ (Lexeme.not_isUnterminated_of_quoted inside)⟩
    have count := inside.escapeCount_append ['"']
    rw [show escapeCount ['"'] = 0 from rfl] at count
    rw [escapeCount_cons (by decide)]
    simp only [Option.getD_some, String.length_ofList, Token.Kind.dropped,
      List.length_cons, List.length_append, List.length_nil] at count ⊢
    omega
  | @unclosed cs text inside =>
    refine ⟨fun closed => absurd (.unclosed inside) closed, fun _ => ?_⟩
    have count := inside.escapeCount_append []
    rw [escapeCount_cons (by decide)]
    simp only [escapeCount, List.append_nil, Option.getD_some, String.length_ofList,
      Token.Kind.dropped, List.length_cons] at count ⊢
    omega
  | @dangling cs text inside =>
    refine ⟨fun closed => absurd (.dangling inside) closed, fun _ => ?_⟩
    have count := inside.escapeCount_append ['\\']
    rw [escapeCount_cons (by decide)]
    simp only [escapeCount, Option.getD_some, String.length_ofList, Token.Kind.dropped,
      List.length_cons, List.length_append, List.length_nil] at count ⊢
    omega

theorem column_advance (before : List Char) :
    (Position.start.advance before).column = (before.reverse.takeWhile (· != '\n')).length := by
  induction before using List.reverseRecOn with
  | nil => rfl
  | append_singleton before c ih =>
    rw [Position.advance_append, List.reverse_append]
    by_cases lineFeed : c = '\n'
    · simp [Position.next, lineFeed]
    · simp [Position.next, lineFeed, ih]

theorem Spells.extends (spells : Spells form cs rest kind text?) (before : List Char) :
    Extends before cs ⟨kind, text?, Position.start.advance before⟩ := by
  have column := column_advance before
  by_cases string : form = .string
  · subst string
    obtain ⟨closed, unclosed⟩ := spells.length_of_string
    refine ⟨column, fun terminated => ?_, fun unterminated => ?_⟩
    · have width := closed terminated
      simp only [Token.columns, Token.text, columnsOf, ← column]
      omega
    · have width := unclosed unterminated
      simp only [Token.columns, Token.text, columnsOf, ← column]
      omega
  · have width := spells.length_of_ne_string string
    have none := escapeCount_eq_zero (spells.not_mem string (by decide) (by decide) (by decide))
    refine ⟨column, fun _ => ?_, fun open_ => absurd open_ (spells.not_isUnterminated string)⟩
    simp only [Token.columns, Token.text, columnsOf, ← column]
    omega

end

theorem pointsAt_iff_covers {before cs : List Char} {t : Token} :
    PointsAt before cs t ↔ t.columns = columnsOf before cs := by
  refine ⟨PointsAt.covers, fun covers => ⟨covers, fun c head => ?_, fun c none last => ?_⟩⟩
  · obtain ⟨passed, ahead⟩ := c
    obtain ⟨rest, rfl⟩ := List.head?_eq_some_iff.mp head
    exact covers
  · obtain ⟨passed, ahead⟩ := c
    cases none
    cases last
    rw [← covers]
    rfl

theorem Extends.pointsAt_iff {before cs : List Char} {t : Token} (extends_ : Extends before cs t) :
    PointsAt before cs t ↔ KeepsWidth cs := by
  obtain ⟨start, closed, unclosed⟩ := extends_
  have stops : t.columns = columnsOf before cs ↔ t.columns.stop = (columnsOf before cs).stop := by
    refine ⟨congrArg Columns.stop, fun stop => ?_⟩
    generalize columnsOf before cs = columns at start stop
    cases columns
    cases start
    cases stop
    rfl
  rw [pointsAt_iff_covers, stops, KeepsWidth]
  by_cases unterminated : IsUnterminated cs
  · have last := unclosed unterminated
    simp only [unterminated, not_true_eq_false, true_implies, false_implies, and_true]
    omega
  · have last := closed unterminated
    simp only [unterminated, not_false_eq_true, true_implies, false_implies, true_and]
    omega

/-! ### Texts -/

/-- What holds of all that is spelled at a place holds of the tokens of a text. -/
theorem eachToken_lexemes {P : List Char → List Char → Token → Prop} {before cs : List Char}
    (plain : '\r' ∉ cs)
    (each : ∀ before form cs rest kind text?, Spells form cs rest kind text? →
      P before cs ⟨kind, text?, Position.start.advance before⟩) :
    EachToken P before cs (tokensAt (Position.start.advance before) (lexemes cs)) := by
  induction cs using lexemes.induct generalizing before with
  | case1 =>
    rw [lexemes]
    exact .nil
  | case2 first rest ih =>
    have whole := Lexeme.chars_scan first rest
    have one := Lexeme.scan_fits first rest
    rw [lexemes, tokensAt_cons]
    generalize (Lexeme.scan first rest).1 = l at whole one
    generalize (Lexeme.scan first rest).2 = behind at whole one ih
    rw [← whole] at plain ⊢
    have later : EachToken P (before ++ l.chars) behind _ :=
      ih fun member => plain (List.mem_append_right _ member)
    rw [Position.advance_append] at later
    -- Without carriage returns each lexeme takes as many columns as it has characters.
    cases one with
    | token made _ _ longest | unterminated made _ _ longest =>
      rw [made, Lexeme.next_of_token? (made _)]
      exact .token longest (each before _ _ _ _ _ longest.spells) later
    | blank kind => exact .skip (kind.elim .inl (.inr ∘ .inl)) later
    | carriageReturn => exact absurd (List.mem_append_left _ List.mem_cons_self) plain
    | stray _ none => exact .skip (.inr (.inr (.inr none))) later

/-- The columns of a token on one line are those of its characters unless it is a string with
backslashes, but for an unclosed string with a single one. -/
theorem columns_cover_iff {source : String} (plain : '\r' ∉ source.toList) :
    EachToken (fun before cs t => '\n' ∉ cs →
        Extends before cs t ∧ (PointsAt before cs t ↔ KeepsWidth cs))
      [] source.toList (lex source).tokens :=
  eachToken_lexemes plain fun before _ _ _ _ _ spells _ =>
    ⟨spells.extends before, (spells.extends before).pointsAt_iff⟩

theorem columns_cover_iff_of_a_quote_and_an_open_string :
    '\r' ∉ "x = \"a\\\"b\" + \"c".toList ∧
      EachToken (fun before cs t => '\n' ∉ cs →
          Extends before cs t ∧ (PointsAt before cs t ↔ KeepsWidth cs))
        [] "x = \"a\\\"b\" + \"c".toList (lex "x = \"a\\\"b\" + \"c").tokens :=
  ⟨by decide, columns_cover_iff (by decide)⟩

/-- In `"a\"b"` the backslash is dropped, and the columns end before the closing quote. -/
theorem not_pointsAt_of_escaped_quote :
    ¬∀ source : String, '\r' ∉ source.toList →
      EachToken (fun before cs t => '\n' ∉ cs → PointsAt before cs t)
        [] source.toList (lex source).tokens := by
  intro all
  have inside : Unescapes ['a', '\\', '"', 'b'] ['a', '"', 'b'] :=
    .plain (by decide) (by decide) (.escaped (.plain (by decide) (by decide) .nil))
  have longest : IsLongest .string ['"', 'a', '\\', '"', 'b', '"'] [] .string (some "a\"b") :=
    ⟨.string inside, fun more rest _ _ eq _ => (List.append_eq_nil_iff.mp eq.symm).1⟩
  have each := all "\"a\\\"b\"" (by decide)
  generalize (lex "\"a\\\"b\"").tokens = ts at each
  generalize eq : "\"a\\\"b\"".toList = text at each
  cases each with
  | nil => cases eq
  | skip skipped =>
    cases eq
    exact startsNone_of_skipped skipped _ _ _ _ _ longest.spells
  | @token _ form cs rest t _ first points =>
    -- The whole text is one string, and its token is two characters shorter.
    obtain ⟨c, tail, rfl, start⟩ := first.spells.exists_start
    obtain rfl : '"' = c := (List.cons.inj eq).1
    cases start.symm.trans longest.spells.ofStart?
    obtain ⟨same, rfl⟩ := longest.unique first eq
    rw [same] at first points
    obtain ⟨kind, text⟩ := longest.spells.unique first.spells
    have covers := (points (by decide)).covers
    have start := congrArg Columns.start covers
    have stop := congrArg Columns.stop covers
    have width : t.text.length + t.kind.dropped = 5 := by
      rw [Token.text, kind, text]
      rfl
    simp only [Token.columns, columnsOf, List.length_cons, List.length_nil] at start stop
    omega

end LabelBasic
