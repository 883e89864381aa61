import LabelBasic.Lexed

/-!
# Lexemes side by side

The lexemes of a text spell it. Here is when the converse holds too: lexemes written one behind the
other are read as they were, unless one of them could go on with characters of the next. A word or a
number cannot go on with a blank, a line end, a comma or a parenthesis.
-/
namespace LabelBasic

/-! ### Forms -/

/-- A word without its suffix. -/
inductive IsStem : List Char → Prop
  | intro {first : Char} {part : List Char} (starts : isWordStart first = true)
      (plain : isSuffix first = false) (each : ∀ c ∈ part, isWordPart c = true) :
      IsStem (first :: part)

inductive IsWord : List Char → Prop
  | mark {c : Char} (suffix : isSuffix c = true) : IsWord [c]
  | stem {cs : List Char} (stem : IsStem cs) : IsWord cs
  | suffixed {cs : List Char} {c : Char} (stem : IsStem cs) (suffix : isSuffix c = true) :
      IsWord (cs ++ [c])

/-- A number as listings write it: digits, perhaps with a point behind the first ones. -/
inductive IsNumeral : List Char → Prop
  | whole {first : Char} {digits : List Char} (starts : first.isDigit = true)
      (each : ∀ c ∈ digits, c.isDigit = true) : IsNumeral (first :: digits)
  | pointed {first : Char} {digits fraction : List Char} (starts : first.isDigit = true)
      (each : ∀ c ∈ digits, c.isDigit = true) (below : ∀ c ∈ fraction, c.isDigit = true) :
      IsNumeral (first :: digits ++ '.' :: fraction)

/-- The characters no word and no number goes on with. -/
def isBreak (c : Char) : Bool := c == ' ' || c == '\n' || c == ',' || c == '(' || c == ')'

/-- Nothing follows, or a break. -/
def Broken (rest : List Char) : Prop := ∀ c ∈ rest.head?, isBreak c = true

theorem broken_nil : Broken [] := nofun

theorem broken_cons {c : Char} (cut : isBreak c = true) (rest : List Char) : Broken (c :: rest) := by
  rintro _ ⟨⟩
  exact cut

theorem isBreak_cases {c : Char} (cut : isBreak c = true) :
    c = ' ' ∨ c = '\n' ∨ c = ',' ∨ c = '(' ∨ c = ')' := by
  simpa [isBreak, or_assoc] using cut

theorem not_isWordPart_of_isBreak {c : Char} (cut : isBreak c = true) : isWordPart c = false := by
  rcases isBreak_cases cut with rfl | rfl | rfl | rfl | rfl <;> decide

theorem not_isSuffix_of_isBreak {c : Char} (cut : isBreak c = true) : isSuffix c = false := by
  rcases isBreak_cases cut with rfl | rfl | rfl | rfl | rfl <;> decide

theorem not_isDigit_of_isBreak {c : Char} (cut : isBreak c = true) : c.isDigit = false := by
  rcases isBreak_cases cut with rfl | rfl | rfl | rfl | rfl <;> decide

theorem ne_of_isBreak {c d : Char} (cut : isBreak c = true) (other : isBreak d = false) : c ≠ d := by
  rintro rfl
  exact absurd cut (by simp [other])

theorem not_isWordPart_of_isSuffix {c : Char} (suffix : isSuffix c = true) :
    isWordPart c = false := by
  have marks : c = '$' ∨ c = '%' := by simpa [isSuffix] using suffix
  rcases marks with rfl | rfl <;> decide

theorem bounds_of_isDigit {c : Char} (digit : c.isDigit = true) : 48 ≤ c.toNat ∧ c.toNat ≤ 57 := by
  simpa [Char.isDigit, UInt32.le_iff_toNat_le, ← Char.toNat_val] using digit

theorem not_isLetter_of_isDigit {c : Char} (digit : c.isDigit = true) : isLetter c = false := by
  -- The digits come before all letters of ASCII, and other letters are not below 128.
  have bounds := bounds_of_isDigit digit
  have upper : c.isUpper = false := by
    refine Bool.eq_false_iff.mpr fun range => ?_
    have least : 65 ≤ c.toNat := UInt32.le_iff_toNat_le.mp (of_decide_eq_true range).1
    omega
  have lower : c.isLower = false := by
    refine Bool.eq_false_iff.mpr fun range => ?_
    have least : 97 ≤ c.toNat :=
      UInt32.le_iff_toNat_le.mp (of_decide_eq_true (Bool.and_eq_true_iff.mp range).1)
    omega
  rw [isLetter_of_isAlpha (by omega)]
  change (c.isUpper || c.isLower) = false
  rw [upper, lower]
  rfl

theorem not_isWordStart_of_isDigit {c : Char} (digit : c.isDigit = true) :
    isWordStart c = false := by
  have marks : c ≠ '_' ∧ c ≠ '$' ∧ c ≠ '%' := by
    refine ⟨?_, ?_, ?_⟩ <;> rintro rfl <;> exact absurd digit (by decide)
  simp [isWordStart, not_isLetter_of_isDigit digit, marks]

/-- Where the characters of a kind end, a run of them ends. -/
theorem takeWhile_run {p : Char → Bool} {cs rest : List Char} (each : ∀ c ∈ cs, p c = true)
    (stop : ∀ c ∈ rest.head?, p c = false) : (cs ++ rest).takeWhile p = cs := by
  rw [List.takeWhile_append_of_pos each]
  cases rest with
  | nil => simp
  | cons c rest => simp [stop c rfl]

theorem dropWhile_run {p : Char → Bool} {cs rest : List Char} (each : ∀ c ∈ cs, p c = true)
    (stop : ∀ c ∈ rest.head?, p c = false) : (cs ++ rest).dropWhile p = rest := by
  rw [List.dropWhile_append_of_pos each]
  cases rest with
  | nil => rfl
  | cons c rest => simp [stop c rfl]

section

variable {p : Char → Bool} {c : Char} (stop : p c = false) (rest below : List Char)

include stop

theorem takeWhile_stop : (rest ++ c :: below).takeWhile p = rest.takeWhile p := by
  rw [List.takeWhile_append]
  split
  next all =>
    have whole := (List.takeWhile_prefix p).eq_of_length all
    simp [stop, whole]
  next => rfl

theorem dropWhile_stop : (rest ++ c :: below).dropWhile p = rest.dropWhile p ++ c :: below := by
  rw [List.dropWhile_append]
  split
  next none =>
    rw [List.isEmpty_iff.mp none]
    simp [stop]
  next => rfl

end

namespace Lexeme

/-! ### One lexeme -/

theorem scan_of_wordStart {first : Char} (starts : isWordStart first = true) (rest : List Char) :
    scan first rest = scanWord first rest := by
  -- None of the characters that are asked for before starts a word.
  have other : ∀ c : Char, isWordStart c = false → first ≠ c := by
    rintro c no rfl
    exact absurd starts (by simp [no])
  simp only [scan]
  rw [if_neg (not_or.mpr ⟨other _ (by decide), other _ (by decide)⟩), if_neg (other _ (by decide)),
    if_neg (other _ (by decide)), if_neg (other _ (by decide)), if_pos starts]

theorem scan_of_isDigit {first : Char} (digit : first.isDigit = true) (rest : List Char) :
    scan first rest = scanNumber first rest := by
  -- None of the characters that are asked for before is a digit.
  have other : ∀ c : Char, c.isDigit = false → first ≠ c := by
    rintro c no rfl
    exact absurd digit (by simp [no])
  simp only [scan]
  rw [if_neg (not_or.mpr ⟨other _ (by decide), other _ (by decide)⟩), if_neg (other _ (by decide)),
    if_neg (other _ (by decide)), if_neg (other _ (by decide)),
    if_neg (by simp [not_isWordStart_of_isDigit digit]), if_pos (.inl digit)]

theorem scan_quote (rest : List Char) :
    scan '"' rest = (.string (scanString rest).1 (scanString rest).2.1, (scanString rest).2.2) :=
  rfl

/-- Only the signs of order start a symbol of two characters. -/
theorem ofSpelling?_pair {c d : Char} (less : c ≠ '<') (greater : c ≠ '>') :
    Symbol.ofSpelling? [c, d] = none := by
  cases found : Symbol.ofSpelling? [c, d] with
  | none => rfl
  | some s =>
    -- A symbol of two characters is a relation, and each of those starts with `<` or `>`.
    have spelled := spelling_of_ofSpelling? found
    cases s with
    | relation r =>
      cases r <;> simp [Symbol.spelling, Relation.symbol] at spelled
      · exact absurd spelled.1.symm less
      · exact absurd spelled.1.symm greater
      · exact absurd spelled.1.symm less
    | operator op => cases op <;> simp [Symbol.spelling, Operator.symbol] at spelled
    | leftParen | rightParen | comma => simp [Symbol.spelling] at spelled

theorem scanSymbol?_single {c : Char} {s : Symbol} {rest : List Char}
    (spelled : Symbol.ofSpelling? [c] = some s)
    (apart : ∀ d ∈ rest.head?, Symbol.ofSpelling? [c, d] = none) :
    scanSymbol? c rest = some (.symbol s, rest) := by
  cases rest with
  | nil => simp [scanSymbol?, spelled]
  | cons d rest => simp [scanSymbol?, spelled, apart d rfl]

theorem scanSymbol?_pair {c d : Char} {s : Symbol} (spelled : Symbol.ofSpelling? [c, d] = some s)
    (rest : List Char) : scanSymbol? c (d :: rest) = some (.symbol s, rest) := by
  simp [scanSymbol?, spelled]

/-- The character starts no lexeme but perhaps a symbol. -/
def isMark (c : Char) : Bool :=
  !(c == ' ' || c == '\t' || c == '\r' || c == '\n' || c == '"' || isWordStart c || c.isDigit ||
    c == '.')

theorem scan_of_isMark {c : Char} (mark : isMark c = true) (rest : List Char) :
    scan c rest = (scanSymbol? c rest).getD (.stray c, rest) := by
  simp only [isMark, Bool.not_eq_true', Bool.or_eq_false_iff, beq_eq_false_iff_ne] at mark
  obtain ⟨⟨⟨⟨⟨⟨⟨blank, tab⟩, carriage⟩, lineFeed⟩, quote⟩, start⟩, digit⟩, point⟩ := mark
  simp only [scan]
  rw [if_neg (not_or.mpr ⟨blank, tab⟩), if_neg carriage, if_neg lineFeed, if_neg quote,
    if_neg (by simp [start]), if_neg (by simp [digit, point])]

/-- A parenthesis or a comma is read whatever follows. -/
theorem scan_single {c : Char} {s : Symbol} (mark : isMark c = true)
    (spelled : Symbol.ofSpelling? [c] = some s) {rest : List Char}
    (apart : ∀ d ∈ rest.head?, Symbol.ofSpelling? [c, d] = none) :
    scan c rest = (.symbol s, rest) := by
  rw [scan_of_isMark mark, scanSymbol?_single spelled apart, Option.getD_some]

theorem scan_pair {c d : Char} {s : Symbol} (mark : isMark c = true)
    (spelled : Symbol.ofSpelling? [c, d] = some s) (rest : List Char) :
    scan c (d :: rest) = (.symbol s, rest) := by
  rw [scan_of_isMark mark, scanSymbol?_pair spelled, Option.getD_some]

end Lexeme

/-! ### Lexemes in a row -/

/-- In front of these characters the lexemes are read as they are. -/
def Reads (ls : List Lexeme) (rest : List Char) : Prop :=
  lexemes (ls.flatMap Lexeme.chars ++ rest) = ls ++ lexemes rest

namespace Reads

variable {ls ms : List Lexeme} {l : Lexeme} {first : Char} {rest : List Char}

theorem nil : Reads [] rest := rfl

theorem append (one : Reads ls (ms.flatMap Lexeme.chars ++ rest)) (two : Reads ms rest) :
    Reads (ls ++ ms) rest := by
  rw [Reads, List.flatMap_append, List.append_assoc, one, two, List.append_assoc]

theorem of_scan (tail : List Char) (chars : l.chars = first :: tail)
    (scanned : Lexeme.scan first (tail ++ rest) = (l, rest)) : Reads [l] rest := by
  rw [Reads, List.flatMap_singleton, chars, List.cons_append, lexemes, scanned]
  rfl

theorem cons (one : Reads [l] (ms.flatMap Lexeme.chars ++ rest)) (two : Reads ms rest) :
    Reads (l :: ms) rest := append one two

theorem blank : Reads [.blank ' '] rest := of_scan [] rfl rfl

theorem lineFeed : Reads [.lineFeed] rest := of_scan [] rfl rfl

theorem leftParen : Reads [.symbol .leftParen] rest :=
  of_scan [] rfl (Lexeme.scan_single (by decide) (by decide) fun _ _ =>
    Lexeme.ofSpelling?_pair (by decide) (by decide))

theorem rightParen : Reads [.symbol .rightParen] rest :=
  of_scan [] rfl (Lexeme.scan_single (by decide) (by decide) fun _ _ =>
    Lexeme.ofSpelling?_pair (by decide) (by decide))

theorem comma : Reads [.symbol .comma] rest :=
  of_scan [] rfl (Lexeme.scan_single (by decide) (by decide) fun _ _ =>
    Lexeme.ofSpelling?_pair (by decide) (by decide))

theorem operator (op : Operator) : Reads [.symbol (.operator op)] rest := by
  cases op <;> exact of_scan [] rfl (Lexeme.scan_single (by decide) (by decide) fun _ _ =>
    Lexeme.ofSpelling?_pair (by decide) (by decide))

theorem relation (r : Relation) (cut : Broken rest) : Reads [.symbol (.relation r)] rest := by
  -- A relation of one character could be the start of one of two, but a break does not go on with it.
  have apart : ∀ c, c = '<' ∨ c = '>' ∨ c = '=' → ∀ d ∈ rest.head?,
      Symbol.ofSpelling? [c, d] = none := by
    intro c sign d head
    rcases isBreak_cases (cut d head) with rfl | rfl | rfl | rfl | rfl <;>
      rcases sign with rfl | rfl | rfl <;> decide
  cases r with
  | less | greater | equal =>
    exact of_scan [] rfl (Lexeme.scan_single (by decide) (by decide) (apart _ (by decide)))
  | lessEqual | greaterEqual | notEqual =>
    exact of_scan _ rfl (Lexeme.scan_pair (by decide) (by decide) _)

theorem word {cs : List Char} (form : IsWord cs) (cut : Broken rest) : Reads [.word cs] rest := by
  cases form with
  | mark suffix =>
    rename_i c
    -- A suffix alone is a word.
    have starts : isWordStart c = true := by
      simp only [isSuffix, Bool.or_eq_true] at suffix
      simp only [isWordStart, Bool.or_eq_true]
      rcases suffix with dollar | percent
      · exact .inl (.inr dollar)
      · exact .inr percent
    apply of_scan [] rfl
    rw [Lexeme.scan_of_wordStart starts, Lexeme.scanWord, if_pos suffix, List.nil_append]
  | stem stem =>
    obtain ⟨starts, plain, each⟩ := stem
    have stop : ∀ c ∈ rest.head?, isWordPart c = false := fun c head =>
      not_isWordPart_of_isBreak (cut c head)
    apply of_scan _ rfl
    rw [Lexeme.scan_of_wordStart starts, Lexeme.scanWord, if_neg (by simp [plain]),
      takeWhile_run each stop, dropWhile_run each stop]
    cases rest with
    | nil => rfl
    | cons c rest =>
      have colon : c ≠ ':' := ne_of_isBreak (cut c rfl) (by decide)
      simp [not_isSuffix_of_isBreak (cut c rfl), colon]
  | suffixed stem suffix =>
    obtain ⟨starts, plain, each⟩ := stem
    rename_i c first part
    -- The stem ends at the suffix, and a suffix ends the word.
    have stop : ∀ d ∈ (c :: rest).head?, isWordPart d = false := by
      rintro _ ⟨⟩
      exact not_isWordPart_of_isSuffix suffix
    apply of_scan (part ++ [c]) rfl
    rw [Lexeme.scan_of_wordStart starts, Lexeme.scanWord, if_neg (by simp [plain]),
      List.append_assoc, List.singleton_append, takeWhile_run each stop, dropWhile_run each stop]
    simp [suffix]

theorem label {cs : List Char} (form : IsStem cs) : Reads [.label cs] rest := by
  obtain ⟨starts, plain, each⟩ := form
  rename_i first part
  have stop : ∀ d ∈ (':' :: rest).head?, isWordPart d = false := by
    rintro _ ⟨⟩
    decide
  apply of_scan (part ++ [':']) rfl
  rw [Lexeme.scan_of_wordStart starts, Lexeme.scanWord, if_neg (by simp [plain]),
    List.append_assoc, List.singleton_append, takeWhile_run each stop, dropWhile_run each stop]
  rfl

theorem numeral {cs : List Char} (form : IsNumeral cs) (cut : Broken rest) :
    Reads [.number cs] rest := by
  have stop : ∀ c ∈ rest.head?, c.isDigit = false := fun c head =>
    not_isDigit_of_isBreak (cut c head)
  cases form with
  | whole starts each =>
    apply of_scan _ rfl
    rw [Lexeme.scan_of_isDigit starts, Lexeme.scanNumber, takeWhile_run each stop,
      dropWhile_run each stop]
    cases rest with
    | nil => rfl
    | cons c rest =>
      have point : c ≠ '.' := ne_of_isBreak (cut c rfl) (by decide)
      split
      next same => exact absurd (List.cons.inj same).1 point
      next => rfl
  | pointed starts each below =>
    rename_i first digits fraction
    -- The point ends the first run of digits and starts the second one.
    have pause : ∀ c ∈ ('.' :: (fraction ++ rest)).head?, c.isDigit = false := by
      rintro _ ⟨⟩
      decide
    have other : first ≠ '.' := by
      rintro rfl
      exact absurd starts (by decide)
    apply of_scan (digits ++ '.' :: fraction) rfl
    rw [Lexeme.scan_of_isDigit starts, Lexeme.scanNumber, List.append_assoc, List.cons_append,
      takeWhile_run each pause, dropWhile_run each pause]
    simp only [if_neg other, takeWhile_run below stop, dropWhile_run below stop]

end Reads

/-! ### Strings -/

/-- A character as a listing writes it into a string. -/
def Piece.of (c : Char) : Piece := if c = '"' ∨ c = '\\' then .escaped c else .plain c

theorem Piece.char_of (c : Char) : (Piece.of c).char = c := by
  simp only [Piece.of]
  split <;> rfl

theorem scanString_pieces (cs rest : List Char) :
    Lexeme.scanString ((cs.map Piece.of).flatMap Piece.chars ++ '"' :: rest) =
      (cs.map Piece.of, .quote, rest) := by
  induction cs with
  | nil => rfl
  | cons c cs ih =>
    rw [List.map_cons, List.flatMap_cons, List.append_assoc]
    -- A quote or a backslash is read behind a backslash, any other character as it is.
    by_cases special : c = '"' ∨ c = '\\'
    · rw [Piece.of, if_pos special]
      change Lexeme.scanString ('\\' :: c :: (_ ++ '"' :: rest)) = _
      rw [Lexeme.scanString, ih]
    · rw [Piece.of, if_neg special]
      change Lexeme.scanString (c :: (_ ++ '"' :: rest)) = _
      rw [Lexeme.scanString, ih]
      · exact fun quote => special (.inl quote)
      · exact fun backslash _ => special (.inr backslash)
      · exact fun _ _ backslash _ => special (.inr backslash)

theorem Reads.string (cs : List Char) {rest : List Char} :
    Reads [.string (cs.map Piece.of) .quote] rest := by
  have spelled : (cs.map Piece.of).flatMap Piece.chars ++ StringEnd.quote.chars ++ rest =
      (cs.map Piece.of).flatMap Piece.chars ++ '"' :: rest := by
    rw [List.append_assoc]
    rfl
  apply of_scan ((cs.map Piece.of).flatMap Piece.chars ++ StringEnd.quote.chars) rfl
  rw [Lexeme.scan_quote, spelled, scanString_pieces]

/-! ### What is read -/

/-- Words and labels have their form, and no number has a sign. -/
def Lexeme.IsFormed : Lexeme → Prop
  | .word cs => IsWord cs
  | .label cs => IsStem cs
  | .number cs => Numeral.sign cs = (false, cs)
  | _ => True

namespace Lexeme

theorem scanWord_isFormed {first : Char} (starts : isWordStart first = true) (rest : List Char) :
    (scanWord first rest).1.IsFormed := by
  simp only [scanWord]
  split
  next suffix => exact .mark suffix
  next plain =>
    have stem : IsStem (first :: rest.takeWhile isWordPart) :=
      .intro starts (by simpa using plain) (List.all_eq_true.mp List.all_takeWhile)
    split
    next => exact .stem stem
    -- What stopped the stem is a suffix, a colon, or belongs to the next lexeme.
    next c after _ =>
      split
      next suffix => exact .suffixed stem suffix
      next =>
        split
        next => exact stem
        next => exact .stem stem

theorem sign_of_start {first : Char} (starts : first.isDigit = true ∨ first = '.')
    (rest : List Char) : Numeral.sign (first :: rest) = (false, first :: rest) := by
  simp only [Numeral.sign]
  split
  next same =>
    cases same
    exact absurd starts (by decide)
  next same =>
    cases same
    exact absurd starts (by decide)
  next => rfl

theorem scanNumber_isFormed {first : Char} (starts : first.isDigit = true ∨ first = '.')
    (rest : List Char) : (scanNumber first rest).1.IsFormed := by
  unfold scanNumber
  dsimp only
  split
  next =>
    split
    next => exact sign_of_start starts _
    next => exact sign_of_start starts _
  next => exact sign_of_start starts _

theorem scanSymbol?_isFormed {first : Char} {rest : List Char} {r : Lexeme × List Char}
    (found : scanSymbol? first rest = some r) : r.1.IsFormed := by
  -- Both ways of reading give a symbol.
  have single : ∀ r, (Symbol.ofSpelling? [first]).map (fun s => (symbol s, rest)) = some r →
      r.1.IsFormed := by
    intro r hr
    obtain ⟨s, _, rfl⟩ := Option.map_eq_some_iff.mp hr
    trivial
  cases rest with
  | nil => exact single r found
  | cons second after =>
    simp only [scanSymbol?, Option.or_eq_some_iff] at found
    rcases found with pair | ⟨_, one⟩
    · obtain ⟨s, _, rfl⟩ := Option.map_eq_some_iff.mp pair
      trivial
    · exact single r one

theorem scan_isFormed (first : Char) (rest : List Char) : (scan first rest).1.IsFormed := by
  simp only [scan]
  split
  next => trivial
  split
  next => trivial
  split
  next => trivial
  split
  next => trivial
  split
  next starts => exact scanWord_isFormed starts rest
  split
  next starts => exact scanNumber_isFormed starts rest
  next =>
    cases found : scanSymbol? first rest with
    | none => trivial
    | some r => exact scanSymbol?_isFormed found

theorem isFormed_of_mem {l : Lexeme} {cs : List Char} (member : l ∈ lexemes cs) : l.IsFormed := by
  induction cs using lexemes.induct with
  | case1 => simp [lexemes] at member
  | case2 first rest ih =>
    rw [lexemes] at member
    rcases List.mem_cons.mp member with rfl | later
    · exact scan_isFormed first rest
    · exact ih later

end Lexeme

/-- A token as lexing makes it. -/
structure Token.IsFormed (t : Token) : Prop where
  word : t.kind = .word → IsWord t.text.toList ∧ Keyword.ofWord? t.text = none
  label : t.kind = .label → IsStem t.text.toList
  number : t.kind = .number → Numeral.sign t.text.toList = (false, t.text.toList)

theorem Lexeme.IsFormed.token {l : Lexeme} (formed : l.IsFormed) {p : Position} {t : Token}
    (made : l.token? p = some t) : t.IsFormed := by
  cases l with
  | blank | carriageReturn | stray => cases made
  | lineFeed | string | symbol =>
    cases made
    exact ⟨nofun, nofun, nofun⟩
  | label cs =>
    cases made
    refine ⟨nofun, fun _ => ?_, nofun⟩
    change IsStem (String.ofList cs).toList
    rw [String.toList_ofList]
    exact formed
  | number cs =>
    cases made
    refine ⟨nofun, nofun, fun _ => ?_⟩
    change Numeral.sign (String.ofList cs).toList = (false, (String.ofList cs).toList)
    rw [String.toList_ofList]
    exact formed
  | word cs =>
    simp only [Lexeme.token?, Option.some.injEq, wordToken] at made
    split at made
    next =>
      cases made
      exact ⟨nofun, nofun, nofun⟩
    next plain =>
      cases made
      refine ⟨fun _ => ⟨?_, plain⟩, nofun, nofun⟩
      change IsWord (String.ofList cs).toList
      rw [String.toList_ofList]
      exact formed

/-! ### Places -/

/-- The tokens of lexemes that start at a place. -/
def tokensAt (p : Position) (ls : List Lexeme) : List Token :=
  (placed p ls).filterMap Placed.token?

theorem tokensAt_nil (p : Position) : tokensAt p [] = [] := rfl

theorem tokensAt_cons (p : Position) (l : Lexeme) (ls : List Lexeme) :
    tokensAt p (l :: ls) = (l.token? p).toList ++ tokensAt (l.next p) ls := by
  rw [tokensAt, placed, List.filterMap_cons]
  cases made : l.token? p <;> simp [Placed.token?, made, tokensAt]

theorem tokensAt_append (p : Position) (ls ms : List Lexeme) :
    tokensAt p (ls ++ ms) = tokensAt p ls ++ tokensAt (placeAfter p ls) ms := by
  rw [tokensAt, placed_append, List.filterMap_append]
  rfl

theorem isFormed_of_mem_tokensAt {p : Position} {ls : List Lexeme} {t : Token}
    (formed : ∀ l ∈ ls, l.IsFormed) (member : t ∈ tokensAt p ls) : t.IsFormed := by
  induction ls generalizing p with
  | nil => simp [tokensAt_nil] at member
  | cons l ls ih =>
    obtain ⟨first, rest⟩ := List.forall_mem_cons.mp formed
    rw [tokensAt_cons] at member
    rcases List.mem_append.mp member with here | later
    · exact first.token (by simpa using here)
    · exact ih rest later

theorem isFormed_of_mem_lex {source : String} {t : Token} (member : t ∈ (lex source).tokens) :
    t.IsFormed :=
  isFormed_of_mem_tokensAt (fun _ => Lexeme.isFormed_of_mem) member

/-- The lexeme leaves the line as it is. -/
def Lexeme.InLine (l : Lexeme) : Prop := '\n' ∉ l.chars

theorem Position.line_advance (p : Position) (cs : List Char) :
    (p.advance cs).line = p.line + cs.count '\n' := by
  induction cs generalizing p with
  | nil => rfl
  | cons c cs ih =>
    rw [advance_cons, ih, next, List.count_cons]
    by_cases lineFeed : c = '\n'
    · simp only [lineFeed, if_true, beq_self_eq_true]
      omega
    · simp [lineFeed]

theorem Lexeme.line_next (p : Position) (l : Lexeme) :
    (l.next p).line = p.line + l.chars.count '\n' := by
  cases l with
  | carriageReturn => rfl
  | blank | lineFeed | word | label | number | string | symbol | stray => exact p.line_advance _

/-- Lexemes lead as many lines down as there are line feeds in them. -/
theorem line_placeAfter (p : Position) (ls : List Lexeme) :
    (placeAfter p ls).line = p.line + (ls.flatMap Lexeme.chars).count '\n' := by
  induction ls generalizing p with
  | nil => rfl
  | cons l ls ih =>
    rw [List.flatMap_cons, List.count_append, ← Nat.add_assoc, ← Lexeme.line_next]
    exact ih (l.next p)

theorem Lexeme.InLine.line_next {l : Lexeme} (inLine : l.InLine) (p : Position) :
    (l.next p).line = p.line := by
  rw [Lexeme.line_next, List.count_eq_zero.mpr inLine, Nat.add_zero]

theorem line_placeAfter_of_inLine {ls : List Lexeme} (inLine : ∀ l ∈ ls, l.InLine) (p : Position) :
    (placeAfter p ls).line = p.line := by
  have none : '\n' ∉ ls.flatMap Lexeme.chars := by
    intro member
    obtain ⟨l, lexeme, lineFeed⟩ := List.mem_flatMap.mp member
    exact inLine l lexeme lineFeed
  rw [line_placeAfter, List.count_eq_zero.mpr none, Nat.add_zero]

theorem position_of_token? {l : Lexeme} {p : Position} {t : Token} (made : l.token? p = some t) :
    t.position = p := by
  cases l with
  | blank | carriageReturn | stray => cases made
  | lineFeed | string | symbol | label | number =>
    cases made
    rfl
  | word cs =>
    simp only [Lexeme.token?, Option.some.injEq, Lexeme.wordToken] at made
    split at made <;> cases made <;> rfl

theorem line_of_mem_tokensAt {ls : List Lexeme} (inLine : ∀ l ∈ ls, l.InLine) {p : Position}
    {t : Token} (member : t ∈ tokensAt p ls) : t.line = p.line := by
  induction ls generalizing p with
  | nil => simp [tokensAt_nil] at member
  | cons l ls ih =>
    obtain ⟨first, rest⟩ := List.forall_mem_cons.mp inLine
    rw [tokensAt_cons] at member
    rcases List.mem_append.mp member with here | later
    · exact congrArg Position.line (position_of_token? (by simpa using here))
    · exact (ih rest later).trans (first.line_next p)

/-- A text that is one lexeme, on one line and nothing to warn about. -/
theorem lex_of_lexeme {source : String} {l : Lexeme} {t : Token}
    (whole : lexemes source.toList = [l]) (inLine : l.InLine) (calm : l.warning? .start = none)
    (made : l.token? .start = some t) : lex source = ⟨[t], [.lexed 1 1 0]⟩ := by
  have line : (l.next .start).line = 1 := inLine.line_next .start
  have tokens : (placed .start [l]).filterMap Placed.token? = [t] := by
    simp [placed, Placed.token?, made]
  have warnings : (placed .start [l]).filterMap Placed.warning? = [] := by
    simp [placed, Placed.warning?, calm]
  change Lexed.mk _ _ = _
  rw [whole, tokens, warnings, List.nil_append]
  exact congrArg (fun n => Lexed.mk [t] [.lexed n 1 0]) line

end LabelBasic
