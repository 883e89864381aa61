import LabelBasic.Text.Letter
import LabelBasic.Token

/-!
# Lexemes

A source text is a sequence of lexemes: blanks, line ends, words, labels, numbers, strings, symbols
and characters that start none of these. A lexeme holds exactly the characters it was made of, so
the sequence spells the source again (`flatMap_chars_lexemes`). Each lexeme is the longest of its
form that starts where it does.
-/
namespace LabelBasic

/-- Starts a word. A `$` or `%` does so too, and is a word alone. -/
def isWordStart (c : Char) : Bool := isLetter c || c == '_' || c == '$' || c == '%'

/-- Continues a word. -/
def isWordPart (c : Char) : Bool := isLetter c || c.isDigit || c == '_'

/-- Ends a word and belongs to it. -/
def isSuffix (c : Char) : Bool := c == '$' || c == '%'

/-- A character of a string, perhaps behind a backslash. -/
inductive Piece where
  | plain (c : Char)
  | escaped (c : Char)
  deriving DecidableEq, Repr

namespace Piece

/-- The character meant. -/
def char : Piece → Char
  | .plain c => c
  | .escaped c => c

/-- The characters written. -/
def chars : Piece → List Char
  | .plain c => [c]
  | .escaped c => ['\\', c]

end Piece

/-- How a string ends: with its quote, or with the source, perhaps just behind a backslash. -/
inductive StringEnd where
  | quote | source | backslash
  deriving DecidableEq, Repr

def StringEnd.chars : StringEnd → List Char
  | .quote => ['"']
  | .source => []
  | .backslash => ['\\']

inductive Lexeme where
  /-- A space or a tab. -/
  | blank (c : Char)
  | carriageReturn
  | lineFeed
  | word (text : List Char)
  /-- A word and the colon behind it. -/
  | label (name : List Char)
  | number (text : List Char)
  | string (pieces : List Piece) (ending : StringEnd)
  | symbol (s : Symbol)
  /-- A character that starts no lexeme. -/
  | stray (c : Char)
  deriving DecidableEq, Repr

namespace Lexeme

/-- The characters of the source the lexeme is made of. -/
def chars : Lexeme → List Char
  | blank c => [c]
  | carriageReturn => ['\r']
  | lineFeed => ['\n']
  | word text => text
  | label name => name ++ [':']
  | number text => text
  | string pieces ending => '"' :: pieces.flatMap Piece.chars ++ ending.chars
  | symbol s => s.spelling.toList
  | stray c => [c]

/-! ### One lexeme

Each function gets what follows the first character of the lexeme and gives the lexeme and the rest.
-/

/-- Behind the opening quote of a string. -/
def scanString : List Char → List Piece × StringEnd × List Char
  | [] => ([], .source, [])
  | '"' :: rest => ([], .quote, rest)
  | ['\\'] => ([], .backslash, [])
  | '\\' :: c :: rest =>
    let (pieces, ending, rest) := scanString rest
    (.escaped c :: pieces, ending, rest)
  | c :: rest =>
    let (pieces, ending, rest) := scanString rest
    (.plain c :: pieces, ending, rest)

/-- A word takes one suffix; a colon in its place makes a label. -/
def scanWord (first : Char) (rest : List Char) : Lexeme × List Char :=
  if isSuffix first then (.word [first], rest)
  else
    let text := first :: rest.takeWhile isWordPart
    match rest.dropWhile isWordPart with
    | [] => (.word text, [])
    | c :: after =>
      if isSuffix c then (.word (text ++ [c]), after)
      else if c = ':' then (.label text, after)
      else (.word text, c :: after)

/-- Digits with at most one point among or around them. -/
def scanNumber (first : Char) (rest : List Char) : Lexeme × List Char :=
  let digits := rest.takeWhile Char.isDigit
  match rest.dropWhile Char.isDigit with
  | '.' :: after =>
    if first = '.' then (.number (first :: digits), '.' :: after)
    else
      (.number (first :: digits ++ '.' :: after.takeWhile Char.isDigit),
        after.dropWhile Char.isDigit)
  | after => (.number (first :: digits), after)

/-- Two characters that are a symbol together are never two symbols. -/
def scanSymbol? (first : Char) (rest : List Char) : Option (Lexeme × List Char) :=
  let single := (Symbol.ofSpelling? [first]).map fun s => (symbol s, rest)
  match rest with
  | [] => single
  | second :: after =>
    ((Symbol.ofSpelling? [first, second]).map fun s => (symbol s, after)).or single

/-- The lexeme that starts with `first`, and what follows it. -/
def scan (first : Char) (rest : List Char) : Lexeme × List Char :=
  if first = ' ' ∨ first = '\t' then (.blank first, rest)
  else if first = '\r' then (.carriageReturn, rest)
  else if first = '\n' then (.lineFeed, rest)
  else if first = '"' then
    let (pieces, ending, rest) := scanString rest
    (.string pieces ending, rest)
  -- Letters come before digits: no character is both.
  else if isWordStart first then scanWord first rest
  else if first.isDigit ∨ first = '.' then scanNumber first rest
  else (scanSymbol? first rest).getD (.stray first, rest)

/-! ### Nothing is lost -/

theorem chars_scanString (cs : List Char) :
    (scanString cs).1.flatMap Piece.chars ++ (scanString cs).2.1.chars ++ (scanString cs).2.2 =
      cs := by
  fun_induction scanString cs with
  | case1 => rfl
  | case2 rest => rfl
  | case3 => rfl
  | case4 c rest pieces ending after eq ih =>
    rw [eq] at ih
    simpa [Piece.chars] using ih
  | case5 c rest _ _ _ pieces ending after eq ih =>
    rw [eq] at ih
    simpa [Piece.chars] using ih

theorem chars_scanWord (first : Char) (rest : List Char) :
    (scanWord first rest).1.chars ++ (scanWord first rest).2 = first :: rest := by
  have split := List.takeWhile_append_dropWhile (p := isWordPart) (l := rest)
  unfold scanWord
  split
  · rfl
  · cases after : rest.dropWhile isWordPart with
    | nil =>
      rw [after] at split
      simpa [chars] using split
    | cons c cs =>
      rw [after] at split
      simp only
      split
      · simpa [chars] using split
      · split
        next colon =>
          subst colon
          simpa [chars] using split
        next => simpa [chars] using split

theorem chars_scanNumber (first : Char) (rest : List Char) :
    (scanNumber first rest).1.chars ++ (scanNumber first rest).2 = first :: rest := by
  have split := List.takeWhile_append_dropWhile (p := Char.isDigit) (l := rest)
  unfold scanNumber
  simp only
  split
  next after point =>
    rw [point] at split
    split
    · simpa [chars] using split
    · simp only [chars, List.cons_append, List.append_assoc, List.takeWhile_append_dropWhile]
      simpa using split
  next => simp [chars]

theorem spelling_of_ofSpelling? {cs : List Char} {s : Symbol}
    (found : Symbol.ofSpelling? cs = some s) : s.spelling.toList = cs := by
  simpa using List.find?_some found

theorem chars_scanSymbol? {first : Char} {rest : List Char} {r : Lexeme × List Char}
    (found : scanSymbol? first rest = some r) : r.1.chars ++ r.2 = first :: rest := by
  have single : ∀ r, (Symbol.ofSpelling? [first]).map (fun s => (symbol s, rest)) = some r →
      r.1.chars ++ r.2 = first :: rest := by
    intro r hr
    obtain ⟨s, hs, rfl⟩ := Option.map_eq_some_iff.mp hr
    simp [chars, spelling_of_ofSpelling? hs]
  cases rest with
  | nil => exact single r found
  | cons second after =>
    simp only [scanSymbol?, Option.or_eq_some_iff] at found
    rcases found with pair | ⟨_, one⟩
    · obtain ⟨s, hs, rfl⟩ := Option.map_eq_some_iff.mp pair
      simp [chars, spelling_of_ofSpelling? hs]
    · exact single r one

theorem chars_scan (first : Char) (rest : List Char) :
    (scan first rest).1.chars ++ (scan first rest).2 = first :: rest := by
  unfold scan
  split
  · rfl
  split
  next eq => simp [chars, eq]
  split
  next eq => simp [chars, eq]
  split
  next eq =>
    subst eq
    simpa [chars] using chars_scanString rest
  split
  · exact chars_scanWord first rest
  split
  · exact chars_scanNumber first rest
  · cases found : scanSymbol? first rest with
    | none => rfl
    | some r => exact chars_scanSymbol? found

theorem chars_ne_nil_of_scan (first : Char) (rest : List Char) : (scan first rest).1.chars ≠ [] := by
  unfold scan
  split
  · simp [chars]
  split
  · simp [chars]
  split
  · simp [chars]
  split
  · simp [chars]
  split
  · unfold scanWord
    split
    · simp [chars]
    · split
      · simp [chars]
      · split
        · simp [chars]
        · split <;> simp [chars]
  split
  · unfold scanNumber
    simp only
    split
    · split <;> simp [chars]
    · simp [chars]
  · cases found : scanSymbol? first rest with
    | none => simp [chars]
    | some r =>
      have spelled : ∀ s : Symbol, s.spelling.toList ≠ [] := by
        intro s
        cases s with
        | relation r => cases r <;> decide
        | operator op => cases op <;> decide
        | leftParen => decide
        | rightParen => decide
        | comma => decide
      have shape : ∃ s, r.1 = symbol s := by
        cases rest with
        | nil =>
          obtain ⟨s, _, rfl⟩ := Option.map_eq_some_iff.mp found
          exact ⟨s, rfl⟩
        | cons second after =>
          simp only [scanSymbol?, Option.or_eq_some_iff] at found
          rcases found with pair | ⟨_, one⟩
          · obtain ⟨s, _, rfl⟩ := Option.map_eq_some_iff.mp pair
            exact ⟨s, rfl⟩
          · obtain ⟨s, _, rfl⟩ := Option.map_eq_some_iff.mp one
            exact ⟨s, rfl⟩
      obtain ⟨s, eq⟩ := shape
      simpa [eq, chars] using spelled s

theorem length_scan_le (first : Char) (rest : List Char) :
    (scan first rest).2.length ≤ rest.length := by
  have all := congrArg List.length (chars_scan first rest)
  have some := List.length_pos_iff.mpr (chars_ne_nil_of_scan first rest)
  simp only [List.length_append, List.length_cons] at all
  omega

end Lexeme

/-- The lexemes of a text. -/
def lexemes : List Char → List Lexeme
  | [] => []
  | first :: rest => (Lexeme.scan first rest).1 :: lexemes (Lexeme.scan first rest).2
termination_by cs => cs.length
decreasing_by
  have shorter := Lexeme.length_scan_le first rest
  simp only [List.length_cons]
  omega

/-- The lexemes of a text spell it. -/
theorem flatMap_chars_lexemes (cs : List Char) : (lexemes cs).flatMap Lexeme.chars = cs := by
  fun_induction lexemes cs with
  | case1 => rfl
  | case2 first rest ih =>
    rw [List.flatMap_cons, ih, Lexeme.chars_scan]

end LabelBasic
