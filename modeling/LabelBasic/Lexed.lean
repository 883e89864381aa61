import LabelBasic.Event
import LabelBasic.Lexeme

/-!
# From lexemes to tokens

Each lexeme stands at the place that the lexemes before it lead to. Words, numbers, strings, labels,
symbols and line ends become tokens; blanks and carriage returns vanish; a character that starts no
lexeme and a string without its end are warned about.
-/
namespace LabelBasic

namespace Lexeme

/-- The place behind a lexeme. A carriage return takes no column. -/
def next (p : Position) : Lexeme → Position
  | carriageReturn => p
  | l => p.advance l.chars

/-- The token of a word: a keyword or the word itself. -/
def wordToken (text : String) (p : Position) : Token :=
  match Keyword.ofWord? text with
  | some k => ⟨.keyword k, none, p⟩
  | none => ⟨.word, some text, p⟩

/-- The token of a lexeme at a place. A string means its characters without the backslashes. -/
def token? (p : Position) : Lexeme → Option Token
  | blank _ | carriageReturn | stray _ => none
  | lineFeed => some ⟨.endOfLine, none, p⟩
  | word text => some (wordToken (String.ofList text) p)
  | label name => some ⟨.label, some (String.ofList name), p⟩
  | number text => some ⟨.number, some (String.ofList text), p⟩
  | string pieces _ => some ⟨.string, some (String.ofList (pieces.map Piece.char)), p⟩
  | symbol s => some ⟨.symbol s, none, p⟩

def warning? (p : Position) : Lexeme → Option Event
  | stray c => some (.strayCharacter c p)
  | string _ .source | string _ .backslash => some (.unterminatedString p)
  | _ => none

end Lexeme

/-- A lexeme and its place. -/
structure Placed where
  position : Position
  lexeme : Lexeme
  deriving DecidableEq, Repr

namespace Placed

def token? (l : Placed) : Option Token := l.lexeme.token? l.position

def warning? (l : Placed) : Option Event := l.lexeme.warning? l.position

end Placed

/-- The place behind a run of lexemes. -/
def placeAfter (p : Position) (ls : List Lexeme) : Position := ls.foldl Lexeme.next p

/-- Puts each lexeme where those before it end. -/
def placed (p : Position) : List Lexeme → List Placed
  | [] => []
  | l :: ls => ⟨p, l⟩ :: placed (l.next p) ls

theorem placed_append (p : Position) (ls ms : List Lexeme) :
    placed p (ls ++ ms) = placed p ls ++ placed (placeAfter p ls) ms := by
  induction ls generalizing p with
  | nil => rfl
  | cons l ls ih => simpa [placed, placeAfter] using ih (l.next p)

/-- The tokens of a source text and what there was to say about it. -/
structure Lexed where
  tokens : List Token
  log : List Event
  deriving Repr

/-- Lexes a source text. -/
def lex (source : String) : Lexed :=
  let ls := lexemes source.toList
  let places := placed .start ls
  let tokens := places.filterMap Placed.token?
  let warnings := places.filterMap Placed.warning?
  ⟨tokens, warnings ++ [.lexed (placeAfter .start ls).line tokens.length warnings.length]⟩

end LabelBasic
