import LabelBasic.Expr
import LabelBasic.Position

/-!
# Tokens

The words, numbers, strings, labels, line ends and symbols of a program, each with its place.
-/
namespace LabelBasic

/-- The reserved words. -/
inductive Keyword where
  | PRINT | READ | INPUT | DATA | GOSUB | FOR | TO | STEP | NEXT | RETURN | IF | THEN | WHILE | END
  deriving DecidableEq, Repr

namespace Keyword

def all : List Keyword :=
  [.PRINT, .READ, .INPUT, .DATA, .GOSUB, .FOR, .TO, .STEP, .NEXT, .RETURN, .IF, .THEN, .WHILE, .END]

def spelling : Keyword → String
  | .PRINT => "print"
  | .READ => "read"
  | .INPUT => "input"
  | .DATA => "data"
  | .GOSUB => "gosub"
  | .FOR => "for"
  | .TO => "to"
  | .STEP => "step"
  | .NEXT => "next"
  | .RETURN => "return"
  | .IF => "if"
  | .THEN => "then"
  | .WHILE => "while"
  | .END => "end"

/-- The keyword a word spells, in any ASCII case. -/
def ofWord? (word : String) : Option Keyword :=
  all.find? fun k => k.spelling == word.toLower

end Keyword

/-- The marks between words. -/
inductive Symbol where
  | relation (r : Relation)
  | operator (op : Operator)
  | leftParen | rightParen | comma
  deriving DecidableEq, Repr

namespace Symbol

def all : List Symbol :=
  [.relation .lessEqual, .relation .greaterEqual, .relation .notEqual, .relation .less,
    .relation .greater, .relation .equal, .leftParen, .rightParen, .operator .add, .operator .sub,
    .operator .mul, .operator .div, .comma]

def spelling : Symbol → String
  | .relation r => r.symbol
  | .operator op => op.symbol
  | .leftParen => "("
  | .rightParen => ")"
  | .comma => ","

def name : Symbol → String
  | .relation .less => "Less"
  | .relation .lessEqual => "LessEqual"
  | .relation .greater => "Greater"
  | .relation .greaterEqual => "GreaterEqual"
  | .relation .notEqual => "NotEqual"
  | .relation .equal => "Equal"
  | .operator .add => "Plus"
  | .operator .sub => "Minus"
  | .operator .mul => "Multiply"
  | .operator .div => "Divide"
  | .leftParen => "LParen"
  | .rightParen => "RParen"
  | .comma => "Comma"

/-- The symbol with this spelling. -/
def ofSpelling? (spelling : List Char) : Option Symbol :=
  all.find? fun s => s.spelling.toList == spelling

end Symbol

namespace Token

inductive Kind where
  | word | number | string | label | endOfLine
  | keyword (k : Keyword)
  | symbol (s : Symbol)
  deriving DecidableEq, Repr

namespace Kind

def all : List Kind :=
  [.word, .number, .string, .label, .endOfLine] ++ Keyword.all.map .keyword ++ Symbol.all.map .symbol

/-- As written in messages. -/
def name : Kind → String
  | .word => "Word"
  | .number => "Number"
  | .string => "StringLiteral"
  | .label => "Label"
  | .endOfLine => "EndOfLine"
  | .keyword k => k.spelling.capitalize
  | .symbol s => s.name

/-- The text of a token of this kind that carries none of its own. -/
def spelling : Kind → String
  | .word | .number | .string | .label => ""
  | .endOfLine => "\n"
  | .keyword k => k.spelling
  | .symbol s => s.spelling

/-- Characters of the source that the text of a token leaves out: the quotes of a string and the
colon of a label. -/
def dropped : Kind → Nat
  | .string => 2
  | .label => 1
  | _ => 0

end Kind

end Token

/-- A token and its place. Words, numbers, strings and labels carry their text; the others are
spelled by their kind. -/
structure Token where
  kind : Token.Kind
  text? : Option String
  position : Position
  deriving DecidableEq, Repr

namespace Token

def text (t : Token) : String := t.text?.getD t.kind.spelling

def line (t : Token) : Nat := t.position.line

/-- The columns a token takes on its line. -/
def columns (t : Token) : Columns :=
  ⟨t.position.column, t.position.column + t.text.length + t.kind.dropped⟩

/-- As written in messages: the kind, and its own text in parentheses. -/
def describe (t : Token) : String :=
  match t.text? with
  | none => t.kind.name
  | some text => t.kind.name ++ "(" ++ text ++ ")"

end Token

end LabelBasic
