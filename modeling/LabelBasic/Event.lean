import LabelBasic.Listing
import LabelBasic.Token

/-!
# The log

What the interpreter says about its work besides the output of the program. Warnings name what was
passed over, debug events sum a stage up, and a trace event precedes each instruction.
-/
namespace LabelBasic

/-- How urgent an event is, the most urgent first. -/
inductive LogLevel where
  | warn | debug | trace
  deriving DecidableEq, Repr

namespace LogLevel

def name : LogLevel → String
  | .warn => "WARN"
  | .debug => "DEBUG"
  | .trace => "TRACE"

def rank : LogLevel → Nat
  | .warn => 0
  | .debug => 1
  | .trace => 2

end LogLevel

inductive Event where
  | strayCharacter (c : Char) (place : Position)
  | unterminatedString (place : Position)
  | lexed (lines tokens warnings : Nat)
  /-- A call whose arguments do not fit. -/
  | refusedCall (f : Builtin) (arguments : Nat)
  /-- The program ends before this token for want of a statement. -/
  | unparsed (token : Token)
  | parsed (statements : Nat)
  | repeatedLabel (name : String) (line : Nat)
  | ignoredData (line : Nat)
  | linked (instructions labels data : Nat)
  | loaded (path : String) (statements : Nat)
  | executing (address : Nat) (instruction : Instruction)
  | halted (assigned : Nat)
  deriving Repr

namespace Event

def level : Event → LogLevel
  | strayCharacter .. | unterminatedString _ | unparsed _ | repeatedLabel .. | ignoredData _ => .warn
  | lexed .. | refusedCall .. | parsed _ | linked .. | loaded .. | halted _ => .debug
  | executing .. => .trace

/-- The place as warnings name it. -/
def placeText (p : Position) : String :=
  " at line " ++ toString p.line ++ ", column " ++ toString p.column

def text : Event → String
  | strayCharacter c place => "unrecognized character " ++ quoteChar c ++ placeText place
  | unterminatedString place => "unterminated string literal" ++ placeText place
  | lexed lines tokens warnings =>
    "lexed " ++ toString lines ++ " lines tokens=" ++ toString tokens ++
      " warnings=" ++ toString warnings
  | refusedCall f arguments => f.name ++ " does not accept (" ++ toString arguments ++ ")"
  | unparsed token => "ignoring unparsed input from " ++ token.describe ++ placeText token.position
  | parsed statements => "parsed program statements=" ++ toString statements
  | repeatedLabel name line =>
    "label " ++ name ++ " is defined more than once; using line " ++ toString line
  | ignoredData line =>
    "ignoring DATA in line " ++ toString line ++ "; only the first DATA is read"
  | linked instructions labels data =>
    "linked program instructions=" ++ toString instructions ++ " labels=" ++ toString labels ++
      " data=" ++ toString data
  | loaded path statements => "parsed path=" ++ path ++ " statements=" ++ toString statements
  | executing address instruction => instruction.text ++ " pc=" ++ toString address
  | halted assigned => "halted vars=" ++ toString assigned

/-- The event is shown in a log of this level. -/
def isShown (level : LogLevel) (e : Event) : Bool := e.level.rank ≤ level.rank

end Event

end LabelBasic
