import LabelBasic.Listing
import LabelBasic.Report

/-!
# What can go wrong while a program runs

Each fault is a cause; its code and wording are fixed here once.
-/
namespace LabelBasic

inductive Fault where
  /-- NEXT with no loop open, or none on the variable it names. -/
  | nextWithoutFor (v : Option Ident)
  | returnWithoutGosub
  /-- READ of another number of variables than there is DATA left. -/
  | outOfData (wanted left : Nat)
  /-- A character position outside the string. -/
  | outOfRange (position : Int32)
  | endBeforeStart
  /-- `val` of a text that is no integer. -/
  | notAnInteger (text : String)
  /-- `val%` of a text that is no float. -/
  | notAFloat (text : String)
  | overflow
  | divisionByZero
  | tooManyVariables
  | tooManyLoops
  | tooManyCalls
  /-- A chain of IFs that run IFs is too long. -/
  | branchTooDeep
  | undefinedLabel (name : String)
  | undefinedVariable (v : Ident)
  /-- Operands or arguments of kinds that do not go together. -/
  | unfitOperands
  | incomparable
  | expectedKind (kind : Kind)
  /-- A variable used as, or given, a value of another kind. -/
  | variableKind (v : Ident) (other : Kind)
  /-- An expression that has no value of the kind. -/
  | expressionKind (e : Expr) (wanted : Kind)
  /-- A value from DATA that does not suit the variable. -/
  | cannotRead (v : Ident) (value : Value)
  | loopVariableKind
  | expectedComparison
  | comparedStrings
  | endOfInput
  /-- A word of the input that is no number of the kind. -/
  | badInput (wanted : Kind) (word : String)
  /-- A line of the input that is not UTF-8. -/
  | undecodableInput
  /-- A program file that cannot be read. -/
  | unreadableFile (path reason : String)
  | forWithoutNext
  | interrupted
  | missingArgument
  | inputOfExpression
  | labelPastEnd
  | whileNotImplemented
  /-- IF cannot run a FOR or NEXT in place. -/
  | branchToLoop (label : String)
  deriving Repr

namespace Fault

def code : Fault → ErrorCode
  | nextWithoutFor _ => .nextWithoutFor
  | returnWithoutGosub => .returnWithoutGosub
  | outOfData .. => .outOfData
  | outOfRange _ | endBeforeStart | notAnInteger _ | notAFloat _ => .illegalFunctionCall
  | overflow => .overflow
  | divisionByZero => .divisionByZero
  | tooManyVariables | tooManyLoops | tooManyCalls | branchTooDeep => .outOfMemory
  | undefinedLabel _ => .undefinedLabel
  | undefinedVariable _ => .undefinedVariable
  | unfitOperands | incomparable | expectedKind _ | variableKind .. | expressionKind ..
  | cannotRead .. | loopVariableKind | expectedComparison | comparedStrings => .typeMismatch
  | endOfInput | badInput .. => .badInput
  | undecodableInput | unreadableFile .. => .deviceError
  | forWithoutNext => .forWithoutNext
  | interrupted => .interrupted
  | missingArgument | inputOfExpression | labelPastEnd => .internalError
  | whileNotImplemented | branchToLoop _ => .advancedFeature

/-- What is not UTF-8, in the words of every reader of texts. -/
def notUtf8 : String := "stream did not contain valid UTF-8"

def detail : Fault → String
  | nextWithoutFor v => (v.map Ident.name).getD ""
  | outOfData wanted left => "READ OF " ++ toString wanted ++ " WITH " ++ toString left ++ " DATA LEFT"
  | outOfRange position => integerText position ++ " OUT OF RANGE"
  | endBeforeStart => "MID$ END BEFORE START"
  | notAnInteger text => "VAL OF " ++ quoteText text
  | notAFloat text => "VAL% OF " ++ quoteText text
  | tooManyLoops => "TOO MANY FOR"
  | tooManyCalls => "TOO MANY GOSUB"
  | branchTooDeep => "IF NESTED TOO DEEPLY"
  | undefinedLabel name => name
  | undefinedVariable v => v.name
  | incomparable => "COMPARISON NEEDS TWO INTEGERS OR TWO FLOATS"
  | expectedKind kind => "EXPECTED " ++ kind.name
  | variableKind v other => v.name ++ " IS " ++ v.kind.name ++ ", NOT " ++ other.name
  | expressionKind e wanted => e.text ++ " IS NOT " ++ wanted.name
  | cannotRead v value => v.name ++ " CANNOT READ " ++ value.text
  | loopVariableKind => "FOR NEEDS AN INTEGER VARIABLE"
  | expectedComparison => "EXPECTED COMPARISON"
  | comparedStrings => "CANNOT COMPARE STRINGS"
  | endOfInput => "END OF INPUT"
  | badInput wanted word => "EXPECTED " ++ wanted.name ++ ", GOT " ++ quoteText word
  | undecodableInput => notUtf8
  | unreadableFile path reason => path ++ ": " ++ reason
  | missingArgument => "MISSING ARGUMENT"
  | inputOfExpression => "INPUT OF AN EXPRESSION"
  | labelPastEnd => "LABEL PAST END"
  | whileNotImplemented => "WHILE IS NOT IMPLEMENTED"
  | branchToLoop label => "IF CANNOT RUN FOR OR NEXT AT " ++ label
  | returnWithoutGosub | overflow | divisionByZero | tooManyVariables | unfitOperands
  | forWithoutNext | interrupted => ""

/-- The report of a fault, before its place is known. -/
def report (f : Fault) : Report := (Report.ofCode f.code).withDetail f.detail

end Fault

end LabelBasic
