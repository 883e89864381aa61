import LabelBasic.Position

/-!
# Error reports

What the user is told when a program fails: the kind of error, the line and columns where they are
known, and a detail.
-/
namespace LabelBasic

/-- The kinds of errors. -/
inductive ErrorCode where
  | nextWithoutFor | syntaxError | returnWithoutGosub | outOfData | illegalFunctionCall | overflow
  | outOfMemory | undefinedLabel | divisionByZero | typeMismatch | undefinedVariable | badInput
  | forWithoutNext | interrupted | internalError | deviceError | advancedFeature
  deriving DecidableEq, Repr

namespace ErrorCode

/-- The traditional number of the error. -/
def number : ErrorCode → Nat
  | .nextWithoutFor => 1
  | .syntaxError => 2
  | .returnWithoutGosub => 3
  | .outOfData => 4
  | .illegalFunctionCall => 5
  | .overflow => 6
  | .outOfMemory => 7
  | .undefinedLabel => 8
  | .divisionByZero => 11
  | .typeMismatch => 13
  | .undefinedVariable => 24
  | .badInput => 25
  | .forWithoutNext => 26
  | .interrupted => 28
  | .internalError => 51
  | .deviceError => 57
  | .advancedFeature => 73

def name : ErrorCode → String
  | .nextWithoutFor => "NEXT WITHOUT FOR"
  | .syntaxError => "SYNTAX ERROR"
  | .returnWithoutGosub => "RETURN WITHOUT GOSUB"
  | .outOfData => "OUT OF DATA"
  | .illegalFunctionCall => "ILLEGAL FUNCTION CALL"
  | .overflow => "OVERFLOW"
  | .outOfMemory => "OUT OF MEMORY"
  | .undefinedLabel => "UNDEFINED LABEL"
  | .divisionByZero => "DIVISION BY ZERO"
  | .typeMismatch => "TYPE MISMATCH"
  | .undefinedVariable => "UNDEFINED VARIABLE"
  | .badInput => "BAD INPUT"
  | .forWithoutNext => "FOR WITHOUT NEXT"
  | .interrupted => "BREAK"
  | .internalError => "INTERNAL ERROR"
  | .deviceError => "DEVICE I/O ERROR"
  | .advancedFeature => "ADVANCED FEATURE"

end ErrorCode

/-- An error as it is shown. An empty detail says nothing, and the columns may be unknown. -/
structure Report where
  code : ErrorCode
  line? : Option Nat
  columns : Columns
  detail : String
  deriving DecidableEq, Repr

namespace Report

/-- An error of which no more is known. -/
def ofCode (code : ErrorCode) : Report := ⟨code, none, .none, ""⟩

/-- Names the line of the error unless one was named closer to it. -/
def atLine (r : Report) (line : Nat) : Report := { r with line? := r.line?.or (some line) }

def atColumns (r : Report) (columns : Columns) : Report := { r with columns }

def withDetail (r : Report) (detail : String) : Report := { r with detail }

/-- The line and columns as far as they are known. -/
def place (r : Report) : String :=
  let line := match r.line? with
    | some n => " " ++ toString n
    | none => ""
  let columns :=
    if r.columns = .none then ""
    else " (" ++ toString r.columns.start ++ ".." ++ toString r.columns.stop ++ ")"
  line ++ columns

/-- The text shown to the user. -/
def message (r : Report) : String :=
  let place := if r.place = "" then "" else " IN" ++ r.place
  let detail := if r.detail = "" then "" else "; " ++ r.detail
  r.code.name ++ place ++ detail

end Report

end LabelBasic
