import LabelBasic.Fault
import LabelBasic.Text.Blank

/-!
# The input of a program

INPUT reads words. The input is taken a line at a time, and a line is decoded when its first word is
wanted; one that is not UTF-8 is a fault and is passed over.
-/
namespace LabelBasic

/-- The words of the current line that are still to be read, and the lines behind it. -/
structure Reader where
  pending : List String
  lines : List (List UInt8)
  deriving Repr

/-- Cuts bytes behind each line feed. -/
def cutLines : List UInt8 → List (List UInt8)
  | [] => []
  | b :: rest =>
    if b = 10 then [b] :: cutLines rest
    else
      match cutLines rest with
      | [] => [[b]]
      | line :: more => (b :: line) :: more

/-- The words of a line, if it is UTF-8. -/
def lineWords? (line : List UInt8) : Option (List String) :=
  (String.fromUTF8? line.toByteArray).map fun text => (words text.toList).map String.ofList

namespace Reader

def ofBytes (bytes : List UInt8) : Reader := ⟨[], cutLines bytes⟩

instance : Inhabited Reader := ⟨⟨[], []⟩⟩

/-- The first word of some lines. -/
def nextOfLines : List (List UInt8) → EStateM.Result Fault Reader (Option String)
  | [] => .ok none ⟨[], []⟩
  | line :: lines =>
    match lineWords? line with
    | none => .error .undecodableInput ⟨[], lines⟩
    | some [] => nextOfLines lines
    | some (word :: pending) => .ok (some word) ⟨pending, lines⟩

/-- The next word, if there is one. -/
def next : EStateM Fault Reader (Option String) := fun r =>
  match r.pending with
  | word :: pending => .ok (some word) { r with pending }
  | [] => nextOfLines r.lines

/-- The next word, which has to be there. -/
def word : EStateM Fault Reader String := do
  match ← next with
  | some w => pure w
  | none => throw .endOfInput

/-- Reads a word as a value of a kind. -/
def ofWord? (kind : Kind) (w : String) : Option Value :=
  match kind with
  | .integer => (Numeral.integer? w.toList).map .integer
  | .float => (Numeral.single? w.toList).map .float
  | .string => some (.string w)

/-- The next word as a value of a kind. -/
def value (kind : Kind) : EStateM Fault Reader Value := do
  let w ← word
  match ofWord? kind w with
  | some x => pure x
  | none => throw (.badInput kind w)

end Reader

end LabelBasic
