/-!
# Places in a source text

Lines count from one and columns from zero. Columns count characters, not bytes.
-/
namespace LabelBasic

/-- The place of a character. -/
structure Position where
  line : Nat
  column : Nat
  deriving DecidableEq, Repr

namespace Position

/-- The place of the first character. -/
def start : Position := ⟨1, 0⟩

/-- The place after a character: a line feed starts a line. -/
def next (p : Position) (c : Char) : Position :=
  if c = '\n' then ⟨p.line + 1, 0⟩ else ⟨p.line, p.column + 1⟩

/-- The place after a run of characters. -/
def advance (p : Position) (cs : List Char) : Position := cs.foldl next p

@[simp] theorem advance_nil (p : Position) : p.advance [] = p := rfl

@[simp] theorem advance_cons (p : Position) (c : Char) (cs : List Char) :
    p.advance (c :: cs) = (p.next c).advance cs := rfl

theorem advance_append (p : Position) (cs ds : List Char) :
    p.advance (cs ++ ds) = (p.advance cs).advance ds := by
  simp [advance, List.foldl_append]

end Position

/-- The columns from `start` up to but not including `stop`. -/
structure Columns where
  start : Nat
  stop : Nat
  deriving DecidableEq, Repr

/-- No columns are known. -/
def Columns.none : Columns := ⟨0, 0⟩

end LabelBasic
