import LabelBasic.Kind
import LabelBasic.Number.Layout
import LabelBasic.Number.Numeral
import LabelBasic.Text.Quoted

/-!
# Values

What expressions yield, variables hold and DATA lists.
-/
namespace LabelBasic

inductive Value where
  | integer (n : Int32)
  | float (x : Single)
  | string (s : String)
  deriving DecidableEq, Repr

namespace Value

def kind : Value → Kind
  | .integer _ => .integer
  | .float _ => .float
  | .string _ => .string

/-- As PRINT writes it. -/
def text : Value → String
  | .integer n => integerText n
  | .float x => Layout.value.single x
  | .string s => s

/-- As a program writes it. -/
def literal : Value → String
  | .integer n => integerText n
  | .float x => Layout.listing.single x
  | .string s => quoteText s

/-- The number a program or a line of DATA writes: an integer if the text is one, or else a float. -/
def ofNumeral? (text : String) : Option Value :=
  ((Numeral.integer? text.toList).map .integer).or ((Numeral.single? text.toList).map .float)

/-- Whether the value equals itself, which a NaN does not. -/
def isReflexive : Value → Bool
  | .float x => x.compare? x == some .eq
  | _ => true

end Value

end LabelBasic
