import LabelBasic.Kind

/-!
# Built-in functions

The functions a program can call, with the kinds of their parameters and results. Names are found
without regard to ASCII case.
-/
namespace LabelBasic

/-- What a parameter takes. -/
inductive Parameter where
  | of (kind : Kind)
  | numeric
  deriving DecidableEq, Repr

def Parameter.accepts : Parameter → Kind → Bool
  | .of kind, k => k == kind
  | .numeric, k => k == .integer || k == .float

inductive Builtin where
  | random | val | valFloat | left | right | mid | num
  deriving DecidableEq, Repr

namespace Builtin

def all : List Builtin := [.random, .val, .valFloat, .left, .right, .mid, .num]

def name : Builtin → String
  | .random => "random"
  | .val => "val"
  | .valFloat => "val%"
  | .left => "left$"
  | .right => "right$"
  | .mid => "mid$"
  | .num => "num$"

/-- The function of a name. -/
def ofName? (name : String) : Option Builtin :=
  all.find? fun f => f.name == name.toLower

def parameters : Builtin → List Parameter
  | .random => []
  | .val | .valFloat => [.of .string]
  | .left | .right => [.of .string, .of .integer]
  | .mid => [.of .string, .of .integer, .of .integer]
  | .num => [.numeric]

def returns : Builtin → Kind
  | .random | .val => .integer
  | .valFloat => .float
  | .left | .right | .mid | .num => .string

/-- Arguments of these kinds fit the parameters in number and kind. -/
def accepts (f : Builtin) (kinds : List Kind) : Bool :=
  kinds.length == f.parameters.length &&
    (f.parameters.zip kinds).all fun (parameter, kind) => parameter.accepts kind

end Builtin

end LabelBasic
