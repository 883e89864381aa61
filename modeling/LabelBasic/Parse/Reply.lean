import LabelBasic.Cursor
import LabelBasic.Event
import LabelBasic.Report

/-!
# What a parsing rule answers

A rule looks at a list of tokens and finds something at its front, finds that nothing of the kind is
there, or fails for good. It says how many tokens it has used; what follows is the list without
them, so no rule can move backwards or past the end.
-/
namespace LabelBasic

/-- Why a program cannot be parsed. -/
inductive SyntaxFault where
  | expectedEquals | expectedRightParen | expectedExpression | invalidNumber
  deriving DecidableEq, Repr

namespace SyntaxFault

def detail : SyntaxFault → String
  | expectedEquals => "EXPECTED ="
  | expectedRightParen => "EXPECTED RIGHT PARENTHESIS"
  | expectedExpression => "EXPECTED EXPRESSION"
  | invalidNumber => "INVALID NUMBER"

/-- The report of a fault at the place of a cursor. -/
def report (f : SyntaxFault) (place : Cursor Token) : Report :=
  (((Report.ofCode .syntaxError).atLine place.line).atColumns place.columns).withDetail f.detail

end SyntaxFault

inductive Outcome (α : Type) where
  | found (a : α)
  | absent
  | failed (f : SyntaxFault)
  deriving Repr

/-- A fault belongs to the first token that is not used. -/
structure Reply (α : Type) where
  outcome : Outcome α
  used : Nat
  log : List Event
  deriving Repr

namespace Reply

variable {α β : Type}

def found (a : α) (used : Nat) : Reply α := ⟨.found a, used, []⟩

def absent : Reply α := ⟨.absent, 0, []⟩

def failed (f : SyntaxFault) : Reply α := ⟨.failed f, 0, []⟩

/-- The same reply of a rule that used `n` more tokens in front. -/
def after (n : Nat) (r : Reply α) : Reply α := { r with used := n + r.used }

/-- Goes on after something was found. The continuation is told how many tokens are used. -/
def andThen (r : Reply α) (k : α → Nat → Reply β) : Reply β :=
  match r.outcome with
  | .found a =>
    let more := k a r.used
    ⟨more.outcome, r.used + more.used, r.log ++ more.log⟩
  | .absent => ⟨.absent, r.used, r.log⟩
  | .failed f => ⟨.failed f, r.used, r.log⟩

def map (f : α → β) (r : Reply α) : Reply β := r.andThen fun a _ => found (f a) 0

end Reply

/-- A way to read something off the front of a list of tokens. -/
def Rule (α : Type) := List Token → Reply α

namespace Rule

variable {α β : Type}

/-- Goes on with the tokens that the first rule left. -/
def bind (rule : Rule α) (next : α → Rule β) : Rule β := fun s =>
  (rule s).andThen fun a n => next a (s.drop n)

instance : Monad Rule where
  pure a := fun _ => Reply.found a 0
  bind := bind

/-- Finds nothing. -/
def absent : Rule α := fun _ => Reply.absent

/-- The first token, if it is of this kind. -/
def token (kind : Token.Kind) : Rule Token
  | t :: _ => if t.kind = kind then .found t 1 else .absent
  | [] => .absent

/-- The first token, which has to be of this kind. -/
def expect (kind : Token.Kind) (fault : SyntaxFault) : Rule Token
  | t :: _ => if t.kind = kind then .found t 1 else .failed fault
  | [] => .failed fault

/-- Whether the first token is of this kind. It is used if so. -/
def accept (kind : Token.Kind) : Rule Bool
  | t :: _ => if t.kind = kind then .found true 1 else .found false 0
  | [] => .found false 0

/-- Items of one token each, separated by commas. -/
def tokenList (item : Token → Outcome α) : Rule (List α)
  | [] => .absent
  | t :: rest =>
    match item t with
    | .absent => .absent
    | .failed f => .failed f
    | .found a =>
      match rest with
      | [] => .found [a] 1
      | c :: more =>
        if c.kind = .symbol .comma then ((tokenList item more).map (a :: ·)).after 2
        else .found [a] 1

end Rule

end LabelBasic
