import LabelBasic.Machine.Evaluate

/-!
# The variables of an expression

An expression sees no more of the store than the values of the variables that occur in it. So it comes
to the same in two stores that agree on these.
-/
namespace LabelBasic

namespace Expr

mutual

/-- The variables that occur in an expression, from left to right. -/
def idents : Expr → List Ident
  | .literal _ => []
  | .variable v => [v]
  | .call _ arguments => allIdents arguments
  | .arithmetic _ left right | .comparison _ left right => left.idents ++ right.idents

def allIdents : List Expr → List Ident
  | [] => []
  | e :: es => e.idents ++ allIdents es

end

theorem mem_allIdents {v : Ident} {e : Expr} {es : List Expr} (member : e ∈ es)
    (occurs : v ∈ e.idents) : v ∈ allIdents es := by
  induction es with
  | nil => cases member
  | cons first rest ih =>
    rw [allIdents]
    rcases List.mem_cons.mp member with rfl | later
    · exact List.mem_append_left _ occurs
    · exact List.mem_append_right _ (ih later)

end Expr

variable {s t : Store}

theorem evaluateArguments_congr {es : List Expr} {parameters : List Parameter}
    (each : ∀ e ∈ es, ∀ kind, evaluate t kind e = evaluate s kind e) :
    evaluateArguments t parameters es = evaluateArguments s parameters es := by
  induction es generalizing parameters with
  | nil => rw [evaluateArguments, evaluateArguments]
  | cons e es ih =>
    obtain ⟨first, rest⟩ := List.forall_mem_cons.mp each
    cases parameters with
    | nil => rw [evaluateArguments, evaluateArguments]
    | cons parameter more =>
      rw [evaluateArguments, evaluateArguments, first, ih rest]

/-- Stores that agree on the variables of an expression give it the same value. -/
theorem evaluate_congr {e : Expr} (agree : ∀ v ∈ e.idents, t.get? v = s.get? v) (kind : Kind) :
    evaluate t kind e = evaluate s kind e := by
  induction e using Expr.ind generalizing kind with
  | literal value => rw [evaluate, evaluate]
  | named v =>
    have same : t.fetch v = s.fetch v := by
      simp only [Store.fetch, agree v List.mem_cons_self]
    rw [evaluate, evaluate, same]
  | call f es ih =>
    have each : ∀ e ∈ es, ∀ kind, evaluate t kind e = evaluate s kind e := fun e member =>
      ih e member fun v occurs => agree v (Expr.mem_allIdents member occurs)
    rw [evaluate, evaluate, evaluateArguments_congr each]
  | arithmetic op left right ihl ihr =>
    rw [Expr.idents] at agree
    obtain ⟨first, second⟩ := List.forall_mem_append.mp agree
    rw [evaluate, evaluate, ihl first, ihr second]
  | comparison => rw [evaluate, evaluate]

theorem evaluateInteger_congr {e : Expr} (agree : ∀ v ∈ e.idents, t.get? v = s.get? v) :
    evaluateInteger t e = evaluateInteger s e := by
  rw [evaluateInteger, evaluateInteger, evaluate_congr agree]

end LabelBasic
