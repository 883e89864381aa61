import LabelBasic.Proofs.Outcome
import Mathlib.Tactic.Choose

/-!
# The random numbers of an evaluation

An evaluation sees nothing of a generator but the numbers that it draws, one after the other. So from
two generators that give the same first numbers it comes to the same, unless it draws more than those
from both.
-/
namespace LabelBasic

/-! ### Sources -/

section

variable {σ β : Type}

/-- What a source gives when it is asked so often. -/
def answers (pull : σ → β × σ) : Nat → σ → List β
  | 0, _ => []
  | n + 1, s => (pull s).1 :: answers pull n (pull s).2

/-- The source behind so many answers. -/
def behind (pull : σ → β × σ) : Nat → σ → σ
  | 0, s => s
  | n + 1, s => behind pull n (pull s).2

variable {pull : σ → β × σ} {n k : Nat} {s s' : σ}

theorem behind_add (pull : σ → β × σ) (n k : Nat) (s : σ) :
    behind pull (n + k) s = behind pull k (behind pull n s) := by
  induction n generalizing s with
  | zero => rw [Nat.zero_add, behind]
  | succ n ih => rw [Nat.succ_add, behind, behind, ih]

/-- Sources that give the same answers give the same ones behind some of them. -/
theorem answers_behind (same : answers pull n s = answers pull n s') (le : k ≤ n) :
    answers pull (n - k) (behind pull k s) = answers pull (n - k) (behind pull k s') := by
  induction k generalizing n s s' with
  | zero => exact same
  | succ k ih =>
    obtain ⟨n, rfl⟩ := Nat.exists_eq_add_one.mpr (Nat.lt_of_lt_of_le k.succ_pos le)
    rw [Nat.add_sub_add_right]
    exact ih (List.cons.inj same).2 (Nat.le_of_succ_le_succ le)

end

theorem Generator.drawn_behind (n : Nat) (g : Generator) :
    (behind draw n g).drawn = g.drawn + n := by
  induction n generalizing g with
  | zero => rfl
  | succ n ih => rw [behind, ih, Nat.add_comm n 1, ← Nat.add_assoc]; rfl

/-! ### Drawing -/

/-- What a computation does: it ends, or it draws a number and does what follows from it. -/
inductive Drawing (α : Type) where
  | ends (outcome : Except Fault α)
  | draws (next : UInt32 → Drawing α)

namespace Drawing

open Generator (draw)

variable {α β : Type}

def run : Drawing α → Evaluation α
  | ends outcome => ofExcept outcome
  | draws next => fun g => (next g.draw.1).run g.draw.2

/-- How it ends with the numbers of this generator. -/
def outcome : Drawing α → Generator → Except Fault α
  | ends outcome, _ => outcome
  | draws next, g => (next g.draw.1).outcome g.draw.2

/-- How many numbers of this generator it draws. -/
def count : Drawing α → Generator → Nat
  | ends _, _ => 0
  | draws next, g => (next g.draw.1).count g.draw.2 + 1

def bind : Drawing α → (α → Drawing β) → Drawing β
  | ends (.ok a), f => f a
  | ends (.error e), _ => ends (.error e)
  | draws next, f => draws fun word => (next word).bind f

theorem run_eq (d : Drawing α) (g : Generator) :
    d.run g = ofExcept (d.outcome g) (behind draw (d.count g) g) := by
  induction d generalizing g with
  | ends outcome => rfl
  | draws next ih => exact ih g.draw.1 g.draw.2

theorem run_bind (d : Drawing α) (f : α → Drawing β) :
    (d.bind f).run = d.run >>= fun a => (f a).run := by
  funext g
  induction d generalizing g with
  | ends outcome => cases outcome <;> rfl
  | draws next ih => exact ih g.draw.1 g.draw.2

section

variable {n : Nat} {g g' : Generator} (same : answers draw n g = answers draw n g')

include same

theorem eq_of_count_le {d : Drawing α} (within : d.count g ≤ n) :
    d.count g' = d.count g ∧ d.outcome g' = d.outcome g := by
  induction d generalizing n g g' with
  | ends outcome => exact ⟨rfl, rfl⟩
  | draws next ih =>
    cases n with
    | zero => cases within
    | succ n =>
      obtain ⟨word, rest⟩ := List.cons.inj same
      obtain ⟨counts, outcomes⟩ := ih _ rest (Nat.le_of_succ_le_succ within)
      simp only [count, outcome, ← word, counts, outcomes, and_self]

theorem lt_count {d : Drawing α} (beyond : n < d.count g) : n < d.count g' := by
  induction d generalizing n g g' with
  | ends outcome => cases beyond
  | draws next ih =>
    cases n with
    | zero => exact Nat.succ_pos _
    | succ n =>
      obtain ⟨word, rest⟩ := List.cons.inj same
      have later := ih _ rest (Nat.lt_of_succ_lt_succ beyond)
      rw [word] at later
      exact Nat.succ_lt_succ later

end

end Drawing

/-- The computation has nothing of the generator but the numbers that it draws. -/
def Draws {α : Type} (x : Evaluation α) : Prop := ∃ d : Drawing α, d.run = x

namespace Draws

variable {α β : Type} {x y : Evaluation α}

theorem ofExcept (r : Except Fault α) : Draws (LabelBasic.ofExcept r) := ⟨.ends r, rfl⟩

protected theorem bind {f : α → Evaluation β} (first : Draws x) (next : ∀ a, Draws (f a)) :
    Draws (x >>= f) := by
  obtain ⟨d, rfl⟩ := first
  choose e each using next
  exact ⟨d.bind e, by rw [Drawing.run_bind, funext each]⟩

end Draws

/-! ### Evaluation -/

namespace Expr

mutual

/-- The functions that an expression calls. -/
def builtins : Expr → List Builtin
  | .literal _ | .variable _ => []
  | .call f arguments => f :: allBuiltins arguments
  | .arithmetic _ left right | .comparison _ left right => left.builtins ++ right.builtins

def allBuiltins : List Expr → List Builtin
  | [] => []
  | e :: es => e.builtins ++ allBuiltins es

end

theorem mem_allBuiltins {f : Builtin} {e : Expr} {es : List Expr} (member : e ∈ es)
    (called : f ∈ e.builtins) : f ∈ allBuiltins es := by
  induction es with
  | nil => cases member
  | cons first rest ih =>
    rw [allBuiltins]
    rcases List.mem_cons.mp member with rfl | later
    · exact List.mem_append_left _ called
    · exact List.mem_append_right _ (ih later)

end Expr

/-- The property holds of what reads no generator, and of what is made of parts that have it. -/
structure Composes (P : {α : Type} → Evaluation α → Prop) : Prop where
  ofExcept {α : Type} (r : Except Fault α) : P (ofExcept r)
  bind {α β : Type} {x : Evaluation α} {f : α → Evaluation β} (first : P x)
    (next : ∀ a, P (f a)) : P (x >>= f)

namespace Composes

variable {P : {α : Type} → Evaluation α → Prop} (composes : Composes P) (store : Store)

include composes

protected theorem pure {α : Type} (a : α) : P (pure a : Evaluation α) := composes.ofExcept (.ok a)

protected theorem throw {α : Type} (f : Fault) : P (throw f : Evaluation α) :=
  composes.ofExcept (.error f)

theorem evaluateArguments {es : List Expr} {parameters : List Parameter}
    (each : ∀ e ∈ es, ∀ kind, P (evaluate store kind e)) :
    P (evaluateArguments store parameters es) := by
  induction es generalizing parameters with
  | nil =>
    rw [LabelBasic.evaluateArguments]
    exact composes.pure _
  | cons e es ih =>
    obtain ⟨first, rest⟩ := List.forall_mem_cons.mp each
    cases parameters with
    | nil =>
      rw [LabelBasic.evaluateArguments]
      exact composes.pure _
    | cons parameter more =>
      rw [LabelBasic.evaluateArguments]
      exact composes.bind (first _) fun x => composes.bind (ih rest) fun xs => composes.pure _

/-- An evaluation has the property if the functions called in it have. -/
theorem evaluate {e : Expr} (called : ∀ f ∈ e.builtins, ∀ xs, P (f.call xs)) (kind : Kind) :
    P (evaluate store kind e) := by
  induction e using Expr.ind generalizing kind with
  | literal value =>
    rw [LabelBasic.evaluate]
    split
    · exact composes.pure _
    · exact composes.throw _
  | named v =>
    rw [LabelBasic.evaluate]
    split
    · exact composes.ofExcept _
    · exact composes.throw _
  | call f es ih =>
    rw [Expr.builtins] at called
    obtain ⟨own, inner⟩ := List.forall_mem_cons.mp called
    rw [LabelBasic.evaluate]
    split
    · have each : ∀ e ∈ es, ∀ kind, P (LabelBasic.evaluate store kind e) := fun e member =>
        ih e member fun f there => inner f (Expr.mem_allBuiltins member there)
      exact composes.bind (composes.evaluateArguments store each) own
    · exact composes.throw _
  | arithmetic op left right ihl ihr =>
    rw [Expr.builtins] at called
    obtain ⟨first, second⟩ := List.forall_mem_append.mp called
    rw [LabelBasic.evaluate]
    exact composes.bind (ihl first kind) fun x =>
      composes.bind (ihr second kind) fun y => composes.ofExcept _
  | comparison =>
    rw [LabelBasic.evaluate]
    exact composes.throw _

theorem evaluateInteger {e : Expr} (called : ∀ f ∈ e.builtins, ∀ xs, P (f.call xs)) :
    P (evaluateInteger store e) :=
  composes.bind (composes.evaluate store called .integer) fun _ => composes.ofExcept _

theorem evaluateCondition {e : Expr} (called : ∀ f ∈ e.builtins, ∀ xs, P (f.call xs)) :
    P (evaluateCondition store e) := by
  simp only [LabelBasic.evaluateCondition]
  split
  next relation left right =>
    rw [Expr.builtins] at called
    obtain ⟨first, second⟩ := List.forall_mem_append.mp called
    have test : P _ := composes.bind (composes.evaluate store first left.kind) fun x =>
      composes.bind (composes.evaluate store second left.kind) fun y =>
        composes.bind (composes.ofExcept (x.order? y)) fun order =>
          composes.pure (relation.holds order)
    split
    · exact composes.bind (composes.throw _) fun _ => test
    · exact test
  next => exact composes.throw _

end Composes

theorem Builtin.call_draws (f : Builtin) (xs : List Value) : Draws (f.call xs) := by
  cases f with
  | random => exact ⟨.draws fun word => .ends (.ok (.integer word.toInt32)), rfl⟩
  | val | valFloat | left | right | mid | num => exact .ofExcept _

theorem draws_composes : Composes Draws := ⟨.ofExcept, .bind⟩

end LabelBasic
