import LabelBasic.Machine.Run

/-!
# Computations and the control state

Where RETURN and NEXT go and whether an interrupt is pending are the control state of a machine.
Expressions, assignments, input and output have nothing to do with it: they come to the same under
any control state, and leave it as it is.
-/
namespace LabelBasic

namespace Machine

/-- The machine with the control state of another. -/
def under (m control : Machine) : Machine :=
  { m with calls := control.calls, loops := control.loops, interrupted := control.interrupted }

@[simp] theorem under_self (m : Machine) : m.under m = m := rfl

/-- The machine inside of other loops. -/
def withLoops (m : Machine) (loops : Stack Frame) : Machine := { m with loops }

@[simp] theorem withLoops_self (m : Machine) : m.withLoops m.loops = m := rfl

/-- A result in the control state of another machine. -/
def resultUnder {α : Type} (control : Machine) :
    EStateM.Result Fault Machine α → EStateM.Result Fault Machine α
  | .ok a m => .ok a (m.under control)
  | .error f m => .error f (m.under control)

end Machine

open Machine

variable {α β : Type}

/-- The control state makes no difference to the computation, which leaves it alone. -/
def Oblivious (x : Execution α) : Prop :=
  ∀ m control, x (m.under control) = resultUnder control (x m)

namespace Oblivious

variable {x y : Execution α}

theorem ok (oblivious : Oblivious x) {m m' : Machine} {a : α} (eq : x m = .ok a m')
    (control : Machine) : x (m.under control) = .ok a (m'.under control) := by
  rw [oblivious, eq]
  rfl

theorem error (oblivious : Oblivious x) {m m' : Machine} {f : Fault} (eq : x m = .error f m')
    (control : Machine) : x (m.under control) = .error f (m'.under control) := by
  rw [oblivious, eq]
  rfl

theorem under_of_ok (oblivious : Oblivious x) {m m' : Machine} {a : α} (eq : x m = .ok a m') :
    m'.under m = m' := by
  have same := oblivious.ok eq m
  rw [under_self, eq] at same
  injection same with _ same
  exact same.symm

theorem under_of_error (oblivious : Oblivious x) {m m' : Machine} {f : Fault}
    (eq : x m = .error f m') : m'.under m = m' := by
  have same := oblivious.error eq m
  rw [under_self, eq] at same
  injection same with _ same
  exact same.symm

/-- The computation runs the same way inside of other loops. -/
theorem ok_withLoops (oblivious : Oblivious x) {m m' : Machine} {a : α} (eq : x m = .ok a m')
    (loops : Stack Frame) : x (m.withLoops loops) = .ok a (m'.withLoops loops) := by
  have inside := oblivious.ok eq (m.withLoops loops)
  rw [← oblivious.under_of_ok eq]
  exact inside

theorem error_withLoops (oblivious : Oblivious x) {m m' : Machine} {f : Fault}
    (eq : x m = .error f m') (loops : Stack Frame) :
    x (m.withLoops loops) = .error f (m'.withLoops loops) := by
  have inside := oblivious.error eq (m.withLoops loops)
  rw [← oblivious.under_of_error eq]
  exact inside

theorem interrupted_eq (oblivious : Oblivious x) {m m' : Machine} {a : α} (eq : x m = .ok a m') :
    m'.interrupted = m.interrupted := by
  rw [← oblivious.under_of_ok eq]
  rfl

protected theorem pure (a : α) : Oblivious (pure a) := fun _ _ => rfl

protected theorem throw (f : Fault) : Oblivious (throw f : Execution α) := fun _ _ => rfl

protected theorem bind {f : α → Execution β} (first : Oblivious x) (next : ∀ a, Oblivious (f a)) :
    Oblivious (x >>= f) := by
  intro m control
  change EStateM.bind x f (m.under control) = resultUnder control (EStateM.bind x f m)
  simp only [EStateM.bind]
  -- The first part leaves the control state it was given, so the second part starts in it too.
  rw [first m control]
  cases x m with
  | ok a m' => exact next a m' control
  | error e m' => rfl

protected theorem ite {c : Prop} [Decidable c] (holds : Oblivious x) (fails : Oblivious y) :
    Oblivious (if c then x else y) := by
  split
  · exact holds
  · exact fails

theorem ofExcept (r : Except Fault α) : Oblivious (LabelBasic.ofExcept r) := by
  cases r with
  | ok a => exact .pure a
  | error f => exact .throw f

theorem forM {f : β → Execution PUnit} (each : ∀ b, Oblivious (f b)) (bs : List β) :
    Oblivious (bs.forM f) := by
  induction bs with
  | nil => exact .pure _
  | cons b bs ih => exact (each b).bind fun _ => ih

/-- What is read off the machine is no part of its control state. -/
theorem get {f : Machine → Execution α} (reads : ∀ m control, f (m.under control) = f m)
    (each : ∀ m, Oblivious (f m)) : Oblivious (get >>= f) := by
  intro m control
  change f (m.under control) (m.under control) = _
  rw [reads]
  exact each m m control

theorem onGenerator {f : Machine → Evaluation α} (reads : ∀ m control, f (m.under control) = f m) :
    Oblivious fun m => Machine.onGenerator (f m) m := by
  intro m control
  unfold Machine.onGenerator onPart
  dsimp only
  rw [reads]
  cases eq : f m m.generator <;> simp only [under, resultUnder, eq]

theorem onReader (x : EStateM Fault Reader α) : Oblivious (Machine.onReader x) := by
  intro m control
  simp only [Machine.onReader, onPart]
  cases eq : x m.reader <;> simp only [under, resultUnder, eq]

end Oblivious

namespace Machine

theorem value_oblivious (kind : Kind) (e : Expr) : Oblivious (value kind e) :=
  .onGenerator fun _ _ => rfl

theorem integer_oblivious (e : Expr) : Oblivious (integer e) := .onGenerator fun _ _ => rfl

theorem assign_oblivious (v : Ident) (x : Value) : Oblivious (assign v x) := by
  intro m control
  simp only [assign]
  cases eq : m.store.store v x <;> simp only [under, resultUnder, eq]

theorem fetch_oblivious (v : Ident) : Oblivious (fetch v) := by
  intro m control
  simp only [fetch]
  cases eq : m.store.fetch v <;> simp only [under, resultUnder, eq]

theorem emit_oblivious (text : String) : Oblivious (emit text) := fun _ _ => rfl

theorem printItem_oblivious (e : Expr) : Oblivious (printItem e) := by
  simp only [printItem]
  split
  · exact emit_oblivious _
  · exact (value_oblivious _ _).bind fun _ => emit_oblivious _

theorem readItem_oblivious (v : Ident) (x : Value) : Oblivious (readItem v x) := by
  refine Oblivious.bind (fun _ _ => rfl) fun _ => ?_
  exact .ite ((Oblivious.throw _).bind fun _ => assign_oblivious v x) (assign_oblivious v x)

theorem read_oblivious (targets : List Ident) : Oblivious (read targets) := by
  refine Oblivious.get (fun _ _ => rfl) fun m => ?_
  -- What is read, and whether there is enough of it, is decided by the data alone.
  have items := Oblivious.forM (f := fun pair => readItem pair.1 pair.2)
    (fun pair => readItem_oblivious pair.1 pair.2) (targets.zip m.data)
  exact .ite ((Oblivious.throw _).bind fun _ => items) items

theorem inputItem_oblivious (e : Expr) : Oblivious (inputItem e) := by
  simp only [inputItem]
  split
  · exact emit_oblivious _
  · exact (Oblivious.onReader _).bind fun x => assign_oblivious _ x
  · exact .throw _

end Machine

end LabelBasic
