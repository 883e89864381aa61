import LabelBasic.Proofs.Control
import LabelBasic.Proofs.Outcome

/-!
# What a computation keeps

A computation leaves a machine behind whether or not it fails, and a part of the machine that none
of its steps changes is the same there. Of all commands FOR and NEXT alone change the open loops,
and NEXT only closes some.
-/
namespace LabelBasic

/-- The machine a computation leaves, whether or not it fails. -/
def Execution.after {α : Type} (x : Execution α) (m : Machine) : Machine :=
  match x m with
  | .ok _ m' => m'
  | .error _ m' => m'

theorem Execution.after_of_ok {α : Type} {x : Execution α} {m m' : Machine} {a : α}
    (eq : x m = .ok a m') : x.after m = m' := by
  rw [after, eq]

theorem Execution.after_of_error {α : Type} {x : Execution α} {m m' : Machine} {f : Fault}
    (eq : x m = .error f m') : x.after m = m' := by
  rw [after, eq]

theorem Execution.after_bind_of_ok {α β : Type} {x : Execution α} {f : α → Execution β}
    {m m' : Machine} {a : α} (eq : x m = .ok a m') : (x >>= f).after m = (f a).after m' := by
  simp only [after, bind_of_ok eq]

theorem Execution.after_bind_of_error {α β : Type} {x : Execution α} {f : α → Execution β}
    {m m' : Machine} {e : Fault} (eq : x m = .error e m') : (x >>= f).after m = m' := by
  simp only [after, bind_of_error eq]

theorem Execution.after_bind_pure {α β : Type} (x : Execution α) (b : β) (m : Machine) :
    (x >>= fun _ => pure b).after m = x.after m := by
  cases eq : x m with
  | ok a m' => rw [after_bind_of_ok eq, after_of_ok eq]; rfl
  | error e m' => rw [after_bind_of_error eq, after_of_error eq]

/-- An item that is one too many is on the stack all the same. -/
theorem Execution.after_push {ι : Type} (get : Machine → Stack ι)
    (set : Machine → Stack ι → Machine) (fault : Fault) (x : ι) (m : Machine) :
    (Machine.onPart get set (Stack.push fault x)).after m = set m ((get m).cons x) := by
  by_cases full : Stack.capacity < ((get m).cons x).size
  · simp only [after, Machine.onPart, Stack.push, if_pos full]
  · simp only [after, Machine.onPart, Stack.push, if_neg full]

/-- The computation does not change this part of the machine. -/
def Keeps {α σ : Type} (part : Machine → σ) (x : Execution α) : Prop :=
  ∀ m, part (x.after m) = part m

namespace Keeps

variable {α β σ : Type} {part : Machine → σ} {x : Execution α} {m m' : Machine}

theorem of_ok (keeps : Keeps part x) {a : α} (eq : x m = .ok a m') : part m' = part m :=
  Execution.after_of_ok eq ▸ keeps m

theorem of_error (keeps : Keeps part x) {f : Fault} (eq : x m = .error f m') : part m' = part m :=
  Execution.after_of_error eq ▸ keeps m

/-- The control state is kept by what is oblivious of it. -/
theorem control_of_oblivious
    (inControl : ∀ m control : Machine, part (m.under control) = part control)
    (oblivious : Oblivious x) : Keeps part x := by
  intro m
  cases eq : x m with
  | ok a m' => rw [Execution.after_of_ok eq, ← oblivious.under_of_ok eq, inControl]
  | error f m' => rw [Execution.after_of_error eq, ← oblivious.under_of_error eq, inControl]

theorem of_oblivious (oblivious : Oblivious x) : Keeps Machine.loops x :=
  .control_of_oblivious (fun _ _ => rfl) oblivious

protected theorem pure (a : α) : Keeps part (pure a : Execution α) := fun _ => rfl

protected theorem throw (f : Fault) : Keeps part (throw f : Execution α) := fun _ => rfl

/-- The second part need keep only after a result that the first part has. -/
protected theorem bind {f : α → Execution β} (first : Keeps part x)
    (next : ∀ a m m', x m = .ok a m' → Keeps part (f a)) : Keeps part (x >>= f) := by
  intro m
  cases eq : x m with
  | ok a m' =>
    rw [Execution.after_bind_of_ok eq]
    exact (next a m m' eq m').trans (first.of_ok eq)
  | error e m' =>
    rw [Execution.after_bind_of_error eq]
    exact first.of_error eq

/-- What the second part of a computation keeps is as the first part has left it. -/
theorem after_bind {f : α → Execution β} (next : ∀ a, Keeps part (f a)) (x : Execution α)
    (m : Machine) : part ((x >>= f).after m) = part (x.after m) := by
  cases eq : x m with
  | ok a m' => rw [Execution.after_bind_of_ok eq, Execution.after_of_ok eq, next a m']
  | error e m' => rw [Execution.after_bind_of_error eq, Execution.after_of_error eq]

theorem modify {f : Machine → Machine} (same : ∀ m, part (f m) = part m) :
    Keeps part (modify f : Execution PUnit) := same

theorem onPart {τ : Type} (get : Machine → τ) (set : Machine → τ → Machine)
    (same : ∀ m t, part (set m t) = part m) (y : EStateM Fault τ α) :
    Keeps part (Machine.onPart get set y) := by
  intro m
  simp only [Execution.after, Machine.onPart]
  cases y (get m) <;> exact same _ _

/-- An evaluation changes nothing but the generator. -/
theorem evaluation
    (apart : ∀ (m : Machine) (generator : Generator), part { m with generator } = part m)
    (f : Machine → Evaluation α) : Keeps part fun m => Machine.onGenerator (f m) m := fun m =>
  Keeps.onPart Machine.generator (fun m generator => { m with generator }) apart (f m) m

end Keeps

/-- The command is FOR or NEXT. -/
def Command.IsLoop : Command → Prop
  | .loop .. | .next _ => True
  | _ => False

/-- The command reads or changes the control state, or runs another one that may. -/
def Command.IsControl : Command → Prop
  | .gosub _ | .ret | .loop .. | .next _ | .branch .. => True
  | _ => False

namespace Machine

theorem onCalls_keeps_loops {α : Type} (y : EStateM Fault (Stack Nat) α) :
    Keeps loops (onCalls y) :=
  .onPart calls (fun m calls => { m with calls }) (fun _ _ => rfl) y

theorem onLoops_keeps {α σ : Type} {part : Machine → σ}
    (apart : ∀ (m : Machine) (loops : Stack Frame), part { m with loops } = part m)
    (y : EStateM Fault (Stack Frame) α) : Keeps part (onLoops y) :=
  .onPart loops (fun m loops => { m with loops }) apart y

theorem condition_oblivious (e : Expr) : Oblivious (condition e) := .onGenerator fun _ _ => rfl

theorem label_oblivious (p : Program) (name : String) : Oblivious (label p name) := by
  simp only [label]
  split
  · exact .pure _
  · exact .throw _

theorem branchTarget_oblivious (p : Program) (name : String) : Oblivious (branchTarget p name) := by
  refine (label_oblivious p name).bind fun target => ?_
  split
  · exact .throw _
  · exact .throw _
  · exact .pure _
  · exact .throw _

theorem branchTarget_not_isLoop (p : Program) (name : String) :
    Yields (fun c => ¬c.IsLoop) (fun _ => True) (branchTarget p name) := by
  refine Yields.bind (P := fun _ => True) ?_ fun target _ => ?_
  · simp only [label]
    split
    · exact .pure trivial
    · exact .throw trivial
  · split
    · exact .throw trivial
    · exact .throw trivial
    next i noLoop noNext eq =>
      apply Yields.pure
      intro isLoop
      obtain ⟨line, c⟩ := i
      cases c with
      | loop v first last step => exact noLoop line v first last step rfl
      | next v => exact noNext line v rfl
      | _ => exact isLoop
    · exact .throw trivial

theorem execute_oblivious (p : Program) (pc depth : Nat) {c : Command} (other : ¬c.IsControl) :
    Oblivious (execute p pc depth c) := by
  cases c with
  | assign v e =>
    simp only [execute]
    exact (value_oblivious _ e).bind fun x => (assign_oblivious v x).bind fun _ => .pure _
  | print items =>
    simp only [execute]
    exact (Oblivious.forM printItem_oblivious items).bind fun _ => .pure _
  | data items =>
    simp only [execute]
    exact .pure _
  | read targets =>
    simp only [execute]
    exact (read_oblivious targets).bind fun _ => .pure _
  | input items =>
    simp only [execute]
    exact (Oblivious.forM inputItem_oblivious items).bind fun _ => .pure _
  | stop =>
    simp only [execute]
    exact .pure _
  | whileLoop e name =>
    simp only [execute]
    exact .throw _
  | gosub | ret | loop | next | branch => exact absurd trivial other

/-- FOR and NEXT alone open and close loops, also where IF runs a command in place. -/
theorem execute_keeps_loops (p : Program) (pc depth : Nat) {c : Command} (other : ¬c.IsLoop) :
    Keeps loops (execute p pc depth c) := by
  -- The command that IF runs has one IF less before it, and is no FOR or NEXT either.
  induction depth using Nat.strongRecOn generalizing c with
  | ind depth ih =>
    cases c with
    | gosub name =>
      simp only [execute]
      refine (Keeps.of_oblivious (label_oblivious p name)).bind fun target _ _ _ => ?_
      exact (onCalls_keeps_loops _).bind fun _ _ _ _ => .pure _
    | ret =>
      simp only [execute]
      exact (onCalls_keeps_loops _).bind fun _ _ _ _ => .pure _
    | loop | next => exact absurd trivial other
    | branch e name =>
      unfold execute
      refine (Keeps.of_oblivious (condition_oblivious e)).bind fun holds _ _ _ => ?_
      cases holds with
      | false => exact .pure _
      | true =>
        cases depth with
        | zero => exact .throw _
        | succ depth =>
          refine (Keeps.of_oblivious (branchTarget_oblivious p name)).bind fun c _ _ found => ?_
          exact ih depth (Nat.lt_succ_self depth) ((branchTarget_not_isLoop p name).of_ok found)
    | _ => exact .of_oblivious (execute_oblivious p pc depth not_false)

theorem continueLoop_keeps {σ : Type} (part : Machine → σ) : Keeps part continueLoop := by
  refine Keeps.bind (x := get) (fun _ => rfl) fun m _ _ _ => ?_
  split
  · exact .pure _
  · exact .throw _

/-- Behind the loops that it gives up first, NEXT with a variable changes nothing. -/
theorem continueNamed_keeps {σ : Type} (part : Machine → σ) (v : Ident) :
    Keeps part (do
      if (← get).loops.top?.isNone then throw (.nextWithoutFor (some v))
      continueLoop) := by
  refine Keeps.bind (x := get) (fun _ => rfl) fun m _ _ _ => ?_
  split
  · exact (Keeps.throw _).bind fun _ _ _ _ => continueLoop_keeps _
  · exact continueLoop_keeps _

/-- NEXT opens no loop, and closes inner ones before outer ones. -/
theorem next_loops (v : Option Ident) (m : Machine) :
    ((next v).after m).loops.items <:+ m.loops.items := by
  cases v with
  | none => exact continueLoop_keeps loops m ▸ List.suffix_refl _
  | some v =>
    have kept := continueNamed_keeps loops v
      { m with loops := m.loops.dropUntil fun frame => frame.v == v }
    have dropped : ((next (some v)).after m).loops = m.loops.dropUntil fun frame => frame.v == v :=
      kept
    rw [dropped]
    exact List.dropWhile_suffix _

theorem next_keeps {σ : Type} {part : Machine → σ}
    (apart : ∀ (m : Machine) (loops : Stack Frame), part { m with loops } = part m)
    (v : Option Ident) : Keeps part (next v) := by
  cases v with
  | none => exact continueLoop_keeps part
  | some v => exact (Keeps.modify fun m => apart m _).bind fun _ _ _ _ => continueNamed_keeps part v

theorem perform_machine {p : Program} {pc : Nat} (i : Instruction) (m : Machine) :
    (perform p pc i m).2 = (execute p pc branchLimit i.command).after m := by
  simp only [perform, Execution.after]
  split <;> simp only [*]

/-- A command that is no FOR opens no loop. -/
theorem execute_closes (p : Program) (pc depth : Nat) (c : Command) (m : Machine)
    (other : ∀ v first last step, c ≠ .loop v first last step) :
    ((execute p pc depth c).after m).loops.items <:+ m.loops.items := by
  have kept (noLoop : ¬c.IsLoop) :
      ((execute p pc depth c).after m).loops.items <:+ m.loops.items :=
    execute_keeps_loops p pc depth noLoop m ▸ List.suffix_refl _
  cases c with
  | next v =>
    simp only [execute]
    exact next_loops v m
  | loop v first last step => exact absurd rfl (other v first last step)
  | _ => exact kept not_false

end Machine

end LabelBasic
