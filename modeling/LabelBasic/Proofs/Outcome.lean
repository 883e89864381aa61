import LabelBasic.Machine.Execute

/-!
# Outcomes of computations

A computation yields results of one sort and faults of another when it does so from every state. The
computations of the machine are made of a few parts, and what they yield follows from their parts.
-/
namespace LabelBasic

variable {ε σ τ α β : Type}

/-- The result satisfies `P`, or the fault `Q`. -/
def Gives (P : α → Prop) (Q : ε → Prop) : Except ε α → Prop
  | .ok a => P a
  | .error e => Q e

theorem Gives.mono {P P' : α → Prop} {Q Q' : ε → Prop} {r : Except ε α} (gives : Gives P Q r)
    (result : ∀ a, P a → P' a) (fault : ∀ e, Q e → Q' e) : Gives P' Q' r := by
  cases r with
  | ok a => exact result a gives
  | error e => exact fault e gives

theorem Gives.bind {P : α → Prop} {R : β → Prop} {Q : ε → Prop} {r : Except ε α}
    {f : α → Except ε β} (first : Gives P Q r) (next : ∀ a, P a → Gives R Q (f a)) :
    Gives R Q (r >>= f) := by
  cases r with
  | ok a => exact next a first
  | error e => exact first

theorem bind_of_ok {x : EStateM ε σ α} {f : α → EStateM ε σ β} {s t : σ} {a : α}
    (eq : x s = .ok a t) : (x >>= f) s = f a t := by
  change EStateM.bind x f s = f a t
  simp only [EStateM.bind, eq]

theorem bind_of_error {x : EStateM ε σ α} {f : α → EStateM ε σ β} {s t : σ} {e : ε}
    (eq : x s = .error e t) : (x >>= f) s = .error e t := by
  change EStateM.bind x f s = .error e t
  simp only [EStateM.bind, eq]

/-- A computation in two parts has a result only if both parts have. -/
theorem ok_of_bind {x : EStateM ε σ α} {f : α → EStateM ε σ β} {s u : σ} {b : β}
    (eq : (x >>= f) s = .ok b u) : ∃ a t, x s = .ok a t ∧ f a t = .ok b u := by
  cases first : x s with
  | ok a t => exact ⟨a, t, rfl, (bind_of_ok first).symm.trans eq⟩
  | error e t => cases (bind_of_error first).symm.trans eq

/-- A computation in two parts fails in the first part or in the second. -/
theorem error_of_bind {x : EStateM ε σ α} {f : α → EStateM ε σ β} {s u : σ} {e : ε}
    (eq : (x >>= f) s = .error e u) :
    x s = .error e u ∨ ∃ a t, x s = .ok a t ∧ f a t = .error e u := by
  cases first : x s with
  | ok a t => exact .inr ⟨a, t, rfl, (bind_of_ok first).symm.trans eq⟩
  | error e t =>
    cases (bind_of_error first).symm.trans eq
    exact .inl rfl

/-- Giving a result does not fail. -/
theorem error_of_bind_pure {x : EStateM ε σ α} {g : α → β} {s u : σ} {e : ε}
    (eq : (x >>= fun a => pure (g a)) s = .error e u) : x s = .error e u := by
  rcases error_of_bind eq with failed | ⟨_, _, _, impossible⟩
  · exact failed
  · cases impossible

theorem Stack.push_of_room (overflow : ε) (x : α) {s : Stack α} (room : s.size < capacity) :
    push overflow x s = .ok () (s.cons x) := by
  have fits : ¬capacity < (s.cons x).size := Nat.not_lt.mpr room
  exact if_neg fits

/-- A computation on a part of the machine fails as it fails alone. -/
theorem Machine.error_of_onPart {get : Machine → τ} {set : Machine → τ → Machine}
    {y : EStateM Fault τ α} {m m' : Machine} {f : Fault}
    (failed : onPart get set y m = .error f m') : ∃ t, y (get m) = .error f t ∧ m' = set m t := by
  simp only [onPart] at failed
  split at failed
  next => cases failed
  next raised =>
    cases failed
    exact ⟨_, raised, rfl⟩

/-- From every state the result satisfies `P`, or the fault `Q`. -/
def Yields (P : α → Prop) (Q : ε → Prop) (x : EStateM ε σ α) : Prop :=
  ∀ s, match x s with
    | .ok a _ => P a
    | .error e _ => Q e

namespace Yields

variable {P P' : α → Prop} {R : β → Prop} {Q Q' : ε → Prop} {x : EStateM ε σ α}

theorem of_ok (yields : Yields P Q x) {s t : σ} {a : α} (eq : x s = .ok a t) : P a := by
  have := yields s
  rwa [eq] at this

theorem of_error (yields : Yields P Q x) {s t : σ} {e : ε} (eq : x s = .error e t) : Q e := by
  have := yields s
  rwa [eq] at this

theorem mono (yields : Yields P Q x) (result : ∀ a, P a → P' a) (fault : ∀ e, Q e → Q' e) :
    Yields P' Q' x := by
  intro s
  cases eq : x s with
  | ok a t => exact result a (yields.of_ok eq)
  | error e t => exact fault e (yields.of_error eq)

protected theorem pure {a : α} (holds : P a) : Yields P Q (pure a : EStateM ε σ α) := fun _ => holds

protected theorem throw {e : ε} (holds : Q e) : Yields P Q (throw e : EStateM ε σ α) :=
  fun _ => holds

protected theorem bind {f : α → EStateM ε σ β} (first : Yields P Q x)
    (next : ∀ a, P a → Yields R Q (f a)) : Yields R Q (x >>= f) := by
  intro s
  have yields := first s
  change match EStateM.bind x f s with
    | .ok b _ => R b
    | .error e _ => Q e
  simp only [EStateM.bind]
  -- The second part runs from whatever state the first one left.
  cases eq : x s with
  | ok a t =>
    rw [eq] at yields
    exact next a yields t
  | error e t =>
    rw [eq] at yields
    exact yields

theorem ofExcept {r : Except ε α} (gives : Gives P Q r) :
    Yields P Q (ofExcept r : EStateM ε σ α) := by
  cases r with
  | ok a => exact Yields.pure gives
  | error e => exact Yields.throw gives

protected theorem ite {c : Prop} [Decidable c] {y : EStateM ε σ α} (holds : c → Yields P Q x)
    (fails : ¬c → Yields P Q y) : Yields P Q (if c then x else y) := by
  split
  next h => exact holds h
  next h => exact fails h

/-- A check, and what follows it unless it throws. -/
protected theorem check {c : Prop} [Decidable c] {e : ε} {rest : PUnit → EStateM ε σ β}
    (fault : c → Q e) (next : ¬c → Yields R Q (rest ⟨⟩)) :
    Yields R Q (if c then throw e >>= rest else rest ⟨⟩) :=
  .ite (fun holds => Yields.bind (P := fun _ => False) (.throw (fault holds)) fun _ => False.elim)
    next

protected theorem get : Yields (fun _ => True) Q (get : EStateM ε σ σ) := fun _ => trivial

protected theorem modify {f : σ → σ} :
    Yields (fun _ => True) Q (modify f : EStateM ε σ PUnit) := fun _ => trivial

theorem forM {f : β → EStateM ε σ PUnit} {bs : List β}
    (each : ∀ b ∈ bs, Yields (fun _ => True) Q (f b)) : Yields (fun _ => True) Q (bs.forM f) := by
  induction bs with
  | nil => exact Yields.pure trivial
  | cons b bs ih =>
    refine Yields.bind (each b (by simp)) fun _ _ => ih fun c member => ?_
    exact each c (by simp [member])

/-- A computation on a part of the machine yields what it yields alone. -/
theorem onPart {get : Machine → τ} {set : Machine → τ → Machine} {y : EStateM Fault τ α}
    {Q : Fault → Prop} (yields : Yields P Q y) : Yields P Q (Machine.onPart get set y) := by
  intro m
  simp only [Machine.onPart]
  have part := yields (get m)
  split at part
  next eq => simpa only [eq] using part
  next eq => simpa only [eq] using part

/-- A computation that draws random numbers and reads the machine. -/
theorem onGenerator {f : Machine → Evaluation α} {Q : Fault → Prop}
    (yields : ∀ m, Yields P Q (f m)) : Yields P Q fun m => Machine.onGenerator (f m) m :=
  fun m => onPart (yields m) m

end Yields

end LabelBasic
