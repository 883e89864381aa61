import LabelBasic.Proofs.Keeping

/-!
# Commands run in place

IF runs the command at its label in place, which may be an IF again. Following the IFs whose
conditions hold leads to the command that is run in the end, and running the first IF is running
that command at the address of the IF. Nothing but the generator changes on the way.
-/
namespace LabelBasic

/-- The command is IF. -/
def Command.IsBranch : Command → Prop
  | .branch .. => True
  | _ => False

namespace Machine

/-- The command that a command comes to, and the machine it is run in: itself, or what runs in the
place of an IF. An IF whose condition does not hold comes to none, nor does one that fails. -/
def comesTo? (p : Program) : Nat → Command → Machine → Option (Command × Machine)
  | 0, .branch .., _ => none
  | depth + 1, .branch e name, m =>
    match condition e m with
    | .ok true m' =>
      match branchTarget p name m' with
      | .ok c m' => comesTo? p depth c m'
      | .error .. => none
    | _ => none
  | _, c, m => some (c, m)

/-- All of the machine but the generator. -/
def besidesGenerator (m : Machine) (generator : Generator) : Machine := { m with generator }

theorem part_of_besides {σ : Type} {part : Machine → σ}
    (apart : ∀ m generator, part { m with generator } = part m) {m m' : Machine}
    (same : m'.besidesGenerator = m.besidesGenerator) : part m' = part m := by
  have whole := congrArg (fun besides => part (besides m.generator)) same
  rw [← apart m' m.generator, ← apart m m.generator]
  exact whole

theorem condition_keeps (e : Expr) : Keeps besidesGenerator (condition e) :=
  .evaluation (fun _ _ => rfl) _

theorem label_keeps {σ : Type} (part : Machine → σ) (p : Program) (name : String) :
    Keeps part (label p name) := by
  simp only [label]
  split
  · exact .pure _
  · exact .throw _

theorem branchTarget_keeps {σ : Type} (part : Machine → σ) (p : Program) (name : String) :
    Keeps part (branchTarget p name) := by
  refine (label_keeps part p name).bind fun target _ _ _ => ?_
  split
  · exact .throw _
  · exact .throw _
  · exact .pure _
  · exact .throw _

variable {p : Program} {pc depth : Nat} {c c' : Command} {m m₁ m₂ m' : Machine} {e : Expr}
  {name : String}

theorem comesTo?_other (other : ¬c.IsBranch) : comesTo? p depth c m = some (c, m) := by
  cases c
  case branch => exact absurd trivial other
  all_goals cases depth <;> rfl

theorem comesTo?_branch (holds : condition e m = .ok true m₁)
    (found : branchTarget p name m₁ = .ok c m₂) :
    comesTo? p (depth + 1) (.branch e name) m = comesTo? p depth c m₂ := by
  simp only [comesTo?, holds, found]

theorem execute_branch (holds : condition e m = .ok true m₁)
    (found : branchTarget p name m₁ = .ok c m₂) :
    execute p pc (depth + 1) (.branch e name) m = execute p pc depth c m₂ := by
  rw [execute.eq_def]
  exact (bind_of_ok holds).trans (bind_of_ok found)

/-- Running a command is running the one that it comes to, if it comes to one. -/
theorem execute_cases (p : Program) (pc depth : Nat) (c : Command) (m : Machine) :
    (∃ c' m' left, comesTo? p depth c m = some (c', m') ∧ ¬c'.IsBranch ∧
        m'.besidesGenerator = m.besidesGenerator ∧
        execute p pc depth c m = execute p pc left c' m') ∨
      comesTo? p depth c m = none ∧
        ((execute p pc depth c).after m).besidesGenerator = m.besidesGenerator := by
  -- Each IF on the way is one level less deep.
  induction depth using Nat.strongRecOn generalizing c m with
  | ind depth ih =>
    cases c with
    | branch e name =>
      have kept := condition_keeps e
      cases held : condition e m with
      | error f m₁ =>
        refine .inr ⟨by cases depth <;> simp only [comesTo?, held], ?_⟩
        unfold execute
        rw [Execution.after_bind_of_error held, kept.of_error held]
      | ok holds m₁ =>
        cases holds with
        | false =>
          refine .inr ⟨by cases depth <;> simp only [comesTo?, held], ?_⟩
          unfold execute
          rw [Execution.after_bind_of_ok held, ← kept.of_ok held]
          rfl
        | true =>
          cases depth with
          | zero =>
            refine .inr ⟨rfl, ?_⟩
            unfold execute
            rw [Execution.after_bind_of_ok held, ← kept.of_ok held]
            rfl
          | succ depth =>
            cases found : branchTarget p name m₁ with
            | error f m₂ =>
              refine .inr ⟨by simp only [comesTo?, held, found], ?_⟩
              unfold execute
              rw [Execution.after_bind_of_ok held]
              simp only [if_true]
              rw [Execution.after_bind_of_error found, ← kept.of_ok held]
              exact (branchTarget_keeps _ p name).of_error found
            | ok c m₂ =>
              have same : m₂.besidesGenerator = m.besidesGenerator :=
                ((branchTarget_keeps _ p name).of_ok found).trans (kept.of_ok held)
              simp only [comesTo?_branch held found, Execution.after, execute_branch held found]
              rw [← same]
              exact ih depth (Nat.lt_succ_self depth) c m₂
    | _ => exact .inl ⟨_, m, depth, comesTo?_other not_false, not_false, rfl, rfl⟩

theorem besides_of_comesTo? (comes : comesTo? p depth c m = some (c', m')) :
    m'.besidesGenerator = m.besidesGenerator := by
  rcases execute_cases p 0 depth c m with ⟨_, _, _, comes', _, same, _⟩ | ⟨nowhere, _⟩
  · cases comes'.symm.trans comes
    exact same
  · cases nowhere.symm.trans comes

end Machine

end LabelBasic
