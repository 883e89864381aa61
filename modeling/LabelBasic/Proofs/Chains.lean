import LabelBasic.Proofs.Branches
import LabelBasic.Proofs.Defects

/-!
# Chains of IFs

An IF runs the instruction at its label in place, and where that is an IF too, the chain goes on. A
chain may come back to where it began, so it is followed here without regard to its length, one
condition after the other. Main result: up to sixty-four conditions may hold, and then the last
instruction is run as if it stood in the place of the first IF; the sixty-fifth is one too many.
-/
namespace LabelBasic

namespace Machine

/-- So many IFs follow each other from the one command to the other, and the condition of each has
held when it was evaluated, once and in its turn. -/
inductive Follows (p : Program) : Nat → Command → Machine → Command → Machine → Prop
  | here (c : Command) (m : Machine) : Follows p 0 c m c m
  | further {k n : Nat} {e : Expr} {name : String} {i : Instruction} {c : Command}
      {m m₁ m' : Machine} (holds : condition e m = .ok true m₁) (defined : p.label? name = some n)
      (found : p.at? n = some i) (rest : Follows p k i.command m₁ c m') :
      Follows p (k + 1) (.branch e name) m c m'

variable {p : Program} {pc depth k n : Nat} {e : Expr} {name : String} {i : Instruction}
  {c c' : Command} {m m₁ m' : Machine} {f : Fault}

/-! ### One IF -/

theorem label_of_some (defined : p.label? name = some n) (m : Machine) :
    label p name m = .ok n m := by
  simp only [label, defined]
  rfl

theorem label_of_none (undefined : p.label? name = none) (m : Machine) :
    label p name m = .error (.undefinedLabel name) m := by
  simp only [label, undefined]
  rfl

theorem branchTarget_of_loop (defined : p.label? name = some n) (found : p.at? n = some i)
    (isLoop : i.command.IsLoop) (m : Machine) :
    branchTarget p name m = .error (.branchToLoop name) m := by
  obtain ⟨line, c⟩ := i
  rw [branchTarget, bind_of_ok (label_of_some defined m)]
  cases c with
  | loop | next =>
    simp only [found]
    rfl
  | _ => exact isLoop.elim

theorem branchTarget_of_other (defined : p.label? name = some n) (found : p.at? n = some i)
    (other : ¬i.command.IsLoop) (m : Machine) : branchTarget p name m = .ok i.command m := by
  obtain ⟨line, c⟩ := i
  rw [branchTarget, bind_of_ok (label_of_some defined m)]
  cases c with
  | loop | next => exact absurd trivial other
  | _ =>
    simp only [found]
    rfl

theorem branchTarget_of_none (undefined : p.label? name = none) (m : Machine) :
    branchTarget p name m = .error (.undefinedLabel name) m := by
  rw [branchTarget, bind_of_error (label_of_none undefined m)]

theorem execute_branch_false (fails : condition e m = .ok false m₁) :
    execute p pc depth (.branch e name) m = .ok .next m₁ := by
  rw [execute.eq_def]
  exact bind_of_ok fails

theorem execute_branch_error (failed : condition e m = .error f m₁) :
    execute p pc depth (.branch e name) m = .error f m₁ := by
  rw [execute.eq_def]
  exact bind_of_error failed

theorem execute_branch_too_deep (holds : condition e m = .ok true m₁) :
    execute p pc 0 (.branch e name) m = .error .branchTooDeep m₁ := by
  rw [execute.eq_def]
  exact bind_of_ok holds

theorem execute_branch_missing (holds : condition e m = .ok true m₁)
    (missing : branchTarget p name m₁ = .error f m') :
    execute p pc (depth + 1) (.branch e name) m = .error f m' := by
  rw [execute.eq_def]
  exact (bind_of_ok holds).trans (bind_of_error missing)

/-- What becomes of IFs that come to no command to run: control goes on, or one of them fails. -/
inductive Nowhere (p : Program) : EStateM.Result Fault Machine Flow → Prop
  | onward (m : Machine) : Nowhere p (.ok .next m)
  | condition {e : Expr} {f : Fault} {m m' : Machine} (failed : condition e m = .error f m') :
      Nowhere p (.error f m')
  | tooDeep (m : Machine) : Nowhere p (.error .branchTooDeep m)
  | target {name : String} {f : Fault} {m m' : Machine}
      (missing : branchTarget p name m = .error f m') : Nowhere p (.error f m')

theorem execute_nowhere (nowhere : comesTo? p depth c m = none) :
    Nowhere p (execute p pc depth c m) := by
  induction depth using Nat.strongRecOn generalizing c m with
  | ind depth ih =>
    cases c with
    | branch e name =>
      cases held : condition e m with
      | error f m₁ =>
        rw [execute_branch_error held]
        exact .condition held
      | ok holds m₁ =>
        cases holds with
        | false =>
          rw [execute_branch_false held]
          exact .onward m₁
        | true =>
          cases depth with
          | zero =>
            rw [execute_branch_too_deep held]
            exact .tooDeep m₁
          | succ left =>
            cases found : branchTarget p name m₁ with
            | error f m₂ =>
              rw [execute_branch_missing held found]
              exact .target found
            | ok c m₂ =>
              rw [comesTo?_branch held found] at nowhere
              rw [execute_branch held found]
              exact ih left (Nat.lt_succ_self left) nowhere
    | _ => cases depth <;> cases nowhere

/-! ### Following a chain -/

namespace Follows

theorem not_isLoop (follows : Follows p k c m c' m') (other : ¬c'.IsLoop) : ¬c.IsLoop := by
  cases follows with
  | here => exact other
  | further => exact id

theorem besidesGenerator_eq (follows : Follows p k c m c' m') :
    m'.besidesGenerator = m.besidesGenerator := by
  induction follows with
  | here => rfl
  | further holds _ _ _ ih => exact ih.trans ((condition_keeps _).of_ok holds)

/-- The command at the end is run in the place of the first one, with less depth left. -/
theorem execute_eq (follows : Follows p k c m c' m') (other : ¬c'.IsLoop) (left : Nat) :
    execute p pc (left + k) c m = execute p pc left c' m' := by
  induction follows with
  | here => rfl
  | @further _ _ _ _ _ _ _ m₁ _ holds defined found rest ih =>
    -- What the IF comes to is no FOR or NEXT: it is the last command or another IF.
    have target := branchTarget_of_other defined found (rest.not_isLoop other) m₁
    rw [← Nat.add_assoc, execute_branch holds target]
    exact ih other

end Follows

/-! ### The end of a chain -/

/-- How a chain of IFs ends that is at this one, when so many more may run others in place: the
machine after the condition, and what becomes of the run. -/
inductive ChainEnds (p : Program) (pc : Nat) (e : Expr) (name : String) (m : Machine) :
    Nat → Machine → Turn × Machine → Prop
  /-- A condition that does not hold ends the chain at any depth. -/
  | stops {left : Nat} {m' : Machine} (fails : condition e m = .ok false m') :
      ChainEnds p pc e name m left m' (.goOn (pc + 1), m')
  | fails {left : Nat} {f : Fault} {m' : Machine} (failed : condition e m = .error f m') :
      ChainEnds p pc e name m left m' (.failed f, m')
  /-- The program is out of memory, whether there is such a label or not. -/
  | tooDeep {m' : Machine} (holds : condition e m = .ok true m') :
      ChainEnds p pc e name m 0 m' (.failed .branchTooDeep, m')
  | undefined {left : Nat} {m' : Machine} (holds : condition e m = .ok true m')
      (missing : p.label? name = none) :
      ChainEnds p pc e name m (left + 1) m' (.failed (.undefinedLabel name), m')
  /-- Running a FOR or NEXT in place is an advanced feature. -/
  | atLoop {left n : Nat} {i : Instruction} {m' : Machine} (holds : condition e m = .ok true m')
      (defined : p.label? name = some n) (found : p.at? n = some i) (isLoop : i.command.IsLoop) :
      ChainEnds p pc e name m (left + 1) m' (.failed (.branchToLoop name), m')
  /-- The last command is run as if it stood in the place of the first IF. -/
  | inPlace {left n : Nat} {i : Instruction} {m' : Machine} (holds : condition e m = .ok true m')
      (defined : p.label? name = some n) (found : p.at? n = some i) (noLoop : ¬i.command.IsLoop)
      (other : ¬i.command.IsBranch) :
      ChainEnds p pc e name m (left + 1) m' (perform p pc i m')

theorem execute_depth_irrelevant (other : ¬c.IsBranch) (depth' : Nat) (m : Machine) :
    execute p pc depth c m = execute p pc depth' c m := by
  cases c with
  | branch => exact absurd trivial other
  | _ => simp only [execute]

/-- What becomes of the run depends on what comes of the command. -/
theorem perform_congr {j : Instruction}
    (same : execute p pc branchLimit i.command m = execute p pc branchLimit j.command m') :
    perform p pc i m = perform p pc j m' := by
  simp only [perform, same]

namespace ChainEnds

variable {left : Nat} {r : Turn × Machine}

theorem besidesGenerator_eq (ends : ChainEnds p pc e name m left m' r) :
    m'.besidesGenerator = m.besidesGenerator := by
  cases ends with
  | fails failed => exact (condition_keeps e).of_error failed
  | stops held | tooDeep held | undefined held | atLoop held | inPlace held =>
    exact (condition_keeps e).of_ok held

/-- A chain that is followed from an IF to where it ends decides what becomes of the first one. -/
theorem perform_eq {line : Nat} {e₀ : Expr} {name₀ : String}
    (follows : Follows p k (.branch e₀ name₀) m (.branch e name) m₁)
    (ends : ChainEnds p pc e name m₁ left m' r) (depth : left + k = branchLimit) :
    perform p pc ⟨line, .branch e₀ name₀⟩ m = r := by
  have whole : execute p pc branchLimit (.branch e₀ name₀) m =
      execute p pc left (.branch e name) m₁ := depth ▸ follows.execute_eq id left
  cases ends with
  | stops fails => simp only [perform, whole, execute_branch_false fails]
  | fails failed => simp only [perform, whole, execute_branch_error failed]
  | tooDeep holds => simp only [perform, whole, execute_branch_too_deep holds]
  | undefined holds missing =>
    simp only [perform, whole, execute_branch_missing holds (branchTarget_of_none missing m')]
  | atLoop holds defined found isLoop =>
    have missing := branchTarget_of_loop defined found isLoop m'
    simp only [perform, whole, execute_branch_missing holds missing]
  | @inPlace left _ i _ holds defined found noLoop other =>
    apply perform_congr
    rw [whole, execute_branch holds (branchTarget_of_other defined found noLoop m')]
    exact execute_depth_irrelevant other branchLimit m'

/-- A chain is at its end unless the condition holds. -/
theorem exists_or_holds (p : Program) (pc : Nat) (e : Expr) (name : String) (m : Machine)
    (left : Nat) :
    (∃ m' r, ChainEnds p pc e name m left m' r) ∨ ∃ m', condition e m = .ok true m' := by
  cases held : condition e m with
  | error f m' => exact .inl ⟨m', _, .fails held⟩
  | ok holds m' =>
    cases holds with
    | false => exact .inl ⟨m', _, .stops held⟩
    | true => exact .inr ⟨m', rfl⟩

/-- Whatever the conditions draw, a chain ends after as many IFs as are allowed at the latest. -/
theorem exists_of_inside (inside : ∀ d ∈ p.labels, d.2 < p.size) (pc left : Nat) (e : Expr)
    (name : String) (m : Machine) :
    ∃ k rest e' name' m₁ m' r, rest + k = left ∧
      Follows p k (.branch e name) m (.branch e' name') m₁ ∧
      ChainEnds p pc e' name' m₁ rest m' r := by
  induction left generalizing e name m with
  | zero =>
    rcases exists_or_holds p pc e name m 0 with ⟨m', r, ends⟩ | ⟨m', holds⟩
    · exact ⟨0, 0, e, name, m, m', r, rfl, .here _ _, ends⟩
    · exact ⟨0, 0, e, name, m, m', _, rfl, .here _ _, .tooDeep holds⟩
  | succ left ih =>
    rcases exists_or_holds p pc e name m (left + 1) with ⟨m', r, ends⟩ | ⟨m', holds⟩
    · exact ⟨0, left + 1, e, name, m, m', r, rfl, .here _ _, ends⟩
    cases defined : p.label? name with
    | none => exact ⟨0, left + 1, e, name, m, m', _, rfl, .here _ _, .undefined holds defined⟩
    | some n =>
      -- Labels of linked programs are those of instructions, so there is one to go on with.
      obtain ⟨⟨line, c⟩, found⟩ := Program.exists_at?_of_label? inside defined
      cases c with
      | branch e₁ name₁ =>
        obtain ⟨k, rest, e', name', m₁, m₂, r, sum, follows, ends⟩ := ih e₁ name₁ m'
        exact ⟨k + 1, rest, e', name', m₁, m₂, r, by omega,
          .further holds defined found follows, ends⟩
      | loop | next =>
        exact ⟨0, left + 1, e, name, m, m', _, rfl, .here _ _, .atLoop holds defined found trivial⟩
      | _ =>
        exact ⟨0, left + 1, e, name, m, m', _, rfl, .here _ _,
          .inPlace holds defined found id id⟩

end ChainEnds

theorem perform_gosub {line : Nat} (defined : p.label? name = some n)
    (room : m.calls.size < Stack.capacity) :
    perform p pc ⟨line, .gosub name⟩ m = (.goOn n, { m with calls := m.calls.cons (pc + 1) }) := by
  have pushed : onCalls (Stack.push .tooManyCalls (pc + 1)) m =
      .ok () { m with calls := m.calls.cons (pc + 1) } := by
    simp only [onCalls, onPart, Stack.push_of_room _ _ room]
  have jumps : execute p pc branchLimit (.gosub name) m =
      .ok (.jump n) { m with calls := m.calls.cons (pc + 1) } := by
    simp only [execute, gosub]
    rw [bind_of_ok (label_of_some defined m), bind_of_ok pushed]
    rfl
  simp only [perform, jumps]

end Machine

open Machine

/-- An IF of a linked program comes to an end with one of the IFs that it leads to, which is at most
the sixty-fourth behind it, and the way the chain ends there is the outcome of the first IF. Up to
the last condition nothing but the generator has changed. So a GOSUB at the end of the chain
returns behind the first IF. -/
theorem perform_branch_follows_chain {ss : List Statement} {p : Program}
    (linked : p = .ofStatements ss) (pc line : Nat) (e : Expr) (name : String) (m : Machine) :
    (∃ k left e' name' m₁ m' r, left + k = 64 ∧
      Follows p k (.branch e name) m (.branch e' name') m₁ ∧
      ChainEnds p pc e' name' m₁ left m' r) ∧
    (∀ k left e' name' m₁ m' r, left + k = 64 →
      Follows p k (.branch e name) m (.branch e' name') m₁ →
      ChainEnds p pc e' name' m₁ left m' r →
        perform p pc ⟨line, .branch e name⟩ m = r ∧
          m'.besidesGenerator = m.besidesGenerator) ∧
    ∀ k e' name' m₁ m' n line' called target, k < 64 →
      Follows p k (.branch e name) m (.branch e' name') m₁ → condition e' m₁ = .ok true m' →
      p.label? name' = some n → p.at? n = some ⟨line', .gosub called⟩ →
      p.label? called = some target → m.calls.size < Stack.capacity →
        perform p pc ⟨line, .branch e name⟩ m =
          (.goOn target, { m' with calls := m.calls.cons (pc + 1) }) := by
  subst linked
  refine ⟨ChainEnds.exists_of_inside (Program.labels_inside ss) pc 64 e name m, ?_, ?_⟩
  -- Where a chain ends it decides the first IF, and no IF on the way changes more than the generator.
  · intro k left e' name' m₁ m' r depth follows ends
    constructor
    · exact ends.perform_eq follows depth
    · exact ends.besidesGenerator_eq.trans follows.besidesGenerator_eq
  · intro k e' name' m₁ m' n line' called target few follows holds defined found there room
    have ends : ChainEnds (.ofStatements ss) pc e' name' m₁ (63 - k + 1) m' _ :=
      .inPlace holds defined found id id
    have same : m'.calls = m.calls := part_of_besides (fun _ _ => rfl)
      (ends.besidesGenerator_eq.trans follows.besidesGenerator_eq)
    rw [ends.perform_eq follows (by simp only [branchLimit]; omega), ← same]
    exact perform_gosub there (same ▸ room)

private def oneIsOne : Expr := .comparison .equal (.literal (.integer 1)) (.literal (.integer 1))

private def selfBranch : List Statement := [⟨[⟨"a", 1⟩], ⟨1, .branch oneIsOne "a"⟩⟩]

private def selfStart : Machine := .initial (.ofStatements selfBranch) (.ofSeed 0) (.ofBytes [])

private theorem follows_selfBranch (k : Nat) :
    Follows (.ofStatements selfBranch) k (.branch oneIsOne "a") selfStart (.branch oneIsOne "a")
      selfStart := by
  induction k with
  | zero => exact .here _ _
  | succ k ih => exact .further (n := 0) (i := ⟨1, .branch oneIsOne "a"⟩) rfl rfl rfl ih

/-- An IF that branches to itself fails at its sixty-fifth condition. -/
theorem perform_branch_follows_chain_of_selfBranch :
    perform (.ofStatements selfBranch) 0 ⟨1, .branch oneIsOne "a"⟩ selfStart =
        (.failed .branchTooDeep, selfStart) ∧
      Fault.branchTooDeep.code = .outOfMemory := by
  constructor
  · have chain := (perform_branch_follows_chain (p := .ofStatements selfBranch) rfl 0 1 oneIsOne "a"
      selfStart).2.1
    exact (chain 64 0 _ _ _ _ _ rfl (follows_selfBranch 64) (.tooDeep rfl)).1
  · rfl

end LabelBasic
