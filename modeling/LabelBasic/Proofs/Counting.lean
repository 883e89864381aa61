import LabelBasic.Proofs.Continuing
import LabelBasic.Proofs.Dependence
import Mathlib.Tactic.Ring

/-!
# Loops that count

A loop around plain commands that leave its variable, its bound and its step alone does what its FOR
says: the body runs once for each of the values `a`, `a + s`, … that come before the bound, in this
order. Behind the last of them the variable has to take one step more. Where that does not fit an
integer, the loop ends with a fault.
-/
namespace LabelBasic

/-! ### How many rounds there are -/

/-- The value of the variable in the round `k`. -/
def term (a s : Int32) (k : Nat) : Int := a.toInt + k * s.toInt

/-- The number comes before the bound in the direction of the step. -/
def Before (s : Int32) (x : Int) (b : Int32) : Prop :=
  if 0 < s.toInt then x < b.toInt else b.toInt < x

/-- How many of the values `a`, `a + s`, … come before `b`. -/
def roundCount (a b s : Int32) : Nat :=
  if 0 < s.toInt then ((b.toInt - a.toInt + s.toInt - 1) / s.toInt).toNat
  else ((a.toInt - b.toInt - s.toInt - 1) / -s.toInt).toNat

variable {a b s : Int32} {k : Nat}

theorem term_zero (a s : Int32) : term a s 0 = a.toInt := by
  simp [term]

theorem term_succ (a s : Int32) (k : Nat) : term a s (k + 1) = term a s k + s.toInt := by
  simp only [term]
  push_cast
  ring

theorem inRange_term_zero (a s : Int32) : InRange (term a s 0) :=
  term_zero a s ▸ inRange_toInt a

theorem toInt_ne_zero (nonzero : s ≠ 0) : s.toInt ≠ 0 := fun zero =>
  nonzero (Int32.toInt_inj.mp zero)

theorem lt_roundCount_iff (nonzero : s ≠ 0) (k : Nat) :
    k < roundCount a b s ↔ Before s (term a s k) b := by
  have sign := toInt_ne_zero nonzero
  -- A quotient that is rounded down counts the multiples of the step up to the distance.
  simp only [roundCount, Before, term]
  by_cases up : 0 < s.toInt
  · have spread : ((k : Int) + 1) * s.toInt = k * s.toInt + s.toInt := by ring
    rw [if_pos up, if_pos up, Int.lt_toNat, ← Int.add_one_le_iff, Int.le_ediv_iff_mul_le up, spread]
    omega
  · have spread : ((k : Int) + 1) * -s.toInt = -(k * s.toInt) - s.toInt := by ring
    rw [if_neg up, if_neg up, Int.lt_toNat, ← Int.add_one_le_iff,
      Int.le_ediv_iff_mul_le (by omega), spread]
    omega

/-- What comes before the bound lies between the first value and the bound. -/
theorem inRange_of_before (before : Before s (term a s k) b) : InRange (term a s k) := by
  have count : (0 : Int) ≤ k := Int.natCast_nonneg k
  have first := inRange_toInt a
  have last := inRange_toInt b
  simp only [InRange, Before, term] at *
  split at before
  next up =>
    have onward : 0 ≤ k * s.toInt := Int.mul_nonneg count (by omega)
    omega
  next notUp =>
    have back : k * s.toInt ≤ 0 := Int.mul_nonpos_of_nonneg_of_nonpos count (by omega)
    omega

/-- The test of FOR says whether all rounds are done. -/
theorem over_eq_roundCount_le {x : Int32} (nonzero : s ≠ 0) (value : x.toInt = term a s k) :
    (if s < 0 then decide (x ≤ b) else decide (b ≤ x)) = decide (roundCount a b s ≤ k) := by
  have sign := toInt_ne_zero nonzero
  have count : k < roundCount a b s ↔ Before s (term a s k) b := lt_roundCount_iff nonzero k
  have negative : s < 0 ↔ s.toInt < 0 := Int32.lt_iff_toInt_lt
  rw [Bool.eq_iff_iff, decide_eq_true_iff, ← Nat.not_lt, count, Before]
  by_cases up : 0 < s.toInt
  · have notDown : ¬s < 0 := negative.not.mpr (by omega)
    simp only [if_neg notDown, if_pos up, decide_eq_true_iff, Int32.le_iff_toInt_le, value,
      Int.not_lt]
  · have down : s < 0 := negative.mpr (by omega)
    simp only [if_pos down, if_neg up, decide_eq_true_iff, Int32.le_iff_toInt_le, value, Int.not_lt]

/-! ### What plain commands leave alone -/

/-- The variables that a plain command may assign. -/
def Plain.targets : Plain → List Ident
  | assign v _ => [v]
  | read vs => vs
  | input es => Expr.allIdents es
  | print _ | data _ => []

namespace Machine

variable {v w : Ident}

theorem assign_keeps_other (other : v ≠ w) (x : Value) :
    Keeps (fun m => m.store.get? w) (assign v x) := by
  intro m
  simp only [Execution.after, assign]
  cases stored : m.store.store v x with
  | error f => rfl
  | ok store =>
    simp only [Store.store] at stored
    split at stored
    next => cases stored
    next =>
      split at stored
      next fits =>
        cases stored
        simp [Store.get?_insert, other]
      next => cases stored

theorem readItem_keeps_other (other : v ≠ w) (x : Value) :
    Keeps (fun m => m.store.get? w) (readItem v x) := by
  refine Keeps.bind (.modify fun _ => rfl) fun _ _ _ _ => ?_
  split
  · exact (Keeps.throw _).bind fun _ _ _ _ => assign_keeps_other other x
  · exact assign_keeps_other other x

theorem read_keeps_others {targets : List Ident} (others : w ∉ targets) :
    Keeps (fun m => m.store.get? w) (read targets) := by
  refine Keeps.bind (x := get) (fun _ => rfl) fun m _ _ _ => ?_
  have each : ∀ pair ∈ targets.zip m.data,
      Keeps (fun m => m.store.get? w) (readItem pair.1 pair.2) := by
    intro pair member
    refine readItem_keeps_other (fun same => others ?_) pair.2
    exact same ▸ (List.of_mem_zip member).1
  dsimp only
  split
  · exact (Keeps.throw _).bind fun _ _ _ _ => .forM each
  · exact .forM each

theorem inputItem_keeps_others {e : Expr} (others : w ∉ e.idents) :
    Keeps (fun m => m.store.get? w) (inputItem e) := by
  simp only [inputItem]
  split
  · exact fun _ => rfl
  next v =>
    refine Keeps.bind (.onPart reader (fun m reader => { m with reader }) (fun _ _ => rfl) _) ?_
    intro x _ _ _
    exact assign_keeps_other (fun same => others (by simp [Expr.idents, same])) x
  · exact .throw _

theorem printItem_keeps_store (e : Expr) : Keeps store (printItem e) := by
  simp only [printItem]
  split
  · exact fun _ => rfl
  · exact Keeps.bind (.evaluation (fun _ _ => rfl) _) fun _ _ _ _ _ => rfl

end Machine

open Machine

theorem Plain.effect_keeps_others {c : Plain} {w : Ident} (others : w ∉ c.targets) :
    Keeps (fun m => m.store.get? w) c.effect := by
  cases c with
  | assign v e =>
    have other : v ≠ w := fun same => others (List.mem_singleton.mpr same.symm)
    exact Keeps.bind (.evaluation (fun _ _ => rfl) _) fun x _ _ _ => assign_keeps_other other x
  | print es => exact .forM fun e _ m => congrArg (Store.get? · w) (printItem_keeps_store e m)
  | read vs => exact read_keeps_others others
  | input es =>
    exact .forM fun e member =>
      inputItem_keeps_others fun occurs => others (Expr.mem_allIdents member occurs)
  | data es => exact .pure ()

/-- An expression without random numbers keeps its value as long as its variables keep theirs. The
generator may have gone on in between. -/
theorem integer_of_agree {e : Expr} {n : Int32} {m m₁ m' : Machine}
    (calm : Builtin.random ∉ e.builtins) (has : integer e m = .ok n m₁)
    (agree : ∀ w ∈ e.idents, m'.store.get? w = m.store.get? w) : integer e m' = .ok n m' := by
  have carries : Carries (fun _ => m'.generator) (evaluateInteger m.store e) :=
    (carries_composes _).evaluateInteger m.store fun f member =>
      f.call_carries (fun random => calm (random ▸ member)) _
  simp only [integer, onGenerator, onPart] at has ⊢
  rw [evaluateInteger_congr agree]
  cases value : evaluateInteger m.store e m.generator with
  | error f g =>
    rw [value] at has
    cases has
  | ok n' g =>
    rw [value] at has
    cases has
    rw [carries.ok value]

/-! ### Loops around plain commands -/

/-- A FOR, the plain commands behind it with their lines, the line of its NEXT, and whether that names
the variable. -/
structure PlainLoop where
  header : Header
  body : List (Nat × Plain)
  line : Nat
  named : Bool

namespace PlainLoop

def closing (l : PlainLoop) : Instruction := Block.closing l.header l.line l.named

def bodyInstructions (l : PlainLoop) : List Instruction :=
  l.body.map fun c => ⟨c.1, c.2.command⟩

def instructions (l : PlainLoop) : List Instruction :=
  l.header.instruction :: (l.bodyInstructions ++ [l.closing])

def bodyEffect (l : PlainLoop) : Execution Unit := l.body.forM fun c => c.2.effect

/-- The variables that the body may assign. -/
def assigned (l : PlainLoop) : List Ident := l.body.flatMap fun c => c.2.targets

/-- So many rounds: the variable gets the next value, and the body is run. -/
def rounds (l : PlainLoop) (a s : Int32) : Nat → Execution Unit
  | 0 => pure ()
  | k + 1 => do
    l.rounds a s k
    assign l.header.v (.integer (.ofInt (term a s k)))
    l.bodyEffect

/-- The body goes through in each of so many rounds. -/
def BodyGoes (l : PlainLoop) (a s : Int32) (n : Nat) (m : Machine) : Prop :=
  ∀ k < n, ∀ m₁ m₂, l.rounds a s k m = .ok () m₁ →
    assign l.header.v (.integer (.ofInt (term a s k))) m₁ = .ok () m₂ →
      ∃ m₃, l.bodyEffect m₂ = .ok () m₃

/-- The loop counts from `a` to `b` in steps of `s`: its expressions have these values, and what
happens in the loop does not change the bound and the step. -/
structure Counts (l : PlainLoop) (a b s : Int32) (m : Machine) : Prop where
  integer : l.header.v.kind = .integer
  first : ∃ m', Machine.integer l.header.first m = .ok a m'
  last : ∃ m', Machine.integer l.header.last m = .ok b m'
  step : ∃ m', Machine.integer l.header.step m = .ok s m'
  nonzero : s ≠ 0
  calm : ∀ e ∈ [l.header.first, l.header.last, l.header.step], Builtin.random ∉ e.builtins
  steady : ∀ w ∈ l.header.last.idents ++ l.header.step.idents, w ≠ l.header.v ∧ w ∉ l.assigned
  own : l.header.v ∉ l.assigned

/-- The machine is about to enter the loop, of which no frame is open, and there is room for its frame
and its variable. -/
structure EnteredAt (l : PlainLoop) (p : Program) (pc : Nat) (m : Machine) : Prop where
  here : l.instructions <+: p.instructions.toList.drop pc
  calm : m.interrupted = false
  apart : ∀ frame ∈ m.loops.items, frame.header ≠ pc
  room : m.loops.size < Stack.capacity
  free : m.store.size < Store.capacity

variable {l : PlainLoop} {m m' : Machine} {w : Ident}

/-! ### Rounds -/

theorem bodyEffect_oblivious (l : PlainLoop) : Oblivious l.bodyEffect :=
  .forM (fun c => c.2.effect_oblivious) l.body

theorem bodyEffect_keeps_others (others : w ∉ l.assigned) :
    Keeps (fun m => m.store.get? w) l.bodyEffect := by
  refine .forM fun c member => Plain.effect_keeps_others fun target => others ?_
  exact List.mem_flatMap.mpr ⟨c, member, target⟩

theorem rounds_oblivious (l : PlainLoop) (a s : Int32) (k : Nat) : Oblivious (l.rounds a s k) := by
  induction k with
  | zero => exact .pure ()
  | succ k ih => exact ih.bind fun _ => (assign_oblivious _ _).bind fun _ => l.bodyEffect_oblivious

/-- The open loops have nothing to do with the rounds. -/
theorem loops_of_assign {m₁ m₂ : Machine} {x : Value} (went : l.rounds a s k m = .ok () m₁)
    (stored : assign l.header.v x m₁ = .ok () m₂) : m₂.loops = m.loops :=
  ((Keeps.of_oblivious (assign_oblivious _ x)).of_ok stored).trans
    ((Keeps.of_oblivious (l.rounds_oblivious a s k)).of_ok went)

theorem rounds_keeps_others (other : w ≠ l.header.v) (others : w ∉ l.assigned) (k : Nat) :
    Keeps (fun m => m.store.get? w) (l.rounds a s k) := by
  induction k with
  | zero => exact .pure ()
  | succ k ih =>
    refine ih.bind fun _ _ _ _ => (assign_keeps_other other.symm _).bind fun _ _ _ _ => ?_
    exact bodyEffect_keeps_others others

/-- A round comes behind those before it. -/
theorem rounds_succ (went : l.rounds a s (k + 1) m = .ok () m') :
    ∃ m₁ m₂, l.rounds a s k m = .ok () m₁ ∧
      assign l.header.v (.integer (.ofInt (term a s k))) m₁ = .ok () m₂ ∧
      l.bodyEffect m₂ = .ok () m' := by
  obtain ⟨⟨⟩, m₁, before, went⟩ := ok_of_bind went
  obtain ⟨⟨⟩, m₂, stored, ran⟩ := ok_of_bind went
  exact ⟨m₁, m₂, before, stored, ran⟩

/-- If so many rounds go through, fewer do. -/
theorem rounds_of_le {n : Nat} (le : k ≤ n) (went : l.rounds a s n m = .ok () m') :
    ∃ m₁, l.rounds a s k m = .ok () m₁ := by
  induction le generalizing m' with
  | refl => exact ⟨m', went⟩
  | step _ ih =>
    obtain ⟨m₁, _, before, _⟩ := rounds_succ went
    exact ih before

theorem bodyGoes_of_rounds {n : Nat} (went : l.rounds a s n m = .ok () m') :
    l.BodyGoes a s n m := by
  intro k lt m₁ m₂ before stored
  obtain ⟨m₃, upTo⟩ := rounds_of_le (Nat.succ_le_of_lt lt) went
  obtain ⟨m₁', m₂', before', stored', ran⟩ := rounds_succ upTo
  -- The round before and the assignment lead to one machine only.
  cases before.symm.trans before'
  cases stored.symm.trans stored'
  exact ⟨m₃, ran⟩

namespace Counts

variable {m₁ m₂ : Machine} (counts : l.Counts a b s m)

include counts

theorem inRange_of_lt (lt : k < roundCount a b s) : InRange (term a s k) :=
  inRange_of_before ((lt_roundCount_iff counts.nonzero k).mp lt)

theorem step_of_rounds (went : l.rounds a s k m = .ok () m₁) :
    Machine.integer l.header.step m₁ = .ok s m₁ := by
  obtain ⟨_, has⟩ := counts.step
  refine integer_of_agree (counts.calm _ (by simp)) has fun w occurs => ?_
  obtain ⟨other, others⟩ := counts.steady w (List.mem_append_right _ occurs)
  exact (rounds_keeps_others other others k).of_ok went

/-- The bound is evaluated when the variable already has its next value. -/
theorem last_of_assign {x : Value} (went : l.rounds a s k m = .ok () m₁)
    (stored : assign l.header.v x m₁ = .ok () m₂) :
    Machine.integer l.header.last m₂ = .ok b m₂ := by
  obtain ⟨_, has⟩ := counts.last
  refine integer_of_agree (counts.calm _ (by simp)) has fun w occurs => ?_
  obtain ⟨other, others⟩ := counts.steady w (List.mem_append_left _ occurs)
  exact ((assign_keeps_other other.symm x).of_ok stored).trans
    ((rounds_keeps_others other others k).of_ok went)

theorem get?_of_rounds (went : l.rounds a s (k + 1) m = .ok () m₁) :
    m₁.store.get? l.header.v = some (.integer (.ofInt (term a s k))) := by
  obtain ⟨_, _, _, stored, ran⟩ := rounds_succ went
  exact ((bodyEffect_keeps_others counts.own).of_ok ran).trans (get?_of_assign stored)

theorem further_of_rounds (lt : k < roundCount a b s) (went : l.rounds a s (k + 1) m = .ok () m₁) :
    l.header.further s m₁ = (ofExcept (checked (term a s (k + 1))) : Execution Int32) m₁ := by
  rw [Header.further_eq (counts.get?_of_rounds went), term_succ,
    toInt_ofInt_of_inRange (counts.inRange_of_lt lt)]

theorem value_of_rounds (le : k ≤ roundCount a b s) (fits : InRange (term a s k))
    (went : l.rounds a s k m = .ok () m₁) :
    l.header.value (decide (0 < k)) s m₁ = .ok (.ofInt (term a s k)) m₁ := by
  cases k with
  | zero =>
    -- Before the first round nothing has happened, and FOR evaluates its first value.
    cases went
    obtain ⟨_, has⟩ := counts.first
    rw [term_zero, Int32.ofInt_toInt]
    exact integer_of_agree (counts.calm _ (by simp)) has fun _ _ => rfl
  | succ k =>
    have further := counts.further_of_rounds (Nat.lt_of_succ_le le) went
    rw [checked_of_inRange fits] at further
    rw [decide_eq_true k.succ_pos]
    exact further

/-- There is room for the variable in the first round, and later it is there. -/
theorem assign_of_rounds (free : m.store.size < Store.capacity) (x : Int32)
    (went : l.rounds a s k m = .ok () m₁) :
    ∃ m₂, assign l.header.v (.integer x) m₁ = .ok () m₂ := by
  have fitting : (Value.integer x).kind = l.header.v.kind := counts.integer.symm
  cases k with
  | zero =>
    cases went
    exact ⟨_, assign_of_room fitting (.inr free)⟩
  | succ k => exact ⟨_, assign_of_get? (counts.get?_of_rounds went) fitting⟩

/-- If no body fails, all rounds go through. -/
theorem exists_rounds (free : m.store.size < Store.capacity)
    (goes : l.BodyGoes a s (roundCount a b s) m) (le : k ≤ roundCount a b s) :
    ∃ m₁, l.rounds a s k m = .ok () m₁ := by
  induction k with
  | zero => exact ⟨m, rfl⟩
  | succ k ih =>
    obtain ⟨m₁, before⟩ := ih (Nat.le_of_succ_le le)
    obtain ⟨m₂, stored⟩ := counts.assign_of_rounds free (.ofInt (term a s k)) before
    obtain ⟨m₃, ran⟩ := goes k le m₁ m₂ before stored
    refine ⟨m₃, ?_⟩
    rw [rounds, bind_of_ok before, bind_of_ok stored, ran]

/-- FOR finds the loop over just when all rounds are done. -/
theorem test_of_rounds (le : k ≤ roundCount a b s) (fits : InRange (term a s k))
    (went : l.rounds a s k m = .ok () m₁)
    (stored : assign l.header.v (.integer (.ofInt (term a s k))) m₁ = .ok () m₂) :
    l.header.test (decide (0 < k)) m₁ = .ok (decide (roundCount a b s ≤ k)) m₂ := by
  rw [Header.test, bind_of_ok (counts.step_of_rounds went),
    bind_of_ok (counts.value_of_rounds le fits went), bind_of_ok stored,
    bind_of_ok (counts.last_of_assign went stored),
    ← over_eq_roundCount_le counts.nonzero (toInt_ofInt_of_inRange fits)]
  rfl

theorem test_of_overflow (le : k ≤ roundCount a b s) (outside : ¬InRange (term a s k))
    (went : l.rounds a s k m = .ok () m₁) :
    l.header.test (decide (0 < k)) m₁ = .error .overflow m₁ := by
  cases k with
  | zero => exact absurd (inRange_term_zero a s) outside
  | succ k =>
    have further := counts.further_of_rounds (Nat.lt_of_succ_le le) went
    rw [checked_of_not_inRange outside] at further
    have value : l.header.value true s m₁ = .error .overflow m₁ := further
    rw [decide_eq_true k.succ_pos, Header.test, bind_of_ok (counts.step_of_rounds went),
      bind_of_error value]

end Counts

end PlainLoop

/-! ### Runs that nothing interrupts for a while -/

/-- The steps of instructions that are run one after the other from an address on. -/
def stepsOver (pc : Nat) : List Instruction → List Step
  | [] => []
  | i :: is => ⟨pc, i⟩ :: stepsOver (pc + 1) is

theorem length_stepsOver (pc : Nat) (is : List Instruction) :
    (stepsOver pc is).length = is.length := by
  induction is generalizing pc with
  | nil => rfl
  | cons i is ih => rw [stepsOver, List.length_cons, ih, List.length_cons]

theorem stepsOver_append (pc : Nat) (is js : List Instruction) :
    stepsOver pc (is ++ js) = stepsOver pc is ++ stepsOver (pc + is.length) js := by
  induction is generalizing pc with
  | nil => rfl
  | cons i is ih =>
    rw [List.cons_append, stepsOver, stepsOver, ih, List.cons_append, List.length_cons,
      Nat.add_right_comm, Nat.add_assoc]

namespace Machine

/-- No interrupt comes in so many turns behind the first ones. -/
def Quiet (signals : Nat → Bool) (first count : Nat) : Prop :=
  ∀ k, first < k → k ≤ first + count → signals k = false

section

variable {signals : Nat → Bool} {first count : Nat} (quiet : Quiet signals first count)

include quiet

theorem Quiet.next {n : Nat} (after : first ≤ n) (before : n < first + count) :
    signals (n + 1) = false :=
  quiet (n + 1) (Nat.lt_succ_of_le after) before

theorem Quiet.within {n k : Nat} (after : first ≤ n) (before : n + k ≤ first + count) :
    Quiet signals n k :=
  fun _ behind upTo => quiet _ (Nat.lt_of_le_of_lt after behind) (Nat.le_trans upTo before)

end

namespace Running

variable {p : Program} {signals : Nat → Bool} {start m m' : Machine} {steps : Array Step}
  {pc : Nat}

theorem quietTurn {i : Instruction} {next : Nat} (running : Running p signals start steps pc m)
    (quiet : signals (steps.size + 1) = false) (found : p.at? pc = some i)
    (calm : m.interrupted = false) (performed : perform p pc i m = (.goOn next, m')) :
    Running p signals start (steps.push ⟨pc, i⟩) next m' := by
  refine running.turn found calm ?_
  rw [quiet]
  exact performed

theorem quietFailure {i : Instruction} {f : Fault} (running : Running p signals start steps pc m)
    (quiet : signals (steps.size + 1) = false) (found : p.at? pc = some i)
    (calm : m.interrupted = false) (performed : perform p pc i m = (.failed f, m')) :
    ∃ fuel, start.run p signals fuel =
      some ⟨m', some (f.report.atLine i.line), steps.push ⟨pc, i⟩⟩ := by
  refine run_ends_iff.mpr ⟨steps, pc, m, running, .failed found calm ?_⟩
  rw [quiet]
  exact performed

/-- Plain commands are run one after the other, inside of any loops. -/
theorem overPlain {loops : Stack Frame}
    (running : Running p signals start steps pc (m.withLoops loops)) (cs : List (Nat × Plain))
    (quiet : Quiet signals steps.size cs.length)
    (here : cs.map (fun c => ⟨c.1, c.2.command⟩) <+: p.instructions.toList.drop pc)
    (calm : m.interrupted = false)
    (ran : (cs.forM fun c => c.2.effect : Execution PUnit) m = .ok ⟨⟩ m') :
    Running p signals start
      (steps ++ (stepsOver pc (cs.map fun c => ⟨c.1, c.2.command⟩)).toArray) (pc + cs.length)
      (m'.withLoops loops) := by
  induction cs generalizing steps pc m with
  | nil =>
    cases ran
    simpa [stepsOver] using running
  | cons c cs ih =>
    obtain ⟨⟨⟩, m₁, first, rest⟩ := ok_of_bind ran
    have turned := running.quietTurn (quiet.next (Nat.le_refl _) (by simp))
      (Program.at?_of_prefix here) calm (Plain.perform_ok first loops)
    have further := ih turned (quiet.within (by simp) (by simp; omega)) (Program.prefix_tail here)
      ((c.2.effect_oblivious.interrupted_eq first).trans calm) rest
    rw [List.length_cons, Nat.add_comm cs.length 1, ← Nat.add_assoc]
    simpa [stepsOver] using further

end Running

end Machine

theorem Program.closing?_plain (cs : List (Nat × Plain)) (v : Ident) (depth i : Nat)
    (rest : List Instruction) :
    closing? v depth i (cs.map (fun c => ⟨c.1, c.2.command⟩) ++ rest) =
      closing? v depth (i + cs.length) rest := by
  induction cs generalizing i with
  | nil => rfl
  | cons c cs ih =>
    rw [List.length_cons, Nat.add_comm cs.length 1, ← Nat.add_assoc, ← ih]
    obtain ⟨line, c⟩ := c
    cases c <;> rfl

/-! ### The loop in a run -/

namespace PlainLoop

variable {l : PlainLoop} {m m' m₁ m₂ m₃ : Machine} {p : Program} {pc : Nat}

/-- The step at the FOR. -/
def entry (l : PlainLoop) (pc : Nat) : Step := ⟨pc, l.header.instruction⟩

/-- The steps of so many rounds. -/
def trace (l : PlainLoop) (pc k : Nat) : List Step :=
  (List.replicate k (stepsOver pc l.instructions)).flatten

theorem trace_succ (l : PlainLoop) (pc k : Nat) :
    l.trace pc (k + 1) = l.trace pc k ++ stepsOver pc l.instructions := by
  simp [trace, List.replicate_succ']

theorem length_trace (l : PlainLoop) (pc k : Nat) :
    (l.trace pc k).length = k * (l.body.length + 2) := by
  simp [trace, length_stepsOver, instructions, bodyInstructions]

theorem stepsOver_instructions (l : PlainLoop) (pc : Nat) :
    stepsOver pc l.instructions = l.entry pc ::
      (stepsOver (pc + 1) l.bodyInstructions ++ [⟨pc + 1 + l.body.length, l.closing⟩]) := by
  rw [instructions, stepsOver, stepsOver_append, bodyInstructions, List.length_map]
  rfl

namespace EnteredAt

variable (entered : l.EnteredAt p pc m)

include entered

theorem body_here :
    l.bodyInstructions <+: p.instructions.toList.drop (pc + 1) :=
  (List.prefix_append _ _).trans (Program.prefix_tail entered.here)

theorem closing_at : p.at? (pc + 1 + l.body.length) = some l.closing := by
  have closes := Program.prefix_drop (Program.prefix_tail entered.here)
  rw [bodyInstructions, List.length_map] at closes
  exact Program.at?_of_prefix closes

/-- The first NEXT behind the FOR is that of the loop. -/
theorem matchingNext : p.matchingNext? pc l.header.v = some (pc + 1 + l.body.length) := by
  obtain ⟨others, eq⟩ := Program.prefix_tail entered.here
  rw [Program.matchingNext?, ← eq, bodyInstructions, List.append_assoc, Program.closing?_plain]
  simp only [List.cons_append, closing, Block.closing, Program.closing?, or_true, if_true]

theorem calm_of_rounds (went : l.rounds a s k m = .ok () m₁) : m₁.interrupted = false :=
  ((l.rounds_oblivious a s k).interrupted_eq went).trans entered.calm

theorem stands (integer : l.header.v.kind = .integer) :
    l.header.StandsAt p pc (pc + 1 + l.body.length + 1) m.loops where
  here := Program.at?_of_prefix entered.here
  integer := integer
  apart := entered.apart
  room := entered.room
  exit := Header.loopExit_of_matchingNext entered.matchingNext entered.closing_at

end EnteredAt

section

variable {signals : Nat → Bool} {start : Machine} {steps : Array Step}

/-- A machine that has made so many rounds is at the FOR, and its frame is open from the second visit
on. -/
def AtHeader (l : PlainLoop) (p : Program) (signals : Nat → Bool) (start : Machine)
    (steps : Array Step) (pc k : Nat) (loops : Stack Frame) (m : Machine) : Prop :=
  Running p signals start (steps ++ (l.trace pc k).toArray) pc
    (m.withLoops (l.header.frames pc loops (decide (0 < k))))

theorem quiet_atHeader
    (quiet : Quiet signals steps.size (roundCount a b s * (l.body.length + 2) + 1))
    (le : k ≤ roundCount a b s) :
    signals ((steps ++ (l.trace pc k).toArray).size + 1) = false := by
  have rounds : k * (l.body.length + 2) ≤ roundCount a b s * (l.body.length + 2) :=
    Nat.mul_le_mul_right _ le
  refine quiet.next (by simp) ?_
  simp only [Array.size_append, List.size_toArray, length_trace]
  omega

variable (entered : l.EnteredAt p pc m) (counts : l.Counts a b s m)
  (quiet : Quiet signals steps.size (roundCount a b s * (l.body.length + 2) + 1))

include entered counts quiet

/-- One round in a run: FOR into the body, the body to its NEXT, and NEXT back to the FOR. -/
theorem running_round (lt : k < roundCount a b s) (went : l.rounds a s k m = .ok () m₁)
    (stored : assign l.header.v (.integer (.ofInt (term a s k))) m₁ = .ok () m₂)
    (ran : l.bodyEffect m₂ = .ok () m₃)
    (atHeader : l.AtHeader p signals start steps pc k m.loops m₁) :
    Running p signals start (steps ++ (l.trace pc k ++ [l.entry pc]).toArray)
        (pc + 1) (m₂.withLoops (m.loops.cons ⟨l.header.v, pc⟩)) ∧
      Running p signals start (steps ++ (l.trace pc k ++
          l.entry pc :: stepsOver (pc + 1) l.bodyInstructions).toArray)
        (pc + 1 + l.body.length) (m₃.withLoops (m.loops.cons ⟨l.header.v, pc⟩)) ∧
      l.AtHeader p signals start steps pc (k + 1) m.loops m₃ := by
  have stands := entered.stands counts.integer
  have tested := counts.test_of_rounds (Nat.le_of_lt lt) (counts.inRange_of_lt lt) went stored
  rw [decide_eq_false (Nat.not_le.mpr lt)] at tested
  have calm₁ := entered.calm_of_rounds went
  have calm₂ : m₂.interrupted = false :=
    ((assign_oblivious _ _).interrupted_eq stored).trans calm₁
  have calm₃ : m₃.interrupted = false := (l.bodyEffect_oblivious.interrupted_eq ran).trans calm₂
  -- A round takes as many turns as there are instructions, and this one is not behind the last.
  have rounds : (k + 1) * (l.body.length + 2) ≤ roundCount a b s * (l.body.length + 2) :=
    Nat.mul_le_mul_right _ lt
  have begun := l.length_trace pc k
  rw [Nat.succ_mul] at rounds
  have inside := atHeader.quietTurn (quiet_atHeader quiet (Nat.le_of_lt lt)) stands.here calm₁
    (stands.perform_inside tested)
  have through := inside.overPlain l.body (quiet.within (by simp) (by simp [begun]; omega))
    entered.body_here calm₂ ran
  have back := through.quietTurn
    (quiet.next (by simp) (by simp [begun, length_stepsOver]; omega)) entered.closing_at calm₃
    Header.perform_closing
  refine ⟨by simpa [entry] using inside, by simpa [bodyInstructions, entry] using through, ?_⟩
  rw [AtHeader, trace_succ, stepsOver_instructions, decide_eq_true k.succ_pos]
  simpa [bodyInstructions, entry, Header.frames] using back

/-- A run of the program makes the rounds. -/
theorem atHeader_of_rounds (running : Running p signals start steps pc m)
    (le : k ≤ roundCount a b s) (went : l.rounds a s k m = .ok () m₁) :
    l.AtHeader p signals start steps pc k m.loops m₁ := by
  -- By induction on the rounds: each of them leads from the FOR back to the FOR.
  induction k generalizing m₁ with
  | zero =>
    cases went
    simpa [AtHeader, trace, Header.frames] using running
  | succ k ih =>
    obtain ⟨m₂, m₃, before, stored, ran⟩ := rounds_succ went
    have atHeader := ih (Nat.le_of_succ_le le) before
    exact (running_round entered counts quiet le before stored ran atHeader).2.2

/-- Behind the last round the loop is over, if its variable can take one step more. -/
theorem running_over (fits : InRange (term a s (roundCount a b s)))
    (went : l.rounds a s (roundCount a b s) m = .ok () m₁)
    (stored : assign l.header.v (.integer (.ofInt (term a s (roundCount a b s)))) m₁ = .ok () m₂)
    (atHeader : l.AtHeader p signals start steps pc (roundCount a b s) m.loops m₁) :
    Running p signals start
      (steps ++ (l.trace pc (roundCount a b s) ++ [l.entry pc]).toArray)
      (pc + 1 + l.body.length + 1) m₂ := by
  have stands := entered.stands counts.integer
  have tested := counts.test_of_rounds (Nat.le_refl _) fits went stored
  rw [decide_eq_true (Nat.le_refl _)] at tested
  have calm := entered.calm_of_rounds went
  have behind := atHeader.quietTurn (quiet_atHeader quiet (Nat.le_refl _)) stands.here calm
    (stands.perform_over tested)
  rw [← loops_of_assign went stored] at behind
  simpa [entry] using behind

/-- The loop fails behind the last round if its variable cannot take one step more. -/
theorem stops_of_overflow (outside : ¬InRange (term a s (roundCount a b s)))
    (went : l.rounds a s (roundCount a b s) m = .ok () m₁)
    (atHeader : l.AtHeader p signals start steps pc (roundCount a b s) m.loops m₁) :
    ∃ fuel, start.run p signals fuel = some
      ⟨m₁.withLoops (m.loops.cons ⟨l.header.v, pc⟩),
        some (Fault.overflow.report.atLine l.header.line),
        steps ++ (l.trace pc (roundCount a b s) ++ [l.entry pc]).toArray⟩ := by
  have stands := entered.stands counts.integer
  have failed := counts.test_of_overflow (Nat.le_refl _) outside went
  have some : 0 < roundCount a b s :=
    Nat.pos_of_ne_zero fun none => outside (none ▸ inRange_term_zero a s)
  have calm := entered.calm_of_rounds went
  have fails := atHeader.quietFailure (quiet_atHeader quiet (Nat.le_refl _)) stands.here calm
    (stands.perform_error failed)
  rw [decide_eq_true some] at fails
  simpa [entry, Header.frames, Header.instruction] using fails

end

end PlainLoop

open PlainLoop

/-- A loop that counts from `a` to `b` in steps of `s` runs its body once for each of the values that
come before the bound, in this order and with the variable at that value. If its variable can take one
step more, the run goes on behind the NEXT with that value and the open loops as before. Otherwise it
fails at the FOR, and the variable keeps its last value. -/
theorem counted_loop_runs_exactly {p : Program} {signals : Nat → Bool} {start m : Machine}
    {steps : Array Step} {pc : Nat} {l : PlainLoop} {a b s : Int32}
    (running : Running p signals start steps pc m) (entered : l.EnteredAt p pc m)
    (counts : l.Counts a b s m)
    (quiet : Quiet signals steps.size (roundCount a b s * (l.body.length + 2) + 1))
    (goes : l.BodyGoes a s (roundCount a b s) m) :
    (∀ k, k < roundCount a b s ↔ Before s (term a s k) b) ∧
    (∀ k < roundCount a b s, ∃ x m₁ m₂, x.toInt = term a s k ∧
      m₁.store.get? l.header.v = some (.integer x) ∧ l.bodyEffect m₁ = .ok () m₂ ∧
      Running p signals start (steps ++ (l.trace pc k ++ [l.entry pc]).toArray) (pc + 1) m₁ ∧
      Running p signals start (steps ++ (l.trace pc k ++
        l.entry pc :: stepsOver (pc + 1) l.bodyInstructions).toArray) (pc + 1 + l.body.length) m₂) ∧
    ∃ m', l.rounds a s (roundCount a b s) m = .ok () m' ∧
      (roundCount a b s = 0 ∨ InRange (term a s (roundCount a b s)) →
        ∃ x m₁, x.toInt = term a s (roundCount a b s) ∧
          assign l.header.v (.integer x) m' = .ok () m₁ ∧
          m₁.store.get? l.header.v = some (.integer x) ∧ m₁.loops = m.loops ∧
          Running p signals start
            (steps ++ (l.trace pc (roundCount a b s) ++ [l.entry pc]).toArray)
            (pc + 1 + l.body.length + 1) m₁) ∧
      (¬(roundCount a b s = 0 ∨ InRange (term a s (roundCount a b s))) →
        ∃ x fuel, x.toInt = term a s (roundCount a b s - 1) ∧
          m'.store.get? l.header.v = some (.integer x) ∧
          start.run p signals fuel = some
            ⟨m'.withLoops (m.loops.cons ⟨l.header.v, pc⟩),
              some (Fault.overflow.report.atLine l.header.line),
              steps ++ (l.trace pc (roundCount a b s) ++ [l.entry pc]).toArray⟩) := by
  have atHeader : ∀ {k m₁}, k ≤ roundCount a b s → l.rounds a s k m = .ok () m₁ →
      l.AtHeader p signals start steps pc k m.loops m₁ :=
    atHeader_of_rounds entered counts quiet running
  obtain ⟨m', all⟩ := counts.exists_rounds entered.free goes (Nat.le_refl _)
  refine ⟨lt_roundCount_iff counts.nonzero, ?_, m', all, ?_, ?_⟩
  · intro k lt
    obtain ⟨m₃, upTo⟩ := counts.exists_rounds entered.free goes lt
    obtain ⟨m₁, m₂, before, stored, ran⟩ := rounds_succ upTo
    obtain ⟨inside, through, _⟩ := running_round entered counts quiet lt before stored ran
      (atHeader (Nat.le_of_lt lt) before)
    have given := get?_of_assign stored
    let inner := m.loops.cons ⟨l.header.v, pc⟩
    exact ⟨.ofInt (term a s k), m₂.withLoops inner, m₃.withLoops inner,
      toInt_ofInt_of_inRange (counts.inRange_of_lt lt), given,
      l.bodyEffect_oblivious.ok_withLoops ran inner, inside, through⟩
  · intro fits
    have fits : InRange (term a s (roundCount a b s)) := by
      rcases fits with none | fits
      · exact none ▸ inRange_term_zero a s
      · exact fits
    obtain ⟨m₁, stored⟩ := counts.assign_of_rounds entered.free (.ofInt (term a s _)) all
    refine ⟨_, m₁, toInt_ofInt_of_inRange fits, stored, get?_of_assign stored, ?_, ?_⟩
    · exact loops_of_assign all stored
    · exact running_over entered counts quiet fits all stored (atHeader (Nat.le_refl _) all)
  -- A first value always fits, so a last round has given the variable its value.
  · intro overflows
    obtain ⟨some, outside⟩ := not_or.mp overflows
    obtain ⟨n, count⟩ := Nat.exists_eq_succ_of_ne_zero some
    obtain ⟨fuel, ended⟩ := stops_of_overflow entered counts quiet outside all
      (atHeader (Nat.le_refl _) all)
    have last : n < roundCount a b s := count ▸ Nat.lt_succ_self n
    refine ⟨.ofInt (term a s n), fuel, ?_, ?_, ended⟩
    · rw [count]
      exact toInt_ofInt_of_inRange (counts.inRange_of_lt last)
    · rw [count] at all
      exact counts.get?_of_rounds all

private def nearTheGreatest : PlainLoop where
  header := ⟨1, ⟨"i"⟩, .literal (.integer 2147483640), .literal (.integer 2147483647),
    .literal (.integer 3)⟩
  body := [(2, .print [.variable ⟨"i"⟩])]
  line := 3
  named := false

private def nearProgram : Program := ⟨nearTheGreatest.instructions.toArray, [], []⟩

private def nearStart : Machine := .initial nearProgram (.ofSeed 0) (.ofBytes [])

private theorem counts_nearTheGreatest :
    nearTheGreatest.Counts 2147483640 2147483647 3 nearStart where
  integer := rfl
  first := ⟨_, rfl⟩
  last := ⟨_, rfl⟩
  step := ⟨_, rfl⟩
  nonzero := by decide
  calm := by decide
  steady := nofun
  own := nofun

/-- The machine after the rounds, if they go through. -/
private def nearEnd? : Option Machine :=
  match nearTheGreatest.rounds 2147483640 3 3 nearStart with
  | .ok _ m => some m
  | .error .. => none

/-- Three values come before the bound, and the fourth does not fit. -/
theorem counted_loop_runs_exactly_near_the_greatest :
    roundCount 2147483640 2147483647 3 = 3 ∧
      ∃ (m' : Machine) (x : Int32) (fuel : Nat), nearEnd? = some m' ∧ x.toInt = 2147483646 ∧
        m'.store.get? ⟨"i"⟩ = some (.integer x) ∧
        (nearStart.run nearProgram (fun _ => false) fuel).map Run.failure? =
          some (some (Fault.overflow.report.atLine 1)) := by
  have count : roundCount 2147483640 2147483647 3 = 3 := by decide
  have through : nearEnd?.isSome := by decide +kernel
  obtain ⟨m', goes⟩ : ∃ m', nearTheGreatest.rounds 2147483640 3 3 nearStart = .ok () m' := by
    simp only [nearEnd?] at through
    cases ran : nearTheGreatest.rounds 2147483640 3 3 nearStart with
    | ok _ m' => exact ⟨m', rfl⟩
    | error => simp [ran] at through
  have entered : nearTheGreatest.EnteredAt nearProgram 0 nearStart :=
    ⟨List.prefix_rfl, rfl, nofun, by decide, by decide⟩
  have running : Running nearProgram (fun _ => false) nearStart #[] 0 nearStart := .start
  obtain ⟨_, _, m₁, all, _, overflows⟩ := counted_loop_runs_exactly running entered
    counts_nearTheGreatest (fun _ _ _ => rfl) (count ▸ bodyGoes_of_rounds goes)
  obtain rfl : m₁ = m' := by
    rw [count] at all
    cases all.symm.trans goes
    rfl
  obtain ⟨x, fuel, last, given, ended⟩ := overflows (by rw [count]; decide)
  refine ⟨count, m₁, x, fuel, ?_, ?_, given, ?_⟩
  · simp only [nearEnd?, goes]
  · rw [last, count]
    rfl
  · rw [ended]
    rfl

end LabelBasic
