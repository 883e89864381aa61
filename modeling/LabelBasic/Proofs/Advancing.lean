import LabelBasic.Proofs.Balance
import LabelBasic.Proofs.Calls
import LabelBasic.Proofs.Chains
import LabelBasic.Proofs.Continuing
import LabelBasic.Proofs.Interruption

/-!
# Runs go forward

Control goes on ahead from every instruction that performs no NEXT, GOSUB or RETURN, itself or in
the place of an IF: to the next instruction, or behind a NEXT that a FOR has found further on. So
there are no more instructions between two of these three than the program has, and without them a
program always ends.
-/
namespace LabelBasic

/-- The command may lead back: NEXT, GOSUB or RETURN. -/
def Command.IsTransfer : Command → Prop
  | .next _ | .gosub _ | .ret => True
  | _ => False

/-- A jump leads ahead, at most to right behind the last instruction. -/
def Flow.Ahead (p : Program) (pc : Nat) : Flow → Prop
  | .jump n => pc < n ∧ n ≤ p.size
  | .next | .halt => True

theorem Yields.any {ε σ α : Type} {x : EStateM ε σ α} :
    Yields (fun _ => True) (fun _ => True) x := by
  intro s
  split <;> trivial

namespace Machine

/-- The instruction performs a NEXT, GOSUB or RETURN, itself or in the place of an IF. -/
def Transfers (p : Program) (i : Instruction) (m : Machine) : Prop :=
  ∃ c m', comesTo? p branchLimit i.command m = some (c, m') ∧ c.IsTransfer

/-- The three may lead to this address: to a loop that is open, a label or an address to return
to. -/
def MayLeadTo (p : Program) (m : Machine) (n : Nat) : Prop :=
  (∃ frame ∈ m.loops.items, frame.header = n) ∨ (∃ name, p.label? name = some n) ∨
    n ∈ m.calls.items

variable {p : Program} {pc depth next : Nat} {c : Command} {i : Instruction} {m m' : Machine}

/-! ### Commands that lead ahead -/

theorem loopExit_ahead (v : Ident) :
    Yields (Flow.Ahead p pc) (fun _ => True) (loopExit p pc v) := by
  simp only [loopExit]
  split
  next => exact .throw trivial
  next j found =>
    obtain ⟨past, _, _, there, _⟩ := (Program.isLeast_of_matchingNext? found).1
    have inside : j < p.size := (Array.getElem?_eq_some_iff.mp there).1
    have behind : Flow.Ahead p pc (.jump (j + 1)) := ⟨Nat.lt_succ_of_lt past, inside⟩
    split
    · exact .ite (fun _ => .pure behind) fun _ => .pure ⟨past, inside.le⟩
    · exact .pure behind

theorem loop_ahead (v : Ident) (first last step : Expr) :
    Yields (Flow.Ahead p pc) (fun _ => True) (loop p pc v first last step) := by
  simp only [loop]
  refine .check (fun _ => trivial) fun _ => Yields.get.bind fun m _ => ?_
  refine Yields.any.bind fun s _ => Yields.any.bind fun n _ => ?_
  refine Yields.any.bind fun _ _ => Yields.any.bind fun bound _ => ?_
  refine .ite (fun _ => .ite (fun _ => ?_) fun _ => .pure trivial) fun _ => ?_
  · exact Yields.any.bind fun _ _ => loopExit_ahead v
  · refine Yields.modify.bind fun _ _ => .ite (fun _ => loopExit_ahead v) fun _ => ?_
    exact Yields.any.bind fun _ _ => .pure trivial

theorem execute_ahead (p : Program) (pc depth : Nat) (noBranch : ¬c.IsBranch)
    (noTransfer : ¬c.IsTransfer) :
    Yields (Flow.Ahead p pc) (fun _ => True) (execute p pc depth c) := by
  cases c <;> unfold execute
  case next | gosub | ret => exact absurd trivial noTransfer
  case branch => exact absurd trivial noBranch
  case loop v first last step => exact loop_ahead v first last step
  case assign => exact Yields.any.bind fun _ _ => Yields.any.bind fun _ _ => .pure trivial
  case print | read | input => exact Yields.any.bind fun _ _ => .pure trivial
  case data | stop => exact .pure trivial
  case whileLoop => exact .throw trivial

/-! ### Commands that may lead back -/

theorem next_jump {w : Option Ident} (jumps : Machine.next w m = .ok (.jump next) m') :
    ∃ frame ∈ m.loops.items, frame.header = next := by
  rcases exists_suits_or_none w m.loops.items with
    none | ⟨inner, frame, outer, items, others, suits⟩
  · cases (next_of_none_suits none).symm.trans jumps
  · cases (next_of_suits items others suits).symm.trans jumps
    exact ⟨frame, by simp [items], rfl⟩

theorem gosub_jump {name : String} (jumps : gosub p pc name m = .ok (.jump next) m') :
    p.label? name = some next := by
  obtain ⟨target, _, known, jumps⟩ := ok_of_bind jumps
  obtain ⟨_, _, _, jumps⟩ := ok_of_bind jumps
  cases jumps
  cases defined : p.label? name with
  | none => cases (label_of_none defined m).symm.trans known
  | some target =>
    cases (label_of_some defined m).symm.trans known
    rfl

theorem ret_jump (jumps : ret m = .ok (.jump next) m') : next ∈ m.calls.items := by
  cases top : m.calls.top? with
  | none => cases (ret_of_empty top).symm.trans jumps
  | some back =>
    cases (ret_of_top top).symm.trans jumps
    exact List.mem_of_mem_head? top

theorem mayLeadTo_of_transfer (transfer : c.IsTransfer)
    (jumps : execute p pc depth c m = .ok (.jump next) m') : MayLeadTo p m next := by
  cases c <;> unfold execute at jumps
  case next => exact .inl (next_jump jumps)
  case gosub name => exact .inr (.inl ⟨name, gosub_jump jumps⟩)
  case ret => exact .inr (.inr (ret_jump jumps))
  all_goals exact transfer.elim

/-! ### One instruction -/

/-- Where IFs come to no command to run, control goes on to the next instruction. -/
theorem flow_of_nowhere {flow : Flow} (nowhere : comesTo? p depth c m = none)
    (ok : execute p pc depth c m = .ok flow m') : flow = .next := by
  have ended : Nowhere p (.ok flow m') := ok ▸ execute_nowhere nowhere
  cases ended with
  | onward => rfl

/-- An instruction that does not end the run leads ahead, or it performs one of the three and leads
to where they may. -/
theorem ahead_or_transfers (found : p.at? pc = some i)
    (performed : perform p pc i m = (.goOn next, m')) :
    pc < next ∧ next ≤ p.size ∨ Transfers p i m ∧ MayLeadTo p m next := by
  have inside : pc < p.size := (Array.getElem?_eq_some_iff.mp found).1
  simp only [perform] at performed
  split at performed
  next =>
    cases performed
    exact .inl ⟨Nat.lt_succ_self pc, inside⟩
  next jumps =>
    cases performed
    rcases execute_cases p pc branchLimit i.command m with
      ⟨c, m₁, left, comes, noBranch, same, eq⟩ | ⟨nowhere, _⟩
    · rw [eq] at jumps
      -- The loops and calls are still those from before the IFs.
      by_cases transfer : c.IsTransfer
      · have leads := mayLeadTo_of_transfer transfer jumps
        have loops : m₁.loops = m.loops := part_of_besides (fun _ _ => rfl) same
        rw [MayLeadTo, loops, calls_of_besides same] at leads
        exact .inr ⟨⟨c, m₁, comes, transfer⟩, leads⟩
      · exact .inl ((execute_ahead p pc left noBranch transfer).of_ok jumps)
    · cases flow_of_nowhere nowhere jumps
  next => cases performed
  next => cases performed

theorem lt_of_not_transfers (found : p.at? pc = some i)
    (performed : perform p pc i m = (.goOn next, m')) (other : ¬Transfers p i m) :
    pc < next ∧ next ≤ p.size :=
  (ahead_or_transfers found performed).resolve_right fun transfers => other transfers.1

/-! ### In every run -/

/-- No run leaves the program, except to right behind it. -/
theorem Reached.address_le {start : Machine} {past : List Visit}
    (inside : ∀ d ∈ p.labels, d.2 < p.size) (noLoops : start.loops = .empty)
    (noCalls : start.calls = .empty) (reached : Reached p start past pc m) : pc ≤ p.size := by
  cases reached with
  | @turn _ pc m _ i turn comes reached found _ performed =>
    cases turn with
    | halted | failed => exact Nat.zero_le _
    | goOn next =>
      change next ≤ p.size
      rcases ahead_or_transfers found performed with ⟨_, within⟩ | ⟨_, leads⟩
      · exact within
      · rw [MayLeadTo, loops_signal, calls_signal] at leads
        rcases leads with ⟨frame, member, rfl⟩ | ⟨name, defined⟩ | back
        · obtain ⟨⟨h, there, _⟩, _⟩ := reached.opened noLoops member
          exact (Array.getElem?_eq_some_iff.mp there).1.le
        · obtain ⟨i, there⟩ := Program.exists_at?_of_label? inside defined
          exact (Array.getElem?_eq_some_iff.mp there).1.le
        · have unmatched := List.mem_reverse.mpr back
          rw [← Stack.fromBottom, reached.calls noCalls] at unmatched
          exact (address_of_brackets (Bracket.mem_of_unmatched unmatched)).2
  | _ => exact Nat.zero_le _

/-- Since one of the three was performed, or since the start, a run has begun no more instructions
than its address says. -/
theorem Running.few_or_transfers {start : Machine} {steps : Array Step}
    (running : Running p (fun _ => false) start steps pc m) :
    steps.size ≤ pc ∨ ∃ earlier step m', Begins p start earlier step m' ∧
      (earlier.push step).toList <+: steps.toList ∧ steps.size ≤ earlier.size + 1 + pc ∧
      Transfers p step.instruction m' := by
  -- The address grows with each turn that adds a step, until one of the three is performed.
  induction running with
  | start => exact .inl (Nat.zero_le 0)
  | @turn steps pc next m m' i running found _ performed ih =>
    rw [signal_false] at performed
    rw [Array.size_push]
    by_cases transfers : Transfers p i m
    · exact .inr ⟨steps, ⟨pc, i⟩, m, ⟨running, found⟩, List.prefix_refl _, by omega, transfers⟩
    · have ahead := (lt_of_not_transfers found performed transfers).1
      rcases ih with few | ⟨earlier, step, m', begins, front, few, transfers⟩
      · exact .inl (by omega)
      · refine .inr ⟨earlier, step, m', begins, front.trans ?_, by omega, transfers⟩
        simp

/-! ### Programs without the three -/

theorem not_transfers (without : ∀ i ∈ p.instructions, ¬i.command.IsTransfer)
    (found : p.at? pc = some i) (m : Machine) : ¬Transfers p i m := by
  rintro ⟨c, m', comes, transfer⟩
  rcases comesTo?_mem comes with rfl | ⟨n, j, there, rfl⟩
  · exact without i (Array.mem_of_getElem? found) transfer
  · exact without j (Array.mem_of_getElem? there) transfer

/-- From an address on, there are no more turns than there are instructions. -/
theorem runFrom_of_without (without : ∀ i ∈ p.instructions, ¬i.command.IsTransfer)
    (signals : Nat → Bool) {fuel : Nat} (enough : p.size ≤ pc + fuel) (steps : Array Step)
    (m : Machine) : ∃ r, runFrom p signals (fuel + 1) pc steps m = some r ∧
      r.steps.size ≤ steps.size + fuel := by
  induction fuel generalizing pc steps m with
  | zero =>
    have off : p.at? pc = none := Array.getElem?_eq_none enough
    simp only [runFrom, off]
    exact ⟨_, rfl, Nat.le_refl _⟩
  | succ fuel ih =>
    rw [runFrom]
    split
    next => exact ⟨_, rfl, Nat.le_add_right ..⟩
    next i found =>
      split
      next => exact ⟨_, rfl, Nat.le_add_right ..⟩
      next =>
        have one : (steps.push ⟨pc, i⟩).size = steps.size + 1 := Array.size_push _
        dsimp only
        split
        next next m' performed =>
          have ahead := (lt_of_not_transfers found performed (not_transfers without found _)).1
          have enough : p.size ≤ next + fuel := by omega
          obtain ⟨r, ended, few⟩ := ih enough (steps.push ⟨pc, i⟩) m'
          exact ⟨r, ended, by omega⟩
        next => exact ⟨_, rfl, by dsimp only; omega⟩
        next => exact ⟨_, rfl, by dsimp only; omega⟩

end Machine

open Machine

/-- Each instruction that performs no NEXT, GOSUB or RETURN, itself or in the place of an IF, ends
the run or leads to a greater address, and no run leaves the program, except to right behind it. So
of as many instructions in a row as the program has, and one more that a run goes on to, one has
performed one of the three; and a program without them ends after no more instructions than it
has. -/
theorem only_transfers_lead_back {ss : List Statement} {p : Program} {start : Machine}
    (linked : p = .ofStatements ss) (noLoops : start.loops = .empty)
    (noCalls : start.calls = .empty) :
    (∀ past pc m, Reached p start past pc m → pc ≤ p.size ∧
      ∀ i comes next m', p.at? pc = some i → perform p pc i (m.signal comes) = (.goOn next, m') →
        ¬Transfers p i (m.signal comes) → pc < next) ∧
    (∀ first before step m, Begins p first before step m → p.size ≤ before.size →
      ∃ earlier step' m', Begins p first earlier step' m' ∧
        (earlier.push step').toList <+: before.toList ∧ before.size ≤ earlier.size + p.size ∧
        Transfers p step'.instruction m') ∧
    ((∀ i ∈ p.instructions, ¬i.command.IsTransfer) → ∀ (first : Machine) signals,
      ∃ r, first.run p signals (p.size + 1) = some r ∧ r.steps.size ≤ p.size) := by
  refine ⟨fun past pc m reached => ⟨?_, ?_⟩, ?_, fun without first signals => ?_⟩
  · exact reached.address_le (linked ▸ Program.labels_inside ss) noLoops noCalls
  · intro i comes next m' found performed other
    exact (lt_of_not_transfers found performed other).1
  · rintro first before step m ⟨running, found⟩ many
    have inside : step.address < p.size := (Array.getElem?_eq_some_iff.mp found).1
    rcases running.few_or_transfers with few | ⟨earlier, step', m', begins, front, few, transfers⟩
    · omega
    · exact ⟨earlier, step', m', begins, front, by omega, transfers⟩
  · obtain ⟨r, ended, few⟩ := runFrom_of_without without signals (Nat.le_add_left p.size 0) #[]
      (first.signal (signals 0))
    exact ⟨r, ended, by simpa using few⟩

private def skipThenCall : List Statement :=
  [⟨[], ⟨1, .loop ⟨"i"⟩ (.literal (.integer 1)) (.literal (.integer 0)) (.literal (.integer 1))⟩⟩,
    ⟨[], ⟨2, .next none⟩⟩, ⟨[⟨"a", 3⟩], ⟨3, .gosub "a"⟩⟩]

private def skipThenCallStart : Machine :=
  .initial (.ofStatements skipThenCall) (.ofSeed 0) (.ofBytes [])

private def greeting : List Statement := [⟨[], ⟨1, .print [.literal (.string "hi")]⟩⟩]

private theorem not_isTransfer_greeting :
    ∀ i ∈ (Program.ofStatements greeting).instructions, ¬i.command.IsTransfer := by
  simp [Program.ofStatements, greeting, Command.IsTransfer]

/-- A FOR that is over at once leads behind its NEXT, to a GOSUB that calls itself. A PRINT without
them is the end of its run. -/
theorem only_transfers_lead_back_of_skipThenCall :
    (∃ m, perform (.ofStatements skipThenCall) 0 skipThenCall[0].instruction skipThenCallStart =
        (.goOn 2, m) ∧ 0 < 2) ∧
      (∃ before step m, Begins (.ofStatements skipThenCall) skipThenCallStart before step m ∧
        before.size = 3 ∧ ∃ earlier step' m',
          Begins (.ofStatements skipThenCall) skipThenCallStart earlier step' m' ∧
          Transfers (.ofStatements skipThenCall) step'.instruction m') ∧
      ∃ r, skipThenCallStart.run (.ofStatements greeting) (fun _ => false) 2 = some r ∧
        r.steps.size ≤ 1 := by
  have linked (ss : List Statement) : Program.ofStatements ss = .ofStatements ss := rfl
  have closed : skipThenCallStart.loops = .empty := rfl
  have begun : Running (.ofStatements skipThenCall) (fun _ => false) skipThenCallStart #[] 0 _ :=
    .start
  obtain ⟨forward, gaps, _⟩ := only_transfers_lead_back (linked skipThenCall) closed rfl
  refine ⟨?_, ?_, ?_⟩
  · refine ⟨_, rfl, (forward [] 0 _ .start).2 _ false 2 _ rfl rfl ?_⟩
    rintro ⟨c, m', comes, transfer⟩
    cases comes
    exact transfer
  · have called := ((begun.turn rfl rfl rfl).turn rfl rfl rfl).turn rfl rfl rfl
    have begins : Begins (.ofStatements skipThenCall) skipThenCallStart _
        ⟨2, skipThenCall[2].instruction⟩ _ := ⟨called, rfl⟩
    obtain ⟨earlier, step', m', begins', _, _, transfers⟩ := gaps _ _ _ _ begins (Nat.le_refl 3)
    exact ⟨_, _, _, begins, rfl, earlier, step', m', begins', transfers⟩
  · have ends := (only_transfers_lead_back (linked greeting) closed rfl).2.2
    exact ends not_isTransfer_greeting skipThenCallStart fun _ => false

end LabelBasic
