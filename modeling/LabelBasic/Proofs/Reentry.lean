import LabelBasic.Proofs.Blocks.Steps
import LabelBasic.Proofs.Grammar.Complete
import LabelBasic.Proofs.Keeping

/-!
# Loops that are entered anew

A FOR tells by the innermost open loop whether NEXT came back to it. So it starts afresh when it is
entered from elsewhere, unless its own loop was left inside of its body and is still the innermost
one. The stack of open loops never holds a loop whose FOR found it over when it was last visited.
-/
namespace LabelBasic

/-! ### FOR -/

namespace Machine

theorem isOpen_iff {m : Machine} {pc : Nat} :
    m.isOpen pc = true ↔ ∃ frame, m.loops.top? = some frame ∧ frame.header = pc := by
  cases top : m.loops.top? <;> simp [isOpen, top]

end Machine

namespace Header

open Machine

variable {h : Header} {p : Program} {pc : Nat}

theorem loopExit_keeps {σ : Type} (part : Machine → σ) (v : Ident) :
    Keeps part (loopExit p pc v) := by
  simp only [loopExit]
  split
  · exact .throw _
  · split
    · split <;> exact .pure _
    · exact .pure _

/-- The loops that are open once FOR has settled what its test means, even if they are too many. -/
def loopsAfter (h : Header) (pc : Nat) (again done : Bool) (loops : Stack Frame) : Stack Frame :=
  match again, done with
  | true, true => loops.tail
  | true, false => loops
  | false, true => loops.dropFromLowest fun frame => frame.header == pc
  | false, false => (loops.dropFromLowest fun frame => frame.header == pc).cons ⟨h.v, pc⟩

theorem settle_loops {again done : Bool} {m : Machine} (reentry : m.isOpen pc = again) :
    ((h.settle p pc again done).after m).loops = h.loopsAfter pc again done m.loops := by
  cases again with
  | true =>
    cases done with
    | true =>
      -- The loop that is over is on top.
      obtain ⟨frame, top, _⟩ := isOpen_iff.mp reentry
      have popped : onLoops (Stack.pop (.nextWithoutFor none)) m =
          .ok frame { m with loops := m.loops.tail } := by
        simp only [onLoops, onPart, Stack.pop, top]
      simp only [settle, if_true]
      rw [Execution.after_bind_of_ok popped]
      exact loopExit_keeps loops h.v _
    | false => rfl
  | false =>
    let forget (loops : Stack Frame) := loops.dropFromLowest fun frame => frame.header == pc
    have forgotten : (modify fun m => { m with loops := forget m.loops } : Execution PUnit) m =
        .ok ⟨⟩ { m with loops := forget m.loops } := rfl
    simp only [settle, Bool.false_eq_true, if_false]
    rw [Execution.after_bind_of_ok forgotten]
    cases done with
    | true => exact loopExit_keeps loops h.v _
    | false =>
      simp only [Bool.false_eq_true, if_false]
      rw [Execution.after_bind_pure, onLoops, Execution.after_push]
      rfl

theorem settle_keeps {σ : Type} {part : Machine → σ}
    (apart : ∀ (m : Machine) (loops : Stack Frame), part { m with loops } = part m)
    (again done : Bool) : Keeps part (h.settle p pc again done) := by
  cases again with
  | true =>
    cases done with
    | true => exact (onLoops_keeps apart _).bind fun _ _ _ _ => loopExit_keeps part h.v
    | false => exact .pure _
  | false =>
    refine Keeps.bind (.modify fun m => apart m _) fun _ _ _ _ => ?_
    cases done with
    | true => exact loopExit_keeps part h.v
    | false => exact (onLoops_keeps apart _).bind fun _ _ _ _ => .pure _

theorem settle_keeps_store (again done : Bool) : Keeps store (h.settle p pc again done) :=
  settle_keeps (fun _ _ => rfl) again done

theorem after_loop_of_integer (integer : h.v.kind = .integer) (m : Machine) :
    (loop p pc h.v h.first h.last h.step).after m =
      (h.test (m.isOpen pc) >>= fun done => h.settle p pc (m.isOpen pc) done).after m := by
  simp only [Execution.after, loop_eq integer rfl]

/-- FOR is refused, fails in its test, or goes on from it. -/
theorem after_loop (h : Header) (p : Program) (pc : Nat) (m : Machine) :
    h.v.kind ≠ .integer ∧ (loop p pc h.v h.first h.last h.step).after m = m ∨
      h.v.kind = .integer ∧
        ((∃ f, h.test (m.isOpen pc) m =
            .error f ((loop p pc h.v h.first h.last h.step).after m)) ∨
          ∃ done m', h.test (m.isOpen pc) m = .ok done m' ∧
            (loop p pc h.v h.first h.last h.step).after m =
              (h.settle p pc (m.isOpen pc) done).after m') := by
  by_cases integer : h.v.kind = .integer
  · rw [after_loop_of_integer integer]
    refine .inr ⟨integer, ?_⟩
    cases eq : h.test (m.isOpen pc) m with
    | error f m' => exact .inl ⟨f, by rw [Execution.after_bind_of_error eq]⟩
    | ok done m' => exact .inr ⟨done, m', rfl, Execution.after_bind_of_ok eq⟩
  · refine .inl ⟨integer, ?_⟩
    simp only [loop, ne_eq, integer, not_false_eq_true, if_true]
    rfl

/-- FOR keeps what is not the open loops and what its test keeps. -/
theorem loop_keeps {σ : Type} {part : Machine → σ}
    (apart : ∀ (m : Machine) (loops : Stack Frame), part { m with loops } = part m)
    (test : ∀ again, Keeps part (h.test again)) :
    Keeps part (loop p pc h.v h.first h.last h.step) := by
  intro m
  rcases h.after_loop p pc m with ⟨_, same⟩ | ⟨_, ⟨f, failed⟩ | ⟨done, m', tested, same⟩⟩
  · rw [same]
  · exact (test _).of_error failed
  · rw [same, h.settle_keeps apart (m.isOpen pc) done m', (test _).of_ok tested]

/-- The test leaves the open loops to what follows it. -/
theorem loops_of_test {m m' : Machine} {done : Bool}
    (tested : h.test (m.isOpen pc) m = .ok done m') :
    ((h.settle p pc (m.isOpen pc) done).after m').loops =
      h.loopsAfter pc (m.isOpen pc) done m.loops := by
  have loops := (Keeps.of_oblivious (h.test_oblivious (m.isOpen pc))).of_ok tested
  have reentry : m'.isOpen pc = m.isOpen pc := by simp only [Machine.isOpen, loops]
  rw [settle_loops reentry, loops]

end Header

/-! ### Visits -/

/-- An instruction is about to be performed by a machine. -/
structure Visit where
  address : Nat
  machine : Machine

/-- The last time an address was visited, the latest visits first. -/
def lastVisit? (past : List Visit) (pc : Nat) : Option Visit :=
  past.find? fun visit => visit.address == pc

/-- The FOR found its loop over. -/
def Header.OverAt (h : Header) (visit : Visit) : Prop :=
  ∃ m, h.test (visit.machine.isOpen visit.address) visit.machine = .ok true m

/-- Where a turn leads. The next run begins with the first instruction. -/
def Turn.target : Turn → Nat
  | .goOn address => address
  | .halted | .failed _ => 0

namespace Machine

/-- With these visits behind it, a machine has come to an address. A run that has ended leaves the
machine at the start of the next one. -/
inductive Reached (p : Program) (start : Machine) : List Visit → Nat → Machine → Prop
  | start : Reached p start [] 0 start
  | signalled {past : List Visit} {m : Machine} (comes : Bool) (reached : Reached p start past 0 m) :
      Reached p start past 0 (m.signal comes)
  | turn {past : List Visit} {pc : Nat} {m m' : Machine} {i : Instruction} {turn : Turn}
      (comes : Bool) (reached : Reached p start past pc m) (found : p.at? pc = some i)
      (calm : m.interrupted = false) (performed : perform p pc i (m.signal comes) = (turn, m')) :
      Reached p start (⟨pc, m.signal comes⟩ :: past) turn.target m'
  | interrupted {past : List Visit} {pc : Nat} {m : Machine} {i : Instruction}
      (reached : Reached p start past pc m) (found : p.at? pc = some i)
      (pending : m.interrupted = true) : Reached p start past 0 { m with interrupted := false }
  | through {past : List Visit} {pc : Nat} {m : Machine} (reached : Reached p start past pc m)
      (off : p.at? pc = none) : Reached p start past 0 m

namespace Reached

variable {p : Program} {start : Machine} {past : List Visit} {m : Machine}

/-- A turn that nothing interrupts, within a run or on to the next one. -/
theorem goOn {pc : Nat} (reached : Reached p start past pc m) (i : Instruction) (next : Nat)
    (found : p.at? pc = some i) (calm : m.interrupted = false)
    (led : (perform p pc i m).1.target = next) :
    Reached p start (⟨pc, m⟩ :: past) next (perform p pc i m).2 := by
  have turned : Reached p start (⟨pc, m⟩ :: past) (perform p pc i m).1.target
      (perform p pc i m).2 :=
    reached.turn false found calm rfl
  rwa [led] at turned

theorem runFrom {signals : Nat → Bool} {fuel pc : Nat} {steps : Array Step} {r : Run}
    (reached : Reached p start past pc m) (ended : runFrom p signals fuel pc steps m = some r) :
    ∃ visits, Reached p start (visits ++ past) 0 r.machine ∧ r.steps.toList.map Step.address =
      steps.toList.map Step.address ++ (visits.map Visit.address).reverse := by
  induction fuel generalizing past pc steps m with
  | zero => cases ended
  | succ fuel ih =>
    simp only [Machine.runFrom] at ended
    split at ended
    next off =>
      cases ended
      exact ⟨[], reached.through off, by simp⟩
    next i found =>
      split at ended
      next pending =>
        cases ended
        exact ⟨[], reached.interrupted found pending, by simp⟩
      next calm =>
        have visited : ∀ turn m', perform p pc i (m.signal (signals (steps.push ⟨pc, i⟩).size)) =
            (turn, m') → Reached p start (⟨pc, _⟩ :: past) turn.target m' :=
          fun _ _ => reached.turn _ found (by simpa using calm)
        split at ended
        next next m' performed =>
          obtain ⟨visits, reached', addresses⟩ := ih (visited _ _ performed) ended
          exact ⟨visits ++ [⟨pc, _⟩], by simpa using reached', by simpa using addresses⟩
        next m' performed =>
          cases ended
          exact ⟨[⟨pc, _⟩], visited _ _ performed, by simp⟩
        next f m' performed =>
          cases ended
          exact ⟨[⟨pc, _⟩], visited _ _ performed, by simp⟩

/-- A machine that has gone through a run has visited the instructions that the run began. -/
theorem run {signals : Nat → Bool} {fuel : Nat} {r : Run} (reached : Reached p start past 0 m)
    (ended : m.run p signals fuel = some r) :
    ∃ visits, Reached p start (visits ++ past) 0 r.machine ∧
      (visits.map Visit.address).reverse = r.steps.toList.map Step.address := by
  obtain ⟨visits, reached', addresses⟩ := (reached.signalled (signals 0)).runFrom ended
  exact ⟨visits, reached', by simpa using addresses.symm⟩

end Reached

end Machine

/-! ### Open loops and visits -/

namespace Stack

variable {α : Type}

theorem dropFromLowest_suffix (p : α → Bool) (s : Stack α) :
    (s.dropFromLowest p).items <:+ s.items := by
  have whole := List.reverse_suffix.mpr (List.takeWhile_prefix (!p ·) (l := s.items.reverse))
  rwa [List.reverse_reverse] at whole

theorem not_of_mem_dropFromLowest {p : α → Bool} {s : Stack α} {x : α}
    (member : x ∈ (s.dropFromLowest p).items) : p x = false := by
  have kept := List.mem_takeWhile_imp (List.mem_reverse.mp member)
  simpa using kept

end Stack

theorem Header.instruction_injective {h h' : Header} (same : h.instruction = h'.instruction) :
    h = h' := by
  obtain ⟨line, v, first, last, step⟩ := h
  obtain ⟨line', v', first', last', step'⟩ := h'
  cases same
  rfl

theorem lastVisit?_self (visit : Visit) (past : List Visit) :
    lastVisit? (visit :: past) visit.address = some visit :=
  List.find?_cons_of_pos (by simp)

theorem lastVisit?_cons {visit : Visit} {pc : Nat} (other : visit.address ≠ pc)
    (past : List Visit) : lastVisit? (visit :: past) pc = lastVisit? past pc :=
  List.find?_cons_of_neg (by simpa using other)

/-- No two open loops have one FOR, and none is over since the last visit of its FOR. -/
structure Consistent (p : Program) (past : List Visit) (loops : Stack Frame) : Prop where
  distinct : (loops.items.map Frame.header).Nodup
  entered : ∀ frame ∈ loops.items, ∃ h : Header, p.at? frame.header = some h.instruction ∧
    h.v.kind = .integer ∧ ∃ visit, lastVisit? past frame.header = some visit ∧ ¬h.OverAt visit

namespace Consistent

variable {p : Program} {past : List Visit} {loops loops' : Stack Frame} {pc : Nat} {m : Machine}

theorem empty : Consistent p past .empty := ⟨List.nodup_nil, nofun⟩

/-- Closing loops keeps the others consistent, if a FOR that is visited is not over. -/
theorem visit (consistent : Consistent p past loops) (visit : Visit)
    (closed : loops'.items.Sublist loops.items)
    (here : ∀ frame ∈ loops'.items, frame.header = visit.address →
      ∃ h : Header,
        p.at? visit.address = some h.instruction ∧ h.v.kind = .integer ∧ ¬h.OverAt visit) :
    Consistent p (visit :: past) loops' := by
  refine ⟨consistent.distinct.sublist (closed.map _), fun frame member => ?_⟩
  by_cases same : frame.header = visit.address
  · obtain ⟨h, found, integer, notOver⟩ := here frame member same
    rw [same, lastVisit?_self]
    exact ⟨h, found, integer, visit, rfl, notOver⟩
  · rw [lastVisit?_cons (Ne.symm same)]
    exact consistent.entered frame (closed.subset member)

/-- A loop of which no frame is open may be entered. -/
theorem enter {visit : Visit} {h : Header} (consistent : Consistent p (visit :: past) loops)
    (apart : ∀ frame ∈ loops.items, frame.header ≠ visit.address)
    (found : p.at? visit.address = some h.instruction) (integer : h.v.kind = .integer)
    (notOver : ¬h.OverAt visit) :
    Consistent p (visit :: past) (loops.cons ⟨h.v, visit.address⟩) := by
  constructor
  · refine List.nodup_cons.mpr ⟨fun member => ?_, consistent.distinct⟩
    obtain ⟨frame, open_, same⟩ := List.mem_map.mp member
    exact apart frame open_ same
  · intro frame member
    rcases List.mem_cons.mp member with rfl | outer
    · exact ⟨h, found, integer, visit, lastVisit?_self visit past, notOver⟩
    · exact consistent.entered frame outer

theorem header_ne {i : Instruction} {frame : Frame} (consistent : Consistent p past loops)
    (found : p.at? pc = some i) (other : ∀ h : Header, h.v.kind = .integer → i ≠ h.instruction)
    (member : frame ∈ loops.items) : frame.header ≠ pc := by
  rintro rfl
  obtain ⟨h, found', integer, _⟩ := consistent.entered frame member
  exact other h integer (Option.some.inj (found.symm.trans found'))

/-- What FOR does with the open loops once it has made its test. -/
theorem tested {h : Header} {done : Bool} {m' : Machine} (consistent : Consistent p past m.loops)
    (found : p.at? pc = some h.instruction) (integer : h.v.kind = .integer)
    (tested : h.test (m.isOpen pc) m = .ok done m') :
    Consistent p (⟨pc, m⟩ :: past) (h.loopsAfter pc (m.isOpen pc) done m.loops) := by
  have notOver : done = false → ¬h.OverAt ⟨pc, m⟩ := by
    rintro rfl ⟨m'', finished⟩
    cases tested.symm.trans finished
  cases reentry : m.isOpen pc with
  | true =>
    obtain ⟨top, first, header⟩ := Machine.isOpen_iff.mp reentry
    obtain ⟨others, items⟩ := List.head?_eq_some_iff.mp first
    cases done with
    | true =>
      -- The frame on top was the only one of this FOR.
      refine consistent.visit ⟨pc, m⟩ (List.tail_sublist _) fun frame member same => ?_
      have distinct := consistent.distinct
      rw [items, List.map_cons] at distinct
      refine absurd (List.mem_map.mpr ⟨frame, ?_, ?_⟩) (List.nodup_cons.mp distinct).1
      · simpa [Header.loopsAfter, items] using member
      · exact same.trans header.symm
    | false =>
      exact consistent.visit ⟨pc, m⟩ (List.Sublist.refl _) fun _ _ _ =>
        ⟨h, found, integer, notOver rfl⟩
  | false =>
    have apart : ∀ frame ∈ (m.loops.dropFromLowest fun frame => frame.header == pc).items,
        frame.header ≠ pc :=
      fun frame member => by simpa using Stack.not_of_mem_dropFromLowest member
    have forgotten := consistent.visit ⟨pc, m⟩ (Stack.dropFromLowest_suffix _ _).sublist
      fun frame member same => absurd same (apart frame member)
    cases done with
    | true => exact forgotten
    | false => exact forgotten.enter apart found integer (notOver rfl)

theorem turn_header {h : Header} (consistent : Consistent p past m.loops)
    (found : p.at? pc = some h.instruction) :
    Consistent p (⟨pc, m⟩ :: past)
      ((Machine.loop p pc h.v h.first h.last h.step).after m).loops := by
  rcases h.after_loop p pc m with ⟨refused, same⟩ | ⟨integer, ⟨f, failed⟩ | ⟨done, m', eq, same⟩⟩
  · -- None on this variable is open.
    rw [same]
    refine consistent.visit ⟨pc, m⟩ (List.Sublist.refl _) fun frame member header => ?_
    refine absurd header (consistent.header_ne found (fun h' integer' eq => refused ?_) member)
    rwa [Header.instruction_injective eq]
  · rw [(Keeps.of_oblivious (h.test_oblivious (m.isOpen pc))).of_error failed]
    refine consistent.visit ⟨pc, m⟩ (List.Sublist.refl _) fun _ _ _ => ⟨h, found, integer, ?_⟩
    rintro ⟨m'', finished⟩
    cases failed.symm.trans finished
  · rw [same, Header.loops_of_test eq]
    exact consistent.tested found integer eq

/-- One turn keeps the open loops consistent with the visits. -/
theorem turn {i : Instruction} (consistent : Consistent p past m.loops)
    (found : p.at? pc = some i) :
    Consistent p (⟨pc, m⟩ :: past) (Machine.perform p pc i m).2.loops := by
  rw [Machine.perform_machine]
  by_cases header : ∃ h : Header, i = h.instruction
  · obtain ⟨h, rfl⟩ := header
    simp only [Header.instruction, Machine.execute]
    exact consistent.turn_header found
  · have apart : ∀ frame ∈ m.loops.items, frame.header ≠ pc := fun frame =>
      consistent.header_ne found fun h _ same => header ⟨h, same⟩
    have closed := Machine.execute_closes p pc Machine.branchLimit i.command m ?_
    · exact consistent.visit ⟨pc, m⟩ closed.sublist fun frame member same =>
        absurd same (apart frame (closed.subset member))
    · intro v first last step same
      obtain ⟨line, c⟩ := i
      cases same
      exact header ⟨⟨line, v, first, last, step⟩, rfl⟩

end Consistent

namespace Machine

theorem loops_signal (m : Machine) (comes : Bool) : (m.signal comes).loops = m.loops := by
  cases comes <;> rfl

theorem calls_signal (m : Machine) (comes : Bool) : (m.signal comes).calls = m.calls := by
  cases comes <;> rfl

theorem store_signal (m : Machine) (comes : Bool) : (m.signal comes).store = m.store := by
  cases comes <;> rfl

end Machine

namespace Machine.Reached

variable {p : Program} {start : Machine} {past : List Visit} {pc : Nat} {m : Machine}

theorem consistent (closed : start.loops = .empty) (reached : Reached p start past pc m) :
    Consistent p past m.loops := by
  induction reached with
  | start => exact closed ▸ Consistent.empty
  | signalled comes _ ih => rwa [loops_signal]
  | turn comes reached found calm performed ih =>
    rename_i m _ _ _
    have next := Consistent.turn (m := m.signal comes) (by rwa [loops_signal]) found
    rwa [performed] at next
  | interrupted _ _ _ ih => exact ih
  | through _ _ ih => exact ih

end Machine.Reached

/-! ### FOR that is entered anew -/

namespace Header

/-- The expressions of the FOR have values, `n` the first one, and the variable can be given it. -/
def Begins (h : Header) (m : Machine) (n : Int32) : Prop :=
  ∃ step last m₁ m₂ m₃ m₄, Machine.integer h.step m = .ok step m₁ ∧
    Machine.integer h.first m₁ = .ok n m₂ ∧ Machine.assign h.v (.integer n) m₂ = .ok () m₃ ∧
    Machine.integer h.last m₃ = .ok last m₄

end Header

theorem Store.get?_of_store {s t : Store} {v : Ident} {x : Value} (stored : s.store v x = .ok t) :
    t.get? v = some x := by
  simp only [Store.store] at stored
  split at stored
  next => cases stored
  next =>
    split at stored
    next fits =>
      cases stored
      simp [Store.get?_insert]
    next => cases stored

namespace Machine

theorem integer_keeps_store (e : Expr) : Keeps store (integer e) := .evaluation (fun _ _ => rfl) _

theorem get?_of_assign {v : Ident} {x : Value} {m m' : Machine}
    (stored : assign v x m = .ok () m') : m'.store.get? v = some x := by
  simp only [assign] at stored
  split at stored
  next store eq =>
    cases stored
    exact Store.get?_of_store eq
  next => cases stored

end Machine

theorem Header.test_of_begins {h : Header} {m : Machine} {n : Int32} (begins : h.Begins m n) :
    ∃ done m', h.test false m = .ok done m' ∧ m'.store.get? h.v = some (.integer n) := by
  obtain ⟨step, last, m₁, m₂, m₃, m₄, stepped, first, stored, bound⟩ := begins
  have given : m₄.store.get? h.v = some (.integer n) := by
    rw [(Machine.integer_keeps_store h.last).of_ok bound]
    exact Machine.get?_of_assign stored
  have tested : ∃ done, h.test false m = .ok done m₄ := by
    simp only [test, value, Bool.false_eq_true, if_false]
    rw [bind_of_ok stepped, bind_of_ok first, bind_of_ok stored, bind_of_ok bound]
    exact ⟨_, rfl⟩
  exact tested.imp fun _ tested => ⟨m₄, tested, given⟩

/-- A FOR that is not the innermost open loop, or found its loop over the last time, starts afresh:
it gives its variable the first value. -/
theorem loop_starts_afresh {p : Program} {start : Machine} {past : List Visit} {pc : Nat}
    {m : Machine} {h : Header} {n : Int32} (closed : start.loops = .empty)
    (reached : Machine.Reached p start past pc m) (found : p.at? pc = some h.instruction)
    (integer : h.v.kind = .integer)
    (apart : m.isOpen pc = false ∨ ∀ visit, lastVisit? past pc = some visit → h.OverAt visit)
    (comes : Bool) (begins : h.Begins (m.signal comes) n) :
    (Machine.perform p pc h.instruction (m.signal comes)).2.store.get? h.v = some (.integer n) := by
  have entry : (m.signal comes).isOpen pc = false := by
    rw [Machine.isOpen, Machine.loops_signal]
    rcases apart with apart | finished
    · exact apart
    · refine Bool.eq_false_iff.mpr fun reentry => ?_
      obtain ⟨frame, top, rfl⟩ := Machine.isOpen_iff.mp reentry
      obtain ⟨h', found', _, visit, last, notOver⟩ :=
        (reached.consistent closed).entered frame (List.mem_of_mem_head? top)
      obtain rfl := Header.instruction_injective (Option.some.inj (found.symm.trans found'))
      exact notOver (finished visit last)
  obtain ⟨done, m', tested, given⟩ := Header.test_of_begins begins
  have performed : (Machine.perform p pc h.instruction (m.signal comes)).2 =
      (h.settle p pc false done).after m' := by
    rw [Machine.perform_machine, ← Execution.after_bind_of_ok tested]
    simp only [Header.instruction, Machine.execute, Execution.after, Header.loop_eq integer entry]
  rw [performed, Header.settle_keeps_store false done m', given]

private def downward : Header :=
  ⟨1, ⟨"i"⟩, .literal (.integer 3), .literal (.integer 1), .literal (.integer 1)⟩

private def downwardProgram : Program := ⟨#[downward.instruction, ⟨2, .next none⟩], [], []⟩

private def downwardStart : Machine := .initial downwardProgram (.ofSeed 0) (.ofBytes [])

/-- The second of two runs comes to a loop that the first one found over. -/
theorem loop_starts_afresh_in_a_second_run :
    ∃ past m, past ≠ [] ∧ Machine.Reached downwardProgram downwardStart past 0 m ∧
      (Machine.perform downwardProgram 0 downward.instruction m).2.store.get? ⟨"i"⟩ =
        some (.integer 3) := by
  have first : Machine.Reached downwardProgram downwardStart [] 0 downwardStart := .start
  have behind := first.goOn downward.instruction 2 rfl rfl rfl
  have second := behind.through rfl
  have finished : ∀ visit, lastVisit? [⟨0, downwardStart⟩] 0 = some visit → downward.OverAt visit := by
    rintro _ ⟨⟩
    exact ⟨_, rfl⟩
  have begins : downward.Begins
      ((Machine.perform downwardProgram 0 downward.instruction downwardStart).2.signal false) 3 :=
    ⟨_, _, _, _, _, _, rfl, rfl, rfl, rfl⟩
  exact ⟨_, _, List.cons_ne_nil _ _, second,
    loop_starts_afresh (h := downward) rfl second rfl rfl (.inr finished) false begins⟩

/-- However a FOR is entered, unless by NEXT, it gives its variable the first value. -/
def AlwaysAfresh (p : Program) (start : Machine) : Prop :=
  ∀ (comes : Bool) {past : List Visit} {pc : Nat} {m : Machine} {h : Header} {n : Int32},
    Machine.Reached p start past pc m → p.at? pc = some h.instruction → h.v.kind = .integer →
    (∀ visit ∈ past.head?, ∀ i, p.at? visit.address = some i → ∀ v, i.command ≠ .next v) →
    h.Begins (m.signal comes) n →
    (Machine.perform p pc h.instruction (m.signal comes)).2.store.get? h.v = some (.integer n)

private def counting : Header :=
  ⟨4, ⟨"i"⟩, .literal (.integer 1), .literal (.integer 5), .literal (.integer 1)⟩

private def leftByReturn : List Statement :=
  [⟨[], ⟨1, .gosub "sub"⟩⟩, ⟨[], ⟨2, .gosub "sub"⟩⟩, ⟨[], ⟨3, .stop⟩⟩,
    ⟨[⟨"sub", 4⟩], counting.instruction⟩, ⟨[], ⟨5, .print [.variable ⟨"i"⟩]⟩⟩, ⟨[], ⟨6, .ret⟩⟩,
    ⟨[], ⟨7, .next none⟩⟩]

private theorem compile_leftByReturn :
    (compile "GOSUB sub\nGOSUB sub\nEND\nsub: FOR i = 1 TO 5\nPRINT i\nRETURN\nNEXT").result =
      .ok leftByReturn := by
  have tokens : (lex
      "GOSUB sub\nGOSUB sub\nEND\nsub: FOR i = 1 TO 5\nPRINT i\nRETURN\nNEXT").tokens =
      [⟨.keyword .GOSUB, none, ⟨1, 0⟩⟩, ⟨.word, some "sub", ⟨1, 6⟩⟩, ⟨.endOfLine, none, ⟨1, 9⟩⟩,
        ⟨.keyword .GOSUB, none, ⟨2, 0⟩⟩, ⟨.word, some "sub", ⟨2, 6⟩⟩, ⟨.endOfLine, none, ⟨2, 9⟩⟩,
        ⟨.keyword .END, none, ⟨3, 0⟩⟩, ⟨.endOfLine, none, ⟨3, 3⟩⟩,
        ⟨.label, some "sub", ⟨4, 0⟩⟩, ⟨.keyword .FOR, none, ⟨4, 5⟩⟩, ⟨.word, some "i", ⟨4, 9⟩⟩,
        ⟨.symbol (.relation .equal), none, ⟨4, 11⟩⟩, ⟨.number, some "1", ⟨4, 13⟩⟩,
        ⟨.keyword .TO, none, ⟨4, 15⟩⟩, ⟨.number, some "5", ⟨4, 18⟩⟩, ⟨.endOfLine, none, ⟨4, 19⟩⟩,
        ⟨.keyword .PRINT, none, ⟨5, 0⟩⟩, ⟨.word, some "i", ⟨5, 6⟩⟩, ⟨.endOfLine, none, ⟨5, 7⟩⟩,
        ⟨.keyword .RETURN, none, ⟨6, 0⟩⟩, ⟨.endOfLine, none, ⟨6, 6⟩⟩,
        ⟨.keyword .NEXT, none, ⟨7, 0⟩⟩] := by decide +kernel
  have derived : Grammar.DerivesProgram (lex
      "GOSUB sub\nGOSUB sub\nEND\nsub: FOR i = 1 TO 5\nPRINT i\nRETURN\nNEXT").tokens
      leftByReturn := by
    rw [tokens]
    refine .more (p := [_, _]) (.command (.gosub rfl rfl)) rfl ?_
    refine .more (p := [_, _]) (.command (.gosub rfl rfl)) rfl ?_
    refine .more (p := [_]) (.command (.stop rfl)) rfl ?_
    refine .more (p := [_, _, _, _, _, _, _]) (.label rfl (.command (.loop (p := [_]) rfl rfl rfl
      (.sum (.product (.number rfl (by decide +kernel)))) rfl
      (.sum (.product (.number rfl (by decide +kernel))))))) rfl ?_
    refine .more (p := [_, _])
      (.command (.print rfl (.one (.sum (.product (.variable rfl)))))) rfl ?_
    exact .more (p := [_]) (.command (.ret rfl)) rfl (.last (.command (.next rfl)))
  exact congrArg Parsed.result (parse_complete derived)

/-- A loop that was left by RETURN is still open when its subroutine is called again. -/
theorem not_alwaysAfresh_when_left_by_return :
    ∃ ss, (compile
        "GOSUB sub\nGOSUB sub\nEND\nsub: FOR i = 1 TO 5\nPRINT i\nRETURN\nNEXT").result = .ok ss ∧
      ¬AlwaysAfresh (.ofStatements ss)
        (.initial (.ofStatements ss) (.ofSeed 0) (.ofBytes [])) := by
  refine ⟨leftByReturn, compile_leftByReturn, fun always => ?_⟩
  have begun : Machine.Reached (.ofStatements leftByReturn)
    (.initial (.ofStatements leftByReturn) (.ofSeed 0) (.ofBytes [])) [] 0 _ := .start
  have entered := begun.goOn ⟨1, .gosub "sub"⟩ 3 rfl rfl rfl
  have inside := entered.goOn counting.instruction 4 rfl rfl rfl
  have printed := inside.goOn ⟨5, .print [.variable ⟨"i"⟩]⟩ 5 rfl rfl rfl
  have left := printed.goOn ⟨6, .ret⟩ 1 rfl rfl rfl
  have again := left.goOn ⟨2, .gosub "sub"⟩ 3 rfl rfl rfl
  have value := always false (h := counting) (n := 1) again rfl rfl ?_
    ⟨_, _, _, _, _, _, rfl, rfl, rfl, rfl⟩
  -- The variable has gone on from one to two.
  · exact absurd value (by decide +kernel)
  · rintro _ ⟨⟩ _ ⟨⟩ v
    exact nofun

end LabelBasic
