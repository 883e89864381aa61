import LabelBasic.Proofs.Blocks
import LabelBasic.Proofs.Control
import LabelBasic.Proofs.Outcome
import Mathlib.Data.List.TakeWhile

/-!
# The instructions of a block in a run

The machine runs the instructions of a block with jumps and a stack of open loops. Here is what each
of them does when it stands in its block: FOR finds its own NEXT because no loop around it has its
variable, and NEXT finds its own FOR because the stack holds exactly the loops around the instruction.
-/
namespace LabelBasic

/-! ### Stacks -/

namespace Stack

variable {α : Type}

theorem size_cons (x : α) (s : Stack α) : (s.cons x).size = s.size + 1 := rfl

theorem tail_cons (x : α) (s : Stack α) : (s.cons x).tail = s := ext_items rfl

theorem dropUntil_cons {p : α → Bool} {x : α} (s : Stack α) (holds : p x = true) :
    (s.cons x).dropUntil p = s.cons x := by
  apply ext_items
  simp [dropUntil, holds]

theorem dropFromLowest_eq_self {p : α → Bool} {s : Stack α}
    (fails : ∀ x ∈ s.items, p x = false) : s.dropFromLowest p = s := by
  apply ext_items
  have all : ∀ x ∈ s.items.reverse, (!p x) = true := by simpa using fails
  simp [dropFromLowest, fromBottom, List.takeWhile_eq_self_iff.mpr all]

end Stack

/-! ### Runs that nothing interrupts -/

@[simp] theorem Machine.signal_false (m : Machine) : m.signal false = m := rfl

/-- The machine a run leaves, and why it failed if it did. -/
def Run.result (r : Run) : Machine × Option Report := (r.machine, r.failure?)

namespace Machine

/-- What a run from an address comes to when no interrupt comes. -/
def finish (p : Program) (fuel pc : Nat) (m : Machine) : Option (Machine × Option Report) :=
  (runFrom p (fun _ => false) fuel pc #[] m).map Run.result

variable {p : Program} {fuel pc : Nat} {m : Machine}

theorem result_runFrom (steps : Array Step) :
    (runFrom p (fun _ => false) fuel pc steps m).map Run.result = finish p fuel pc m := by
  simp only [finish]
  -- The steps a run has recorded do not change what it comes to.
  generalize #[] = others
  induction fuel generalizing pc steps others m with
  | zero => rfl
  | succ fuel ih =>
    simp only [runFrom]
    cases p.at? pc with
    | none => rfl
    | some i =>
      dsimp only
      split
      · rfl
      · simp only [signal_false]
        rcases perform p pc i m with ⟨_ | _ | f, m'⟩
        · exact ih _ _
        · rfl
        · rfl

theorem finish_off (off : p.at? pc = none) : finish p (fuel + 1) pc m = some (m, none) := by
  simp [finish, runFrom, off, Run.result]

section

variable {i : Instruction} {m' : Machine} {loops : Stack Frame} (found : p.at? pc = some i)
  (undisturbed : m.interrupted = false)

include found undisturbed

theorem finish_goOn {next : Nat}
    (performed : perform p pc i (m.withLoops loops) = (.goOn next, m')) :
    finish p (fuel + 1) pc (m.withLoops loops) = finish p fuel next m' := by
  have calm : (m.withLoops loops).interrupted = false := undisturbed
  simp only [finish, runFrom, found, calm, signal_false, Bool.false_eq_true, if_false, performed]
  exact result_runFrom _

theorem finish_halted (performed : perform p pc i (m.withLoops loops) = (.halted, m')) :
    finish p (fuel + 1) pc (m.withLoops loops) = some (m', none) := by
  have calm : (m.withLoops loops).interrupted = false := undisturbed
  simp [finish, runFrom, found, calm, signal_false, performed, Run.result]

theorem finish_failed {f : Fault}
    (performed : perform p pc i (m.withLoops loops) = (.failed f, m')) :
    finish p (fuel + 1) pc (m.withLoops loops) = some (m', some (f.report.atLine i.line)) := by
  have calm : (m.withLoops loops).interrupted = false := undisturbed
  simp [finish, runFrom, found, calm, signal_false, performed, Run.result]

end

end Machine

/-! ### One instruction -/

namespace Plain

theorem effect_oblivious (c : Plain) : Oblivious c.effect := by
  cases c with
  | assign v e => exact (Machine.value_oblivious _ e).bind fun x => Machine.assign_oblivious v x
  | print es => exact .forM Machine.printItem_oblivious es
  | read vs => exact Machine.read_oblivious vs
  | input es => exact .forM Machine.inputItem_oblivious es
  | data es => exact .pure ()

theorem execute_command (c : Plain) (p : Program) (pc depth : Nat) :
    Machine.execute p pc depth c.command = c.effect >>= fun _ => pure .next := by
  cases c
  case assign => simp only [command, Machine.execute, effect, bind_assoc]
  all_goals unfold Machine.execute; rfl

variable {p : Program} {pc line : Nat} {c : Plain} {m m' : Machine}

theorem perform_ok (ran : c.effect m = .ok () m') (loops : Stack Frame) :
    Machine.perform p pc ⟨line, c.command⟩ (m.withLoops loops) =
      (.goOn (pc + 1), m'.withLoops loops) := by
  -- The command does not see the open loops, and leaves them.
  have inside := (effect_oblivious c).ok_withLoops ran loops
  simp only [Machine.perform, execute_command, bind_of_ok inside]
  rfl

theorem perform_error {f : Fault} (ran : c.effect m = .error f m') (loops : Stack Frame) :
    Machine.perform p pc ⟨line, c.command⟩ (m.withLoops loops) =
      (.failed f, m'.withLoops loops) := by
  have inside := (effect_oblivious c).error_withLoops ran loops
  simp only [Machine.perform, execute_command, bind_of_error inside]

end Plain

namespace Header

theorem further_oblivious (h : Header) (step : Int32) : Oblivious (h.further step) := by
  refine (Machine.fetch_oblivious h.v).bind fun x => ?_
  exact (Oblivious.ofExcept _).bind fun n => .ofExcept _

theorem test_oblivious (h : Header) (again : Bool) : Oblivious (h.test again) := by
  refine (Machine.integer_oblivious h.step).bind fun step => ?_
  refine Oblivious.bind ?_ fun n => ?_
  · exact .ite (h.further_oblivious step) (Machine.integer_oblivious h.first)
  · refine (Machine.assign_oblivious h.v _).bind fun _ => ?_
    exact (Machine.integer_oblivious h.last).bind fun last => .pure _

/-- What FOR does once it has made its test. -/
def settle (h : Header) (p : Program) (pc : Nat) (again done : Bool) : Execution Flow :=
  if again then
    if done then do
      let _ ← Machine.onLoops (Stack.pop (.nextWithoutFor none))
      Machine.loopExit p pc h.v
    else pure .next
  else do
    modify fun m => { m with loops := m.loops.dropFromLowest fun frame => frame.header == pc }
    if done then Machine.loopExit p pc h.v
    else do
      Machine.onLoops (Stack.push .tooManyLoops ⟨h.v, pc⟩)
      pure .next

theorem loop_eq {h : Header} {p : Program} {pc : Nat} {again : Bool} {m : Machine}
    (integer : h.v.kind = .integer) (reentry : m.isOpen pc = again) :
    Machine.loop p pc h.v h.first h.last h.step m =
      (h.test again >>= fun done => h.settle p pc again done) m := by
  -- The loop asks first whether it is open, which `again` tells, and tests then.
  have reads : ∀ f : Machine → Execution Flow, (get >>= f) m = f m m := fun _ => rfl
  have value : ∀ step, Machine.loopValue again h.v h.first step = h.value again step := fun _ => rfl
  have decided : ∀ step n last : Int32, (if step < 0 then decide (n ≤ last) else decide (last ≤ n)) =
      decide (if step < 0 then n ≤ last else last ≤ n) := by
    intro step n last
    split <;> rfl
  simp only [Machine.loop, test, settle]
  simp only [integer, ne_eq, not_true_eq_false, if_false, bind_assoc, pure_bind, decided,
    decide_eq_true_eq]
  rw [reads]
  simp only [reentry, value]

end Header

/-! ### Where the instructions are -/

namespace Program

variable {p : Program} {pc : Nat}

theorem at?_of_prefix {i : Instruction} {is : List Instruction}
    (here : i :: is <+: p.instructions.toList.drop pc) : p.at? pc = some i := by
  have first := here.getElem (i := 0) (by simp)
  have bound := here.length_le
  simp only [List.length_cons, List.length_drop, Array.length_toList] at bound
  rw [at?, Array.getElem?_eq_getElem (by omega)]
  simpa using first.symm

theorem prefix_drop {is js : List Instruction} (here : is ++ js <+: p.instructions.toList.drop pc) :
    js <+: p.instructions.toList.drop (pc + is.length) := by
  obtain ⟨rest, eq⟩ := here
  refine ⟨rest, ?_⟩
  rw [← List.drop_drop, ← eq, List.append_assoc, List.drop_left]

theorem prefix_tail {i : Instruction} {is : List Instruction}
    (here : i :: is <+: p.instructions.toList.drop pc) : is <+: p.instructions.toList.drop (pc + 1) :=
  prefix_drop (show [i] ++ is <+: _ from here)

/-- The search for the NEXT of a loop passes over a block inside of that loop. -/
theorem closing?_flatten {b : Block} {outer : List Ident} {v : Ident} (nested : b.Nested outer)
    (around : v ∈ outer) (depth i : Nat) (rest : List Instruction) :
    closing? v depth i (b.flatten ++ rest) = closing? v depth (i + b.flatten.length) rest := by
  induction b generalizing outer depth i rest with
  | done => rfl
  | plain line c more ih =>
    have skipped := ih nested around depth (i + 1) rest
    rw [Block.flatten, List.length_cons, Nat.add_comm more.flatten.length, ← Nat.add_assoc,
      ← skipped]
    cases c <;> rfl
  | stop line more ih =>
    have skipped := ih nested around depth (i + 1) rest
    rw [Block.flatten, List.length_cons, Nat.add_comm more.flatten.length, ← Nat.add_assoc,
      ← skipped]
    rfl
  | loop h body line named more ihBody ihMore =>
    obtain ⟨_, other, inner, after⟩ := nested
    -- The inner NEXT names its own variable or none, so it closes one level and does not end the
    -- search.
    have name : (if named then some h.v else none) ≠ some v := by
      intro same
      cases named <;> cases same
      exact other around
    simp only [Block.flatten, List.cons_append, List.append_assoc, Header.instruction, closing?]
    rw [ihBody inner (List.mem_cons_of_mem _ around), Block.closing, closing?]
    simp only [name, Nat.add_one_ne_zero, or_self, if_false, Nat.add_sub_cancel]
    rw [ihMore after around]
    congr 1
    simp only [List.length_cons, List.length_append]
    omega

end Program

namespace Header

/-- The FOR stands at an address, inside of these open loops, none of which is its own. Behind its loop
control goes on at `stop`. -/
structure StandsAt (h : Header) (p : Program) (pc stop : Nat) (loops : Stack Frame) : Prop where
  here : p.at? pc = some h.instruction
  integer : h.v.kind = .integer
  apart : ∀ frame ∈ loops.items, frame.header ≠ pc
  room : loops.size < Stack.capacity
  exit : ∀ m, Machine.loopExit p pc h.v m = .ok (.jump stop) m

/-- The open loops at a FOR: its own is among them when NEXT has come back to it. -/
def frames (h : Header) (pc : Nat) (loops : Stack Frame) : Bool → Stack Frame
  | true => loops.cons ⟨h.v, pc⟩
  | false => loops

variable {h : Header} {p : Program} {pc line i : Nat} {named : Bool}

/-- Behind the NEXT of a loop, whether it names the variable or not. -/
theorem loopExit_of_matchingNext (closes : p.matchingNext? pc h.v = some i)
    (found : p.at? i = some (Block.closing h line named)) (m : Machine) :
    Machine.loopExit p pc h.v m = .ok (.jump (i + 1)) m := by
  simp only [Machine.loopExit, closes, found, Block.closing]
  cases named <;> simp <;> rfl

namespace StandsAt

variable {stop : Nat} {loops : Stack Frame} (stands : h.StandsAt p pc stop loops)

include stands

theorem isOpen_frames (again : Bool) (m : Machine) :
    (m.withLoops (h.frames pc loops again)).isOpen pc = again := by
  cases again with
  | true => simp [Machine.isOpen, Machine.withLoops, frames, Stack.top?]
  | false =>
    simp only [Machine.isOpen, Machine.withLoops, frames, Option.any_eq_false]
    intro frame top
    simpa using stands.apart frame (List.mem_of_mem_head? top)

/-- No loop around a FOR is its own, so none is given up there. -/
theorem forget_eq (m : Machine) :
    (modify fun m => { m with loops := m.loops.dropFromLowest fun frame => frame.header == pc } :
      Execution PUnit) (m.withLoops loops) = .ok ⟨⟩ (m.withLoops loops) := by
  have kept : loops.dropFromLowest (fun frame => frame.header == pc) = loops := by
    refine Stack.dropFromLowest_eq_self fun frame member => ?_
    simpa using stands.apart frame member
  change EStateM.Result.ok _ _ = _
  simp only [Machine.withLoops, kept]

theorem settle_over (again : Bool) (m : Machine) :
    h.settle p pc again true (m.withLoops (h.frames pc loops again)) =
      .ok (.jump stop) (m.withLoops loops) := by
  cases again with
  | true =>
    -- In a later round the loop is on top of the stack, and leaves it.
    have popped : Machine.onLoops (Stack.pop (.nextWithoutFor none))
        (m.withLoops (loops.cons ⟨h.v, pc⟩)) = .ok ⟨h.v, pc⟩ (m.withLoops loops) := by
      simp [Machine.onLoops, Machine.onPart, Machine.withLoops, Stack.pop, Stack.top?,
        Stack.tail_cons]
    simp only [settle, frames, if_true, bind_of_ok popped]
    exact stands.exit _
  | false =>
    simp only [settle, frames, Bool.false_eq_true, if_false, if_true,
      bind_of_ok (stands.forget_eq m)]
    exact stands.exit _

theorem settle_inside (again : Bool) (m : Machine) :
    h.settle p pc again false (m.withLoops (h.frames pc loops again)) =
      .ok .next (m.withLoops (loops.cons ⟨h.v, pc⟩)) := by
  cases again with
  | true => rfl
  | false =>
    -- In the first round the loop goes on top of the stack, for which there is room.
    have pushed : Machine.onLoops (Stack.push .tooManyLoops ⟨h.v, pc⟩) (m.withLoops loops) =
        .ok () (m.withLoops (loops.cons ⟨h.v, pc⟩)) := by
      simp only [Machine.onLoops, Machine.onPart, Machine.withLoops,
        Stack.push_of_room _ _ stands.room]
    simp only [settle, frames, Bool.false_eq_true, if_false, bind_of_ok (stands.forget_eq m),
      bind_of_ok pushed]
    rfl

variable {again : Bool} {m m' : Machine}

theorem perform_error {f : Fault} (failed : h.test again m = .error f m') :
    Machine.perform p pc h.instruction (m.withLoops (h.frames pc loops again)) =
      (.failed f, m'.withLoops (h.frames pc loops again)) := by
  have inside := (h.test_oblivious again).error_withLoops failed (h.frames pc loops again)
  simp only [Machine.perform, instruction, Machine.execute,
    loop_eq stands.integer (stands.isOpen_frames again m), bind_of_error inside]

theorem perform_over (tested : h.test again m = .ok true m') :
    Machine.perform p pc h.instruction (m.withLoops (h.frames pc loops again)) =
      (.goOn stop, m'.withLoops loops) := by
  have inside := (h.test_oblivious again).ok_withLoops tested (h.frames pc loops again)
  simp only [Machine.perform, instruction, Machine.execute,
    loop_eq stands.integer (stands.isOpen_frames again m), bind_of_ok inside, stands.settle_over]

theorem perform_inside (tested : h.test again m = .ok false m') :
    Machine.perform p pc h.instruction (m.withLoops (h.frames pc loops again)) =
      (.goOn (pc + 1), m'.withLoops (loops.cons ⟨h.v, pc⟩)) := by
  have inside := (h.test_oblivious again).ok_withLoops tested (h.frames pc loops again)
  simp only [Machine.perform, instruction, Machine.execute,
    loop_eq stands.integer (stands.isOpen_frames again m), bind_of_ok inside, stands.settle_inside]

end StandsAt

/-- NEXT finds its loop on top, whether it names the variable or not. -/
theorem perform_closing {loops : Stack Frame} {m : Machine} {address : Nat} :
    Machine.perform p address (Block.closing h line named) (m.withLoops (loops.cons ⟨h.v, pc⟩)) =
      (.goOn pc, m.withLoops (loops.cons ⟨h.v, pc⟩)) := by
  have again : Machine.continueLoop (m.withLoops (loops.cons ⟨h.v, pc⟩)) =
      .ok (.jump pc) (m.withLoops (loops.cons ⟨h.v, pc⟩)) := rfl
  cases named with
  | false => simp [Machine.perform, Block.closing, Machine.execute, Machine.next, again]
  | true =>
    -- No loop is given up for the name: the one on top has it.
    have kept : (loops.cons ⟨h.v, pc⟩).dropUntil (fun frame => frame.v == h.v) =
        loops.cons ⟨h.v, pc⟩ := Stack.dropUntil_cons loops (by simp)
    have given : (modify fun m => { m with loops := m.loops.dropUntil fun frame => frame.v == h.v } :
        Execution PUnit) (m.withLoops (loops.cons ⟨h.v, pc⟩)) =
          .ok ⟨⟩ (m.withLoops (loops.cons ⟨h.v, pc⟩)) := by
      change EStateM.Result.ok _ _ = _
      simp only [Machine.withLoops, kept]
    have continued : Machine.next (some h.v) (m.withLoops (loops.cons ⟨h.v, pc⟩)) =
        Machine.continueLoop (m.withLoops (loops.cons ⟨h.v, pc⟩)) := by
      unfold Machine.next
      dsimp only
      rw [bind_of_ok given]
      rfl
    simp [Machine.perform, Block.closing, Machine.execute, continued, again]

end Header

namespace Block

/-- The block stands at an address, inside of these open loops. -/
structure At (b : Block) (p : Program) (pc : Nat) (loops : Stack Frame) : Prop where
  here : b.flatten <+: p.instructions.toList.drop pc
  nested : b.Nested (loops.items.map Frame.v)
  above : ∀ frame ∈ loops.items, frame.header < pc
  room : loops.size + b.loopCount ≤ Stack.capacity

namespace At

variable {p : Program} {pc line : Nat} {loops : Stack Frame} {body rest : Block}

theorem plain {c : Plain} (at_ : (plain line c rest).At p pc loops) :
    p.at? pc = some ⟨line, c.command⟩ ∧ rest.At p (pc + 1) loops where
  left := Program.at?_of_prefix at_.here
  right := {
    here := Program.prefix_tail at_.here
    nested := at_.nested
    above := fun frame member => Nat.lt_succ_of_lt (at_.above frame member)
    room := at_.room }

theorem stop (at_ : (stop line rest).At p pc loops) : p.at? pc = some ⟨line, .stop⟩ :=
  Program.at?_of_prefix at_.here

variable {h : Header} {named : Bool} (at_ : (loop h body line named rest).At p pc loops)

include at_

theorem header : p.at? pc = some h.instruction := Program.at?_of_prefix at_.here

theorem integer : h.v.kind = .integer := at_.nested.1

theorem inside : body.At p (pc + 1) (loops.cons ⟨h.v, pc⟩) where
  here := (List.prefix_append _ _).trans (Program.prefix_tail at_.here)
  nested := at_.nested.2.2.1
  above := by
    intro frame member
    rcases List.mem_cons.mp member with rfl | outer
    · exact Nat.lt_succ_self pc
    · exact Nat.lt_succ_of_lt (at_.above frame outer)
  room := by
    have := at_.room
    simp only [loopCount, Stack.size_cons] at this ⊢
    omega

/-- The address of the NEXT. -/
theorem closing : closing h line named :: rest.flatten <+:
    p.instructions.toList.drop (pc + 1 + body.flatten.length) :=
  Program.prefix_drop (Program.prefix_tail at_.here)

theorem behind : rest.At p (pc + 1 + body.flatten.length + 1) loops where
  here := Program.prefix_tail at_.closing
  nested := at_.nested.2.2.2
  above := by
    intro frame member
    have := at_.above frame member
    omega
  room := by
    have := at_.room
    simp only [loopCount] at this
    omega

theorem matchingNext : p.matchingNext? pc h.v = some (pc + 1 + body.flatten.length) := by
  -- The search goes through the body and stops at the NEXT behind it.
  have search : body.flatten ++ Block.closing h line named :: rest.flatten <+:
      p.instructions.toList.drop (pc + 1) := Program.prefix_tail at_.here
  obtain ⟨others, eq⟩ := search
  rw [Program.matchingNext?, ← eq, List.append_assoc,
    Program.closing?_flatten at_.nested.2.2.1 (List.mem_cons_self ..)]
  simp only [List.cons_append, Block.closing, Program.closing?, or_true, if_true]

theorem stands : h.StandsAt p pc (pc + 1 + body.flatten.length + 1) loops where
  here := at_.header
  integer := at_.integer
  apart := by
    intro frame member
    -- The loops that are open lie around this one, so their headers come before it.
    exact Nat.ne_of_lt (at_.above frame member)
  room := by
    have := at_.room
    simp only [loopCount] at this
    omega
  exit := Header.loopExit_of_matchingNext at_.matchingNext (Program.at?_of_prefix at_.closing)

end At

end Block

end LabelBasic
