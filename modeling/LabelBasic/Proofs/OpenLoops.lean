import LabelBasic.Proofs.Faults
import LabelBasic.Proofs.Reentry
import Mathlib.Data.List.Perm.Subperm

/-!
# Open loops

Whatever runs a machine has been through, each loop that is open belongs to a FOR of the program, to
another one than every other open loop, and its variable is an integer that has a value. So there
are never more open loops than FORs, and a FOR that NEXT comes back to finds the value it goes on
from.
-/
namespace LabelBasic

/-! ### How many FORs there are -/

/-- The command is FOR. -/
def Command.isFor : Command → Bool
  | .loop .. => true
  | _ => false

namespace Program

def loopCount (p : Program) : Nat := p.instructions.toList.countP fun i => i.command.isFor

/-- Different FORs are no more than there are. -/
theorem length_le_loopCount {p : Program} {headers : List Nat} (distinct : headers.Nodup)
    (each : ∀ n ∈ headers, ∃ h : Header, p.at? n = some h.instruction) :
    headers.length ≤ p.loopCount := by
  let fors := p.instructions.toList.zipIdx.filter fun i => i.1.command.isFor
  have count : fors.length = p.loopCount := by
    rw [loopCount, ← List.zipIdx_map_fst 0 p.instructions.toList, List.countP_map,
      List.countP_eq_length_filter]
    rfl
  have inside : headers ⊆ fors.map Prod.snd := by
    intro n member
    obtain ⟨h, found⟩ := each n member
    have here : p.instructions.toList[n]? = some h.instruction := by simpa [at?] using found
    refine List.mem_map.mpr ⟨(h.instruction, n), List.mem_filter.mpr ⟨?_, rfl⟩, rfl⟩
    exact List.mem_zipIdx_iff_getElem?.mpr here
  rw [← count, ← List.length_map Prod.snd]
  exact (List.subperm_of_subset distinct inside).length_le

end Program

/-! ### What FOR opens -/

namespace Header

open Machine

variable {h : Header} {again : Bool}

theorem isSome_of_test {done : Bool} {m m' : Machine} (tested : h.test again m = .ok done m') :
    (m'.store.get? h.v).isSome := by
  obtain ⟨step, m₁, _, tested⟩ := ok_of_bind tested
  obtain ⟨n, m₂, _, tested⟩ := ok_of_bind tested
  obtain ⟨⟨⟩, m₃, stored, tested⟩ := ok_of_bind tested
  obtain ⟨last, m₄, bound, tested⟩ := ok_of_bind tested
  cases tested
  rw [(integer_keeps_store h.last).of_ok bound, get?_of_assign stored]
  rfl

theorem mem_loopsAfter {pc : Nat} {done : Bool} {loops : Stack Frame} {frame : Frame}
    (member : frame ∈ (h.loopsAfter pc again done loops).items) :
    frame ∈ loops.items ∨ frame = ⟨h.v, pc⟩ := by
  cases again with
  | true =>
    cases done with
    | true => exact .inl (List.mem_of_mem_tail member)
    | false => exact .inl member
  | false =>
    have kept := (Stack.dropFromLowest_suffix (fun frame => frame.header == pc) loops).subset
    cases done with
    | true => exact .inl (kept member)
    | false => exact (List.mem_cons.mp member).symm.imp_left (kept ·)

end Header

namespace Machine

variable {p : Program} {pc : Nat} {m : Machine} {frame : Frame}

theorem mem_loops_of_loop {h : Header}
    (member : frame ∈ ((loop p pc h.v h.first h.last h.step).after m).loops.items) :
    frame ∈ m.loops.items ∨ frame = ⟨h.v, pc⟩ ∧
      (((loop p pc h.v h.first h.last h.step).after m).store.get? h.v).isSome := by
  rcases h.after_loop p pc m with ⟨_, same⟩ | ⟨_, ⟨f, failed⟩ | ⟨done, m', tested, same⟩⟩
  · exact .inl (same ▸ member)
  · rw [(Keeps.of_oblivious (h.test_oblivious (m.isOpen pc))).of_error failed] at member
    exact .inl member
  · rw [same] at member ⊢
    rw [Header.loops_of_test tested] at member
    refine (Header.mem_loopsAfter member).imp_right fun opened => ⟨opened, ?_⟩
    rw [Header.settle_keeps_store (m.isOpen pc) done m']
    exact Header.isSome_of_test tested

/-- A loop that is open after an instruction was open before, or the instruction is its FOR. -/
theorem mem_loops_of_perform {i : Instruction}
    (member : frame ∈ (perform p pc i m).2.loops.items) :
    frame ∈ m.loops.items ∨ ∃ h : Header, i = h.instruction ∧ frame = ⟨h.v, pc⟩ ∧
      ((perform p pc i m).2.store.get? h.v).isSome := by
  by_cases header : ∃ h : Header, i = h.instruction
  · obtain ⟨h, rfl⟩ := header
    rw [perform_machine] at member ⊢
    simp only [Header.instruction, execute] at member ⊢
    exact (mem_loops_of_loop member).imp_right fun opened => ⟨h, rfl, opened⟩
  · rw [perform_machine] at member
    refine .inl ((execute_closes p pc branchLimit i.command m ?_).subset member)
    intro v first last step same
    obtain ⟨line, c⟩ := i
    cases same
    exact header ⟨⟨line, v, first, last, step⟩, rfl⟩

/-! ### In every run -/

/-- The open loops are those of FORs on integer variables that have values, and no two of them have
one FOR. -/
structure LoopsInOrder (p : Program) (m : Machine) : Prop where
  distinct : (m.loops.items.map Frame.header).Nodup
  opened : ∀ frame ∈ m.loops.items,
    (∃ h : Header, p.at? frame.header = some h.instruction ∧ h.v = frame.v) ∧
      frame.v.kind = .integer ∧ (m.store.get? frame.v).isSome

theorem LoopsInOrder.size_le (inOrder : m.LoopsInOrder p) : m.loops.size ≤ p.loopCount := by
  rw [m.loops.size_eq, ← List.length_map Frame.header]
  refine Program.length_le_loopCount inOrder.distinct fun n member => ?_
  obtain ⟨frame, open_, rfl⟩ := List.mem_map.mp member
  obtain ⟨⟨h, found, _⟩, _⟩ := inOrder.opened frame open_
  exact ⟨h, found⟩

namespace Reached

variable {start : Machine} {past : List Visit}

theorem opened (closed : start.loops = .empty) (reached : Reached p start past pc m)
    (member : frame ∈ m.loops.items) :
    (∃ h : Header, p.at? frame.header = some h.instruction ∧ h.v = frame.v) ∧
      (m.store.get? frame.v).isSome := by
  induction reached with
  | start =>
    rw [closed] at member
    cases member
  | signalled comes _ ih =>
    rw [loops_signal] at member
    rw [store_signal]
    exact ih member
  | turn comes reached found calm performed ih =>
    rename_i m m' i _
    obtain rfl : (perform p _ i (m.signal comes)).2 = m' := congrArg Prod.snd performed
    rcases mem_loops_of_perform member with before | ⟨h, rfl, rfl, assigned⟩
    · rw [loops_signal] at before
      obtain ⟨header, assigned⟩ := ih before
      rw [← store_signal m comes] at assigned
      exact ⟨header, assigned_of_perform assigned⟩
    · exact ⟨⟨h, found, rfl⟩, assigned⟩
  | interrupted _ _ _ ih => exact ih member
  | through _ _ ih => exact ih member

theorem loopsInOrder (closed : start.loops = .empty) (reached : Reached p start past pc m) :
    m.LoopsInOrder p := by
  have consistent := reached.consistent closed
  refine ⟨consistent.distinct, fun frame member => ?_⟩
  obtain ⟨⟨h, found, same⟩, assigned⟩ := reached.opened closed member
  obtain ⟨h', found', integer, _⟩ := consistent.entered frame member
  obtain rfl := Header.instruction_injective (Option.some.inj (found.symm.trans found'))
  exact ⟨⟨h, found, same⟩, same ▸ integer, assigned⟩

end Reached

end Machine

/-- In every machine that runs of a program come to, however they ended, the open loops are in order
and no more than there are FORs. So the stack is never too full in a program that has not too many
FORs, and a FOR that NEXT comes back to does not miss the value of its variable. -/
theorem open_loops_in_order {p : Program} {start : Machine} {past : List Visit} {pc : Nat}
    {m : Machine} (closed : start.loops = .empty) (reached : Machine.Reached p start past pc m) :
    m.LoopsInOrder p ∧ m.loops.size ≤ p.loopCount ∧
      (p.loopCount ≤ Stack.capacity → ∀ comes i m', p.at? pc = some i → m.interrupted = false →
        Machine.perform p pc i (m.signal comes) ≠ (.failed .tooManyLoops, m')) ∧
      ∀ comes (h : Header) m', p.at? pc = some h.instruction → m.isOpen pc = true →
        Machine.perform p pc h.instruction (m.signal comes) ≠
          (.failed (.undefinedVariable h.v), m') := by
  have inOrder := reached.loopsInOrder closed
  refine ⟨inOrder, inOrder.size_le, fun few comes i m' found calm failed => ?_,
    fun comes h m' found reentry failed => ?_⟩
  · -- The frame that is one too many stays, in a machine that is reached as well.
    have full : Stack.capacity < m'.loops.size := Machine.holds_of_perform failed
    have size := ((reached.turn comes found calm failed).loopsInOrder closed).size_le
    omega
  · obtain ⟨frame, top, rfl⟩ := Machine.isOpen_iff.mp reentry
    obtain ⟨⟨h', found', same⟩, _, assigned⟩ := inOrder.opened frame (List.mem_of_mem_head? top)
    obtain rfl := Header.instruction_injective (Option.some.inj (found.symm.trans found'))
    have missing : m'.store.get? h.v = none := Machine.holds_of_perform failed
    rw [← same, ← Machine.store_signal m comes] at assigned
    obtain rfl : (Machine.perform p _ h.instruction (m.signal comes)).2 = m' :=
      congrArg Prod.snd failed
    have kept : ((Machine.perform p frame.header h.instruction (m.signal comes)).2.store.get?
        h.v).isSome := Machine.assigned_of_perform assigned
    rw [missing] at kept
    cases kept

private def upward : Header :=
  ⟨1, ⟨"i"⟩, .literal (.integer 1), .literal (.integer 3), .literal (.integer 1)⟩

private def upwardProgram : Program := ⟨#[upward.instruction, ⟨2, .next none⟩], [], []⟩

private def upwardStart : Machine := .initial upwardProgram (.ofSeed 0) (.ofBytes [])

/-- NEXT has come back to a loop that is open. -/
theorem open_loops_in_order_of_upward :
    ∃ past m, Machine.Reached upwardProgram upwardStart past 0 m ∧ m.isOpen 0 = true ∧
      m.LoopsInOrder upwardProgram ∧ m.loops.size = 1 ∧ upwardProgram.loopCount = 1 ∧
      ∀ m', Machine.perform upwardProgram 0 upward.instruction m ≠ (.failed .tooManyLoops, m') ∧
        Machine.perform upwardProgram 0 upward.instruction m ≠
          (.failed (.undefinedVariable ⟨"i"⟩), m') := by
  have begun : Machine.Reached upwardProgram upwardStart [] 0 upwardStart := .start
  have entered := begun.goOn upward.instruction 1 rfl rfl rfl
  have back := entered.goOn ⟨2, .next none⟩ 0 rfl rfl rfl
  obtain ⟨inOrder, _, room, present⟩ := open_loops_in_order rfl back
  exact ⟨_, _, back, rfl, inOrder, rfl, rfl, fun m' =>
    ⟨room (by decide) false _ m' rfl rfl, present false upward m' rfl rfl⟩⟩

end LabelBasic
