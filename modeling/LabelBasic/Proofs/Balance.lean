import LabelBasic.Proofs.Nesting
import LabelBasic.Proofs.OpenLoops
import Mathlib.Data.Nat.Find
import Mathlib.Order.Bounds.Basic

/-!
# The count of a search

The search for the NEXT of a loop keeps a depth. Up to the NEXT it finds, this is how many more FORs
than NEXTs it has passed, in any program, however its loops stand to each other. So the search finds
the first NEXT that names the variable or has passed as many of the one as of the other, and the
depth is never below zero.
-/
namespace LabelBasic

/-- The command is NEXT. -/
def Command.isNext : Command → Bool
  | .next _ => true
  | _ => false

namespace Program

/-- The instructions strictly between two indices. -/
def between (p : Program) (i j : Nat) : List Instruction :=
  (p.instructions.toList.take j).drop (i + 1)

def forsBetween (p : Program) (i j : Nat) : Nat := (p.between i j).countP fun i => i.command.isFor

def nextsBetween (p : Program) (i j : Nat) : Nat := (p.between i j).countP fun i => i.command.isNext

/-- The instruction of index `j` is a NEXT for a loop on `v` whose FOR has the index `i`: it names
`v`, or there are as many NEXTs as FORs between the two. -/
def EndsLoop (p : Program) (i : Nat) (v : Ident) (j : Nat) : Prop :=
  i < j ∧ ∃ line w, p.at? j = some ⟨line, .next w⟩ ∧
    (w = some v ∨ p.forsBetween i j = p.nextsBetween i j)

variable {p : Program} {i n : Nat} {v : Ident} {instruction : Instruction}

theorem between_succ_self (p : Program) (i : Nat) : p.between i (i + 1) = [] :=
  List.drop_eq_nil_of_le (List.length_take_le ..)

theorem between_succ (past : i < n) (found : p.at? n = some instruction) :
    p.between i (n + 1) = p.between i n ++ [instruction] := by
  have here : p.instructions.toList[n]? = some instruction := by simpa [at?] using found
  have inside : n < p.instructions.toList.length := (List.getElem?_eq_some_iff.mp here).1
  have before : i + 1 ≤ (p.instructions.toList.take n).length := by
    rw [List.length_take]
    omega
  rw [between, List.take_add_one, here, Option.toList_some, List.drop_append_of_le_length before]
  rfl

theorem countP_between_succ (q : Instruction → Bool) (past : i < n)
    (found : p.at? n = some instruction) :
    (p.between i (n + 1)).countP q = (p.between i n).countP q + if q instruction then 1 else 0 := by
  simp [between_succ past found, List.countP_singleton]

theorem forsBetween_succ (past : i < n) (found : p.at? n = some instruction) :
    p.forsBetween i (n + 1) = p.forsBetween i n + if instruction.command.isFor then 1 else 0 :=
  countP_between_succ _ past found

theorem nextsBetween_succ (past : i < n) (found : p.at? n = some instruction) :
    p.nextsBetween i (n + 1) = p.nextsBetween i n + if instruction.command.isNext then 1 else 0 :=
  countP_between_succ _ past found

/-! ### The search, instruction by instruction -/

/-- The search for the NEXT of a loop on `v` has come from the FOR of index `i` to the instruction
of index `n`, with this depth. -/
structure Scanning (p : Program) (i : Nat) (v : Ident) (n depth : Nat) : Prop where
  past : i < n
  search : p.matchingNext? i v = closing? v depth n (p.instructions.toList.drop n)
  count : p.nextsBetween i n + depth = p.forsBetween i n

namespace Scanning

variable {depth : Nat}

theorem start (p : Program) (i : Nat) (v : Ident) : Scanning p i v (i + 1) 0 where
  past := Nat.lt_succ_self i
  search := rfl
  count := by simp [nextsBetween, forsBetween, between_succ_self]

variable (scan : Scanning p i v n depth)

include scan

theorem search_at (found : p.at? n = some instruction) :
    p.matchingNext? i v =
      closing? v depth n (instruction :: p.instructions.toList.drop (n + 1)) := by
  rw [scan.search, drop_of_at? found]

theorem depth_eq_zero_iff : depth = 0 ↔ p.forsBetween i n = p.nextsBetween i n := by
  have count := scan.count
  omega

/-- A NEXT that does not end the loop has a loop to count down. -/
theorem step_next {line : Nat} {w : Option Ident} (found : p.at? n = some ⟨line, .next w⟩)
    (open_ : ¬p.EndsLoop i v n) : Scanning p i v (n + 1) (depth - 1) := by
  have goesOn : ¬(w = some v ∨ depth = 0) := by
    rw [scan.depth_eq_zero_iff]
    exact fun ends => open_ ⟨scan.past, line, w, found, ends⟩
  refine ⟨Nat.lt_succ_of_lt scan.past, ?_, ?_⟩
  · rw [scan.search_at found, closing?]
    exact if_neg goesOn
  · have positive : depth ≠ 0 := fun zero => goesOn (.inr zero)
    have count := scan.count
    rw [nextsBetween_succ scan.past found, forsBetween_succ scan.past found]
    simp only [Command.isNext, Command.isFor, if_true, Bool.false_eq_true, if_false]
    omega

/-- The search goes on at an instruction that does not end the loop. -/
theorem step (found : p.at? n = some instruction) (open_ : ¬p.EndsLoop i v n) :
    ∃ depth, Scanning p i v (n + 1) depth := by
  obtain ⟨line, c⟩ := instruction
  have past := scan.past
  have count := scan.count
  have fors := forsBetween_succ past found
  have nexts := nextsBetween_succ past found
  cases c with
  | next w => exact ⟨_, scan.step_next found open_⟩
  -- A FOR is one more to find the NEXT of, and nothing else is counted.
  | loop v' first last step =>
    refine ⟨depth + 1, Nat.lt_succ_of_lt past, scan.search_at found, ?_⟩
    rw [fors, nexts]
    exact congrArg (· + 1) count
  | _ =>
    refine ⟨depth, Nat.lt_succ_of_lt past, scan.search_at found, ?_⟩
    rw [fors, nexts]
    exact count

/-- The search is over at an instruction that ends the loop. -/
theorem found_of_endsLoop (ends : p.EndsLoop i v n) : p.matchingNext? i v = some n := by
  obtain ⟨_, line, w, found, ends⟩ := ends
  rw [scan.search_at found, closing?]
  exact if_pos (ends.imp_right scan.depth_eq_zero_iff.mpr)

omit scan in
/-- As long as no instruction has ended the loop, the search goes on. -/
theorem reach (past : i < n) (inside : n ≤ p.size) (open_ : ∀ j < n, ¬p.EndsLoop i v j) :
    ∃ depth, Scanning p i v n depth := by
  induction past with
  | refl => exact ⟨0, start p i v⟩
  | step past ih =>
    obtain ⟨depth, scan⟩ := ih (by omega) fun j before => open_ j (Nat.lt_succ_of_lt before)
    obtain ⟨instruction, found⟩ : ∃ instruction, p.at? _ = some instruction :=
      ⟨_, Array.getElem?_eq_getElem inside⟩
    exact scan.step found (open_ _ (Nat.lt_succ_self _))

end Scanning

/-! ### What it finds -/

theorem matchingNext?_of_isLeast {j : Nat} (least : IsLeast {j | p.EndsLoop i v j} j) :
    p.matchingNext? i v = some j := by
  obtain ⟨past, _, _, found, _⟩ := least.1
  have inside : j < p.size := (Array.getElem?_eq_some_iff.mp found).1
  obtain ⟨depth, scan⟩ := Scanning.reach past inside.le fun k before ends =>
    absurd (least.2 ends) (Nat.not_le.mpr before)
  exact scan.found_of_endsLoop least.1

theorem matchingNext?_eq_none (open_ : ∀ j, ¬p.EndsLoop i v j) : p.matchingNext? i v = none := by
  -- The search comes to the end of the program, or it has begun behind it.
  have reached : ∃ n depth, p.size ≤ n ∧ Scanning p i v n depth := by
    by_cases inside : i < p.size
    · obtain ⟨depth, scan⟩ := Scanning.reach inside le_rfl fun j _ => open_ j
      exact ⟨p.size, depth, le_rfl, scan⟩
    · exact ⟨i + 1, 0, by omega, .start p i v⟩
  obtain ⟨n, depth, behind, scan⟩ := reached
  rw [scan.search, List.drop_eq_nil_of_le (by simpa [size] using behind), closing?]

theorem exists_isLeast_endsLoop {j : Nat} (ends : p.EndsLoop i v j) :
    ∃ j, IsLeast {j | p.EndsLoop i v j} j := by
  classical
  have exists_ends : ∃ j, p.EndsLoop i v j := ⟨j, ends⟩
  refine ⟨Nat.find exists_ends, Nat.find_spec exists_ends, fun _ ends => ?_⟩
  exact Nat.find_min' exists_ends ends

theorem isLeast_of_matchingNext? {j : Nat} (found : p.matchingNext? i v = some j) :
    IsLeast {j | p.EndsLoop i v j} j := by
  -- Both the least end and the lack of any decide what is found, so one of them was the case.
  by_cases ends : ∃ j, p.EndsLoop i v j
  · obtain ⟨_, ends⟩ := ends
    obtain ⟨k, least⟩ := exists_isLeast_endsLoop ends
    cases found.symm.trans (matchingNext?_of_isLeast least)
    exact least
  · cases found.symm.trans (matchingNext?_eq_none (not_exists.mp ends))

end Program

/-- The search for the NEXT of a loop finds the first one behind the FOR that names the variable, or
that has as many NEXTs as FORs between the FOR and itself, and finds nothing if and only if there is
none. At each instruction it comes to, its depth is exactly the number of FORs passed less that of
NEXTs. -/
theorem matchingNext?_first_balanced (p : Program) (i : Nat) (v : Ident) :
    (∀ j, p.matchingNext? i v = some j ↔ IsLeast {j | p.EndsLoop i v j} j) ∧
      (p.matchingNext? i v = none ↔ ∀ j, ¬p.EndsLoop i v j) ∧
      ∀ n, i < n → n ≤ p.size → (∀ j < n, ¬p.EndsLoop i v j) →
        ∃ depth : Nat, (depth : Int) = p.forsBetween i n - p.nextsBetween i n ∧
          p.matchingNext? i v = Program.closing? v depth n (p.instructions.toList.drop n) := by
  refine ⟨fun j => ⟨Program.isLeast_of_matchingNext?, Program.matchingNext?_of_isLeast⟩,
    ⟨fun nothing j ends => ?_, Program.matchingNext?_eq_none⟩, fun n past inside open_ => ?_⟩
  · obtain ⟨k, least⟩ := Program.exists_isLeast_endsLoop ends
    cases nothing.symm.trans (Program.matchingNext?_of_isLeast least)
  · obtain ⟨depth, scan⟩ := Program.Scanning.reach past inside open_
    exact ⟨depth, by have count := scan.count; omega, scan.search⟩

end LabelBasic
