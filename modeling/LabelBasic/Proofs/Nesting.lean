import LabelBasic.Machine.State
import Mathlib.Data.List.Nodup

/-!
# Loops as they are read

A program can be read from the top without running it. FOR opens a loop and NEXT closes loops by the
rule it goes by in a run: the innermost one, or the innermost one on its variable with all that were
opened inside of it. Where this always succeeds, leaves no loop open, and never has two loops open on
one variable, every FOR has one NEXT that closes it.

A loop that is over looks for its NEXT in another way, by counting. What the count comes to is
compared here with the loops that are open: it is right as long as no NEXT closes more than one loop,
and too high from there on.
-/
namespace LabelBasic

/-- The open loops from the one on that a NEXT is for, the innermost first. -/
def outward (w : Option Ident) (opened : List Frame) : List Frame :=
  match w with
  | none => opened
  | some v => opened.dropWhile fun f => f.v != v

/-- The loops open behind a command that stands at `n`, given those open in front of it. There are
none to tell of if NEXT has nothing to close, or if FOR has the variable of an open loop. -/
def Command.reads (n : Nat) (opened : List Frame) : Command → Option (List Frame)
  | .loop v .. => if v ∈ opened.map Frame.v then none else some (⟨v, n⟩ :: opened)
  | .next w =>
    match outward w opened with
    | [] => none
    | _ :: outer => some outer
  | _ => some opened

namespace Program

/-- The loops open in front of the instruction of an index. -/
def openAt (p : Program) : Nat → Option (List Frame)
  | 0 => some []
  | n + 1 =>
    match p.openAt n, p.at? n with
    | some opened, some i => i.command.reads n opened
    | _, _ => none

/-- The loops of the program nest. -/
def Nests (p : Program) : Prop := p.openAt p.size = some []

/-- The frame is that of a FOR. -/
def Opens (p : Program) (f : Frame) : Prop :=
  ∃ line first last step, p.at? f.header = some ⟨line, .loop f.v first last step⟩

/-- The loop is open in front of the instruction, and no longer behind it. -/
def Closes (p : Program) (n : Nat) (f : Frame) : Prop :=
  ∃ before after, p.openAt n = some before ∧ p.openAt (n + 1) = some after ∧
    f ∈ before ∧ f ∉ after

/-- The instruction is a NEXT with this variable. -/
def Names (p : Program) (n : Nat) (v : Ident) : Prop :=
  ∃ line, p.at? n = some ⟨line, .next (some v)⟩

/-- The instruction closes no more than one loop. -/
def ClosesOne (p : Program) (n : Nat) : Prop :=
  ∀ before after, p.openAt n = some before → p.openAt (n + 1) = some after →
    before.length ≤ after.length + 1

/-- The loop is the innermost of the open ones. -/
def Innermost (p : Program) (n : Nat) (f : Frame) : Prop :=
  ∃ outer, p.openAt n = some (f :: outer)

end Program

/-! ### One command -/

section

variable {n : Nat} {opened after : List Frame} {f : Frame} {w : Option Ident} {c : Command}

theorem outward_eq_cons (reached : outward w opened = f :: after) :
    ∃ inner, opened = inner ++ f :: after ∧ ∀ v, w = some v → f.v = v := by
  cases w with
  | none => exact ⟨[], reached, nofun⟩
  | some v =>
    change opened.dropWhile _ = _ at reached
    refine ⟨opened.takeWhile fun f => f.v != v, ?_, ?_⟩
    · rw [← reached, List.takeWhile_append_dropWhile]
    · rintro _ ⟨⟩
      -- The loops that are passed over are on other variables, and the first that is not ends them.
      have met := List.head_dropWhile_not (fun f : Frame => f.v != v) (l := opened)
        (by simp [reached])
      simpa [reached] using met

/-- NEXT closes loops from the innermost on, the last of them on its variable. -/
theorem reads_next (reads : (Command.next w).reads n opened = some after) :
    ∃ inner f, opened = inner ++ f :: after ∧ ∀ v, w = some v → f.v = v := by
  simp only [Command.reads] at reads
  split at reads
  next => cases reads
  next f outer reached =>
    cases reads
    obtain ⟨inner, split, named⟩ := outward_eq_cons reached
    exact ⟨inner, f, split, named⟩

/-- A command that is no NEXT leaves the open loops open, and opens at most one on a new variable. -/
theorem reads_other (reads : c.reads n opened = some after) (other : ∀ w, c ≠ .next w) :
    after = opened ∨ ∃ v first last step, c = .loop v first last step ∧
      v ∉ opened.map Frame.v ∧ after = ⟨v, n⟩ :: opened := by
  cases c with
  | next w => exact absurd rfl (other w)
  | loop v first last step =>
    simp only [Command.reads] at reads
    split at reads
    next => cases reads
    next new =>
      cases reads
      exact .inr ⟨v, first, last, step, rfl, new, rfl⟩
  | _ =>
    cases reads
    exact .inl rfl

/-- The loops open behind a command were open in front of it, or the command opened them. -/
theorem mem_of_reads (reads : c.reads n opened = some after) (member : f ∈ after) :
    f ∈ opened ∨ f.header = n := by
  by_cases next : ∃ w, c = .next w
  · obtain ⟨w, rfl⟩ := next
    obtain ⟨inner, g, rfl, _⟩ := reads_next reads
    exact .inl (by simp [member])
  · obtain rfl | ⟨v, _, _, _, _, _, rfl⟩ := reads_other reads (not_exists.mp next)
    · exact .inl member
    · rcases List.mem_cons.mp member with rfl | outer
      · exact .inr rfl
      · exact .inl outer

theorem nodup_reads (reads : c.reads n opened = some after) (nodup : (opened.map Frame.v).Nodup) :
    (after.map Frame.v).Nodup := by
  by_cases next : ∃ w, c = .next w
  · obtain ⟨w, rfl⟩ := next
    obtain ⟨inner, g, rfl, _⟩ := reads_next reads
    rw [List.map_append, List.map_cons] at nodup
    exact (List.nodup_cons.mp (List.nodup_append.mp nodup).2.1).2
  · obtain rfl | ⟨v, _, _, _, _, new, rfl⟩ := reads_other reads (not_exists.mp next)
    · exact nodup
    · exact List.nodup_cons.mpr ⟨new, nodup⟩

end

/-! ### The loops open at an instruction -/

namespace Program

variable {p : Program} {n m : Nat} {opened after : List Frame} {f : Frame}

theorem openAt_succ (read : p.openAt (n + 1) = some after) :
    ∃ opened i, p.openAt n = some opened ∧ p.at? n = some i ∧
      i.command.reads n opened = some after := by
  rw [openAt] at read
  split at read
  next opened i before found => exact ⟨opened, i, before, found, read⟩
  next => cases read

theorem openAt_of_le (le : m ≤ n) (read : p.openAt n = some after) :
    ∃ opened, p.openAt m = some opened := by
  induction le generalizing after with
  | refl => exact ⟨after, read⟩
  | step _ ih =>
    obtain ⟨opened, _, before, _, _⟩ := openAt_succ read
    exact ih before

theorem header_lt (read : p.openAt n = some opened) (member : f ∈ opened) : f.header < n := by
  induction n generalizing opened with
  | zero =>
    cases read
    cases member
  | succ n ih =>
    obtain ⟨before, i, earlier, _, reads⟩ := openAt_succ read
    rcases mem_of_reads reads member with old | new
    · exact Nat.lt_succ_of_lt (ih earlier old)
    · exact Nat.lt_succ_of_le (Nat.le_of_eq new)

/-- No two open loops have one variable. -/
theorem nodup_openAt (read : p.openAt n = some opened) : (opened.map Frame.v).Nodup := by
  induction n generalizing opened with
  | zero =>
    cases read
    exact List.nodup_nil
  | succ n ih =>
    obtain ⟨before, i, earlier, _, reads⟩ := openAt_succ read
    exact nodup_reads reads (ih earlier)

/-- A loop that is closed is not opened again. -/
theorem not_mem_of_closed (le : n ≤ m) (past : f.header < n) (read : p.openAt n = some opened)
    (closed : f ∉ opened) (later : p.openAt m = some after) : f ∉ after := by
  induction le generalizing after with
  | refl =>
    cases read.symm.trans later
    exact closed
  | step le ih =>
    obtain ⟨before, i, earlier, _, reads⟩ := openAt_succ later
    intro member
    rcases mem_of_reads reads member with old | new
    · exact ih earlier old
    · have := Nat.lt_of_lt_of_le past le
      omega

theorem closesOne_iff (read : p.openAt n = some opened) (later : p.openAt (n + 1) = some after) :
    p.ClosesOne n ↔ opened.length ≤ after.length + 1 := by
  constructor
  · exact fun one => one opened after read later
  · rintro few _ _ before behind
    cases read.symm.trans before
    cases later.symm.trans behind
    exact few

theorem drop_of_at? {i : Instruction} (found : p.at? n = some i) :
    p.instructions.toList.drop n = i :: p.instructions.toList.drop (n + 1) := by
  have bound : n < p.instructions.toList.length := by
    simpa using (Array.getElem?_eq_some_iff.mp found).1
  rw [List.drop_eq_getElem_cons bound]
  congr 1
  simpa using (Array.getElem?_eq_some_iff.mp found).2

/-- A search never answers an index it has passed. -/
theorem le_of_closing? {v : Ident} {depth i k : Nat} {is : List Instruction}
    (found : closing? v depth i is = some k) : i ≤ k := by
  induction is generalizing depth i with
  | nil => cases found
  | cons instruction rest ih =>
    rw [closing?] at found
    split at found
    · exact Nat.le_of_succ_le (ih found)
    · split at found
      · exact Nat.le_of_eq (Option.some.inj found)
      · exact Nat.le_of_succ_le (ih found)
    · exact Nat.le_of_succ_le (ih found)

end Program

/-! ### The search for a NEXT -/

/-- NEXT closes a run of loops; a loop that stays open has those of its inner loops left that do not
belong to the run. -/
theorem inner_of_kept {f : Frame} {inner outer closed after : List Frame}
    (same : inner ++ f :: outer = closed ++ after) (kept : f ∈ after) (once : f ∉ outer) :
    ∃ left, inner = closed ++ left ∧ after = left ++ f :: outer := by
  rcases List.append_eq_append_iff.mp same with ⟨left, rfl, split⟩ | ⟨left, split, rfl⟩
  · cases left with
    | nil => exact ⟨[], by simp, by simpa using split.symm⟩
    | cons g left =>
      -- The run would reach beyond the loop, and then it would not be open any more.
      obtain ⟨rfl, rfl⟩ := List.cons.inj split
      exact absurd (List.mem_append_right left kept) once
  · exact ⟨left, split, rfl⟩

/-- The search for the NEXT of a loop has come to the instruction `n` with this depth. Of the loops
opened since, `inner` are open. -/
structure Searching (p : Program) (f : Frame) (n : Nat) (inner outer : List Frame) (depth : Nat) :
    Prop where
  past : f.header < n
  opened : p.openAt n = some (inner ++ f :: outer)
  search : p.matchingNext? f.header f.v =
    Program.closing? f.v depth n (p.instructions.toList.drop n)
  counted : inner.length ≤ depth
  exact_ : depth = inner.length ↔ ∀ j, f.header < j → j < n → p.ClosesOne j

namespace Searching

variable {p : Program} {f : Frame} {n depth : Nat} {inner outer after : List Frame}

theorem start {first : List Frame} (opens : p.Opens f)
    (read : p.openAt (f.header + 1) = some first) :
    ∃ outer, Searching p f (f.header + 1) [] outer 0 := by
  obtain ⟨line, lower, upper, step, found⟩ := opens
  obtain ⟨outer, i, before, found', reads⟩ := Program.openAt_succ read
  cases found.symm.trans found'
  simp only [Command.reads] at reads
  split at reads
  next => cases reads
  next =>
    cases reads
    refine ⟨outer, Nat.lt_succ_self _, read, rfl, Nat.le_refl _, ?_⟩
    simp only [List.length_nil, true_iff]
    omega

variable (scan : Searching p f n inner outer depth)

include scan

theorem nodup : (inner.map Frame.v ++ f.v :: outer.map Frame.v).Nodup := by
  simpa using Program.nodup_openAt scan.opened

/-- A loop inside of the loop is on another variable. -/
theorem ne_of_mem_inner {g : Frame} (member : g ∈ inner) : g.v ≠ f.v :=
  (List.nodup_append.mp scan.nodup).2.2 _ (List.mem_map_of_mem member) _ (List.mem_cons_self ..)

theorem not_mem_outer : f ∉ outer := fun member =>
  (List.nodup_cons.mp (List.nodup_append.mp scan.nodup).2.1).1 (List.mem_map_of_mem member)

/-- What the search does with an instruction. -/
theorem search_at {i : Instruction} (found : p.at? n = some i) :
    p.matchingNext? f.header f.v =
      Program.closing? f.v depth n (i :: p.instructions.toList.drop (n + 1)) := by
  rw [scan.search, Program.drop_of_at? found]

theorem exact_succ (later : p.openAt (n + 1) = some after) :
    (depth = inner.length ∧ (inner ++ f :: outer).length ≤ after.length + 1) ↔
      ∀ j, f.header < j → j < n + 1 → p.ClosesOne j := by
  rw [scan.exact_, ← Program.closesOne_iff scan.opened later]
  constructor
  · rintro ⟨before, here⟩ j above below
    rcases Nat.lt_succ_iff_lt_or_eq.mp below with earlier | rfl
    · exact before j above earlier
    · exact here
  · intro each
    exact ⟨fun j above below => each j above (Nat.lt_succ_of_lt below),
      each n scan.past (Nat.lt_succ_self n)⟩

theorem step_next {line : Nat} {w : Option Ident} (found : p.at? n = some ⟨line, .next w⟩)
    (reads : (Command.next w).reads n (inner ++ f :: outer) = some after)
    (later : p.openAt (n + 1) = some after) (kept : f ∈ after) :
    ∃ inner depth, Searching p f (n + 1) inner outer depth := by
  obtain ⟨closed, g, same, named⟩ := reads_next reads
  rw [List.append_cons closed g after] at same
  obtain ⟨left, rfl, rfl⟩ := inner_of_kept same kept scan.not_mem_outer
  have exact_ := scan.exact_succ later
  have counted := scan.counted
  simp only [List.length_append, List.length_cons, List.length_nil] at exact_ counted
  -- The NEXT belongs to a loop inside of this one, so there is one to count down.
  have goesOn : ¬(w = some f.v ∨ depth = 0) := by
    rintro (rfl | rfl)
    · exact scan.ne_of_mem_inner (by simp) (named f.v rfl)
    · omega
  refine ⟨left, depth - 1, Nat.lt_succ_of_lt scan.past, later, ?_, by omega, ?_⟩
  · rw [scan.search_at found, Program.closing?]
    exact if_neg goesOn
  · rw [← exact_]
    omega

theorem step_loop {line : Nat} {v : Ident} {first last step : Expr}
    (found : p.at? n = some ⟨line, .loop v first last step⟩)
    (later : p.openAt (n + 1) = some (⟨v, n⟩ :: (inner ++ f :: outer))) :
    Searching p f (n + 1) (⟨v, n⟩ :: inner) outer (depth + 1) where
  past := Nat.lt_succ_of_lt scan.past
  opened := later
  search := scan.search_at found
  counted := Nat.succ_le_succ scan.counted
  exact_ := by
    rw [← scan.exact_succ later]
    simp only [List.length_append, List.length_cons]
    omega

/-- While the loop stays open, the search goes on. -/
theorem step (later : p.openAt (n + 1) = some after) (kept : f ∈ after) :
    ∃ inner depth, Searching p f (n + 1) inner outer depth := by
  obtain ⟨opened, ⟨line, c⟩, before, found, reads⟩ := Program.openAt_succ later
  cases scan.opened.symm.trans before
  cases c with
  | next w => exact scan.step_next found reads later kept
  | loop v first last step =>
    simp only [Command.reads] at reads
    split at reads
    next => cases reads
    next =>
      cases reads
      exact ⟨_, _, scan.step_loop found later⟩
  | _ =>
    cases reads
    have exact_ := scan.exact_succ later
    exact ⟨inner, depth, Nat.lt_succ_of_lt scan.past, later, scan.search_at found, scan.counted,
      by rw [← exact_]; omega⟩

/-- Where the loop is closed, the search is over if the NEXT names the variable or the count is back
at zero; otherwise it passes the instruction by. -/
theorem settle (later : p.openAt (n + 1) = some after) (closed : f ∉ after) :
    p.matchingNext? f.header f.v = some n ↔ p.Names n f.v ∨ depth = 0 := by
  obtain ⟨opened, ⟨line, c⟩, before, found, reads⟩ := Program.openAt_succ later
  cases scan.opened.symm.trans before
  cases c with
  | next w =>
    have names : p.Names n f.v ↔ w = some f.v := by
      simp [Program.Names, found]
    rw [scan.search_at found, Program.closing?, names]
    dsimp only
    split
    next finished => simp [finished]
    next on =>
      -- Whatever is found from here on stands behind the instruction.
      have behind : Program.closing? f.v (depth - 1) (n + 1) (p.instructions.toList.drop (n + 1)) ≠
          some n := fun same => absurd (Program.le_of_closing? same) (Nat.not_succ_le_self n)
      simp [on, behind]
  | loop v first last step =>
    simp only [Command.reads] at reads
    split at reads
    next => cases reads
    next =>
      cases reads
      exact absurd (by simp) closed
  | _ =>
    cases reads
    exact absurd (by simp) closed

theorem innermost_iff : p.Innermost n f ↔ inner = [] := by
  constructor
  · rintro ⟨_, first⟩
    cases inner with
    | nil => rfl
    | cons g inner =>
      -- The innermost loop would be both this one and one inside of it.
      obtain ⟨rfl, _⟩ := List.cons.inj (Option.some.inj (scan.opened.symm.trans first))
      exact absurd rfl (scan.ne_of_mem_inner (List.mem_cons_self ..))
  · rintro rfl
    exact ⟨outer, scan.opened⟩

theorem depth_eq_zero_iff :
    depth = 0 ↔ p.Innermost n f ∧ ∀ j, f.header < j → j < n → p.ClosesOne j := by
  rw [scan.innermost_iff, ← scan.exact_]
  have counted := scan.counted
  constructor
  · rintro rfl
    have none : inner = [] := List.length_eq_zero_iff.mp (Nat.le_zero.mp counted)
    simp [none]
  · rintro ⟨rfl, same⟩
    exact same

omit scan in
/-- Wherever the loop is open, the search for its NEXT comes by. -/
theorem reach {opened : List Frame} (opens : p.Opens f) (past : f.header < n)
    (read : p.openAt n = some opened) (member : f ∈ opened) :
    ∃ inner outer depth, Searching p f n inner outer depth := by
  induction past generalizing opened with
  | refl =>
    obtain ⟨outer, scan⟩ := start opens read
    exact ⟨[], outer, 0, scan⟩
  | step past ih =>
    obtain ⟨before, _, earlier, _, _⟩ := Program.openAt_succ read
    have already : f ∈ before := by
      by_contra closed
      exact Program.not_mem_of_closed (Nat.le_succ _) past earlier closed read member
    obtain ⟨inner, outer, depth, scan⟩ := ih earlier already
    obtain ⟨inner, depth, scan⟩ := scan.step read member
    exact ⟨inner, outer, depth, scan⟩

end Searching

namespace Program

variable {p : Program}

/-- A loop that is open at first and closed at last is closed by some instruction. -/
theorem exists_closes {n m : Nat} {f : Frame} {opened after : List Frame} (le : n ≤ m)
    (read : p.openAt n = some opened) (member : f ∈ opened) (later : p.openAt m = some after)
    (closed : f ∉ after) : ∃ k, p.Closes k f := by
  induction le generalizing after with
  | refl =>
    cases read.symm.trans later
    exact absurd member closed
  | step _ ih =>
    obtain ⟨before, _, earlier, _, _⟩ := openAt_succ later
    by_cases still : f ∈ before
    · exact ⟨_, before, after, earlier, later, still, closed⟩
    · exact ih earlier still

end Program

/-- Where the loops of a program nest, every FOR has a NEXT that closes it. The search that counts
finds this NEXT if and only if it names the variable, or the loop is the innermost one there and no
NEXT in between closes more than one loop. -/
theorem matchingNext?_of_nests {p : Program} (nests : p.Nests) {f : Frame} (opens : p.Opens f) :
    (∃ n, p.Closes n f) ∧ ∀ n, p.Closes n f →
      (p.matchingNext? f.header f.v = some n ↔
        p.Names n f.v ∨ p.Innermost n f ∧ ∀ j, f.header < j → j < n → p.ClosesOne j) := by
  constructor
  · have inside : f.header + 1 ≤ p.size := by
      obtain ⟨_, _, _, _, found⟩ := opens
      exact (Array.getElem?_eq_some_iff.mp found).1
    obtain ⟨first, read⟩ := Program.openAt_of_le inside nests
    obtain ⟨outer, scan⟩ := Searching.start opens read
    exact Program.exists_closes inside scan.opened (by simp) nests (by simp)
  · rintro n ⟨before, after, read, later, member, closed⟩
    obtain ⟨inner, outer, depth, scan⟩ :=
      Searching.reach opens (Program.header_lt read member) read member
    rw [scan.settle later closed, scan.depth_eq_zero_iff]

/-- Three loops: the NEXT of the second closes the third as well, and a bare NEXT closes the first. -/
private def skippingProgram : Program where
  instructions :=
    #[⟨1, .loop ⟨"a"⟩ (.literal (.integer 0)) (.literal (.integer 2)) (.literal (.integer 1))⟩,
      ⟨2, .loop ⟨"b"⟩ (.literal (.integer 0)) (.literal (.integer 1)) (.literal (.integer 1))⟩,
      ⟨3, .loop ⟨"c"⟩ (.literal (.integer 0)) (.literal (.integer 1)) (.literal (.integer 1))⟩,
      ⟨4, .next (some ⟨"b"⟩)⟩, ⟨5, .next none⟩]
  labels := []
  data := []

theorem matchingNext?_of_nests_for_an_inner_loop :
    skippingProgram.Nests ∧ skippingProgram.Closes 3 ⟨⟨"c"⟩, 2⟩ ∧
      skippingProgram.matchingNext? 2 ⟨"c"⟩ = some 3 := by
  have nests : skippingProgram.Nests := rfl
  have closes : skippingProgram.Closes 3 ⟨⟨"c"⟩, 2⟩ :=
    ⟨_, _, rfl, rfl, by decide, by decide⟩
  have opens : skippingProgram.Opens ⟨⟨"c"⟩, 2⟩ := ⟨_, _, _, _, rfl⟩
  refine ⟨nests, closes, ((matchingNext?_of_nests nests opens).2 3 closes).mpr (.inr ⟨⟨_, rfl⟩, ?_⟩)⟩
  -- There is nothing between this FOR and the NEXT.
  intro j above below
  exact absurd (Nat.lt_of_lt_of_le above (Nat.le_of_lt_succ below)) (Nat.lt_irrefl 2)

/-- The count does not find the bare NEXT, because the one in front of it closes two loops and is
counted as one. -/
theorem not_matchingNext?_of_closes : ¬∀ (p : Program) (f : Frame) (n : Nat),
    p.Nests → p.Opens f → p.Closes n f → p.matchingNext? f.header f.v = some n := by
  intro always
  have closes : skippingProgram.Closes 4 ⟨⟨"a"⟩, 0⟩ := ⟨_, _, rfl, rfl, by decide, by decide⟩
  have found := always skippingProgram ⟨⟨"a"⟩, 0⟩ 4 rfl ⟨_, _, _, _, rfl⟩ closes
  have nothing : skippingProgram.matchingNext? 0 ⟨"a"⟩ = none := rfl
  cases nothing.symm.trans found

end LabelBasic
