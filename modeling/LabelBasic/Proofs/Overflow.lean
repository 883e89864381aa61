import LabelBasic.Proofs.Calls
import LabelBasic.Proofs.Chains
import LabelBasic.Proofs.Continuing

/-!
# Stacks that are too full

A push is refused when the stack is full, but the item is on the stack by then and stays there. So a
stack holds one item more than its capacity for each push it has refused. A GOSUB or FOR that is out
of memory because of its stack leaves it with that item; out of memory for another reason, an
instruction leaves both stacks as they were.
-/
namespace LabelBasic

/-! ### Stacks -/

namespace Stack

variable {ε α : Type} {overflow underflow e : ε} {s t : Stack α} {x : α} {refused : Nat}

theorem push_of_full (overflow : ε) (x : α) (full : capacity ≤ s.size) :
    push overflow x s = .error overflow (s.cons x) :=
  if_pos (Nat.lt_succ_of_le full)

/-- A push fails just when the stack is full, and then its item is on the stack. -/
theorem push_eq_error_iff :
    push overflow x s = .error e t ↔ capacity ≤ s.size ∧ e = overflow ∧ t = s.cons x := by
  constructor
  · intro failed
    by_cases room : s.size < capacity
    · cases (push_of_room overflow x room).symm.trans failed
    · have full : capacity ≤ s.size := Nat.le_of_not_lt room
      cases (push_of_full overflow x full).symm.trans failed
      exact ⟨full, rfl, rfl⟩
  · rintro ⟨full, rfl, rfl⟩
    exact push_of_full e x full

theorem push_eq_ok_iff {u : Unit} :
    push overflow x s = .ok u t ↔ s.size < capacity ∧ t = s.cons x := by
  constructor
  · intro pushed
    by_cases room : s.size < capacity
    · cases (push_of_room overflow x room).symm.trans pushed
      exact ⟨room, rfl⟩
    · cases (push_of_full overflow x (Nat.le_of_not_lt room)).symm.trans pushed
  · rintro ⟨room, rfl⟩
    exact push_of_room overflow x room

/-- Something was done to a stack that was empty, and this many pushes were refused. A push or a pop
that fails leaves a stack all the same. -/
inductive Used (overflow underflow : ε) : Stack α → Nat → Prop
  | empty : Used overflow underflow .empty 0
  | pushed {s t : Stack α} {n : Nat} {x : α} {u : Unit} (used : Used overflow underflow s n)
      (ok : push overflow x s = .ok u t) : Used overflow underflow t n
  | refused {s t : Stack α} {n : Nat} {x : α} {e : ε} (used : Used overflow underflow s n)
      (failed : push overflow x s = .error e t) : Used overflow underflow t (n + 1)
  | popped {s t : Stack α} {n : Nat} {x : α} (used : Used overflow underflow s n)
      (ok : pop underflow s = .ok x t) : Used overflow underflow t n
  | missed {s t : Stack α} {n : Nat} {e : ε} (used : Used overflow underflow s n)
      (failed : pop underflow s = .error e t) : Used overflow underflow t n
  | drained {s : Stack α} {n : Nat} (bottom : Nat) (used : Used overflow underflow s n) :
      Used overflow underflow (s.keepBottom bottom) n

theorem size_keepBottom_le (bottom : Nat) (s : Stack α) : (s.keepBottom bottom).size ≤ s.size := by
  simp [keepBottom, ofList, ← s.size_eq]

theorem eq_tail_of_pop (popped : pop underflow s = .ok x t) : t = s.tail := by
  simp only [pop] at popped
  split at popped
  next => cases popped
  next =>
    cases popped
    rfl

/-- A stack that has refused no push is within its capacity, and each refused push adds at most one
item. -/
theorem Used.size_le (used : Used overflow underflow s refused) :
    s.size ≤ capacity + refused := by
  induction used with
  | empty => exact Nat.zero_le _
  | pushed _ ok ih =>
    obtain ⟨room, rfl⟩ := push_eq_ok_iff.mp ok
    exact Nat.le_add_right_of_le room
  | refused _ failed ih =>
    obtain ⟨_, _, rfl⟩ := push_eq_error_iff.mp failed
    exact Nat.succ_le_succ ih
  | popped _ ok ih =>
    rw [eq_tail_of_pop ok]
    exact (Nat.sub_le _ 1).trans ih
  | @missed s t _ e _ failed ih =>
    rw [t.size_eq, (fault_of_pop failed).2]
    exact Nat.zero_le _
  | drained bottom _ ih => exact (size_keepBottom_le bottom _).trans ih

end Stack

/-! ### Commands -/

/-- One of the two stacks was too full. -/
def Fault.IsOverflow : Fault → Prop
  | tooManyCalls | tooManyLoops => True
  | _ => False

namespace Machine

variable {p : Program} {pc depth : Nat} {c : Command} {i : Instruction} {m m' : Machine} {f : Fault}
  {calls : Stack Nat} {loops : Stack Frame}

/-- What an instruction that is out of memory leaves of the calls and loops there were. -/
inductive Leftover (pc : Nat) (calls : Stack Nat) (loops : Stack Frame) (m' : Machine) :
    Fault → Prop
  /-- The address that GOSUB has no room for is kept. -/
  | call (full : Stack.capacity ≤ calls.size) (kept : m'.calls = calls.cons (pc + 1))
      (apart : m'.loops = loops) : Leftover pc calls loops m' .tooManyCalls
  /-- FOR has given up its old loop, and the new one that it has no room for is kept. -/
  | loop (v : Ident) {outer : Stack Frame}
      (given : outer = loops.dropFromLowest fun frame => frame.header == pc)
      (full : Stack.capacity ≤ outer.size) (kept : m'.loops = outer.cons ⟨v, pc⟩)
      (apart : m'.calls = calls) : Leftover pc calls loops m' .tooManyLoops
  | nothing {f : Fault} (other : ¬f.IsOverflow) (sameCalls : m'.calls = calls)
      (sameLoops : m'.loops = loops) : Leftover pc calls loops m' f

/-- What has nothing to do with the stacks does not find them too full. -/
theorem not_isOverflow {α : Type} {x : Execution α} (oblivious : Oblivious x)
    (fair : ∀ m, Fair p m x) (failed : x m = .error f m') : ¬f.IsOverflow := by
  -- It fails in the same way where both stacks are empty.
  let control : Machine := { m with calls := .empty, loops := .empty }
  have holds := (fair _).holds (oblivious.error failed control)
  intro overflow
  cases f
  case tooManyCalls | tooManyLoops => exact absurd holds (Nat.not_lt_zero _)
  all_goals exact overflow

theorem error_of_pushed {ι : Type} {get : Machine → Stack ι} {set : Machine → Stack ι → Machine}
    {fault : Fault} {x : ι} (failed : onPart get set (Stack.push fault x) m = .error f m') :
    Stack.capacity ≤ (get m).size ∧ f = fault ∧ m' = set m ((get m).cons x) := by
  obtain ⟨t, refused, rfl⟩ := error_of_onPart failed
  obtain ⟨full, rfl, rfl⟩ := Stack.push_eq_error_iff.mp refused
  exact ⟨full, rfl, rfl⟩

theorem leftover_of_gosub {name : String} (failed : gosub p pc name m = .error f m')
    (memory : f.code = .outOfMemory) : Leftover pc m.calls m.loops m' f := by
  cases defined : p.label? name with
  | none =>
    cases (bind_of_error (label_of_none defined m)).symm.trans failed
    cases memory
  | some target =>
    have pushed := error_of_bind_pure ((bind_of_ok (label_of_some defined m)).symm.trans failed)
    obtain ⟨full, rfl, rfl⟩ := error_of_pushed pushed
    exact .call full rfl rfl

/-- GOSUB fails at a full stack, and the address is on it. -/
theorem perform_gosub_of_full {name : String} {line target : Nat}
    (defined : p.label? name = some target) (full : Stack.capacity ≤ m.calls.size) :
    perform p pc ⟨line, .gosub name⟩ m =
      (.failed .tooManyCalls, { m with calls := m.calls.cons (pc + 1) }) := by
  have refused : onCalls (Stack.push .tooManyCalls (pc + 1)) m =
      .error .tooManyCalls { m with calls := m.calls.cons (pc + 1) } := by
    simp only [onCalls, onPart, Stack.push_of_full _ _ full]
  have fails : execute p pc branchLimit (.gosub name) m =
      .error .tooManyCalls { m with calls := m.calls.cons (pc + 1) } := by
    simp only [execute, gosub]
    rw [bind_of_ok (label_of_some defined m), bind_of_error refused]
  simp only [perform, fails]

theorem loopExit_fault (p : Program) (pc : Nat) (v : Ident) :
    Yields (fun _ => True) (fun f => f = .forWithoutNext) (loopExit p pc v) := by
  simp only [loopExit]
  split
  · exact .throw rfl
  · split
    · exact .ite (fun _ => .pure trivial) fun _ => .pure trivial
    · exact .pure trivial

theorem test_fair (h : Header) (again : Bool) : Fair p m (h.test again) := by
  refine (integer_fair h.step).andThen fun s m₁ => ?_
  refine (loopValue_fair again h.v h.first s).andThen fun n m₂ => ?_
  refine (assign_fair h.v _).andThen fun _ m₃ => ?_
  exact (integer_fair h.last).andThen fun bound m₄ => .pure _

/-- Behind its test FOR is out of memory only where it opens its loop. -/
theorem leftover_of_settle {h : Header} {again done : Bool}
    (failed : h.settle p pc again done m = .error f m') (memory : f.code = .outOfMemory) :
    Leftover pc m.calls m.loops m' f := by
  have noExit {m₁ : Machine} : loopExit p pc h.v m₁ ≠ .error f m' := by
    intro failed
    cases (loopExit_fault p pc h.v).of_error failed
    cases memory
  unfold Header.settle at failed
  cases again with
  | true =>
    cases done with
    | true =>
      rcases error_of_bind failed with missed | ⟨_, _, _, failed⟩
      · obtain ⟨_, raised, _⟩ := error_of_onPart missed
        obtain ⟨rfl, _⟩ := Stack.fault_of_pop raised
        cases memory
      · exact absurd failed noExit
    | false => cases failed
  | false =>
    rcases error_of_bind failed with impossible | ⟨_, m₁, given, failed⟩
    · cases impossible
    · cases given
      cases done with
      | true => exact absurd failed noExit
      -- Only here a loop is pushed, when the old one of this FOR has been given up.
      | false =>
        obtain ⟨full, rfl, rfl⟩ := error_of_pushed (error_of_bind_pure failed)
        exact .loop h.v rfl full rfl rfl

theorem leftover_of_loop (h : Header) (failed : loop p pc h.v h.first h.last h.step m = .error f m')
    (memory : f.code = .outOfMemory) : Leftover pc m.calls m.loops m' f := by
  by_cases integer : h.v.kind = .integer
  · rw [Header.loop_eq integer rfl] at failed
    have oblivious := h.test_oblivious (m.isOpen pc)
    have callsKept : Keeps Machine.calls (h.test (m.isOpen pc)) :=
      .control_of_oblivious (fun _ _ => rfl) oblivious
    have loopsKept := Keeps.of_oblivious oblivious
    rcases error_of_bind failed with failed | ⟨done, m₁, tested, failed⟩
    -- The test is before FOR comes to its stack, and it does not look at it.
    · have other := not_isOverflow (p := p) oblivious (fun _ => test_fair h _) failed
      exact .nothing other (callsKept.of_error failed) (loopsKept.of_error failed)
    · rw [← callsKept.of_ok tested, ← loopsKept.of_ok tested]
      exact leftover_of_settle failed memory
  · simp only [loop, ne_eq, integer, not_false_eq_true, if_true] at failed
    cases failed
    cases memory

theorem fault_of_next {w : Option Ident} (failed : Machine.next w m = .error f m') :
    f = .nextWithoutFor w := by
  rcases exists_suits_or_none w m.loops.items with
    none | ⟨inner, frame, outer, items, others, suits⟩
  · cases (next_of_none_suits none).symm.trans failed
    rfl
  · cases (next_of_suits items others suits).symm.trans failed

theorem fault_of_ret (failed : ret m = .error f m') : f = .returnWithoutGosub := by
  cases top : m.calls.top? with
  | none =>
    cases (ret_of_empty top).symm.trans failed
    rfl
  | some back => cases (ret_of_top top).symm.trans failed

theorem leftover_of_execute (other : ¬c.IsBranch) (failed : execute p pc depth c m = .error f m')
    (memory : f.code = .outOfMemory) : Leftover pc m.calls m.loops m' f := by
  by_cases control : c.IsControl
  · cases c <;> unfold execute at failed
    case gosub => exact leftover_of_gosub failed memory
    case loop v first last step => exact leftover_of_loop ⟨0, v, first, last, step⟩ failed memory
    case next w =>
      cases fault_of_next failed
      cases memory
    case ret =>
      cases fault_of_ret failed
      cases memory
    case branch => exact absurd trivial other
    all_goals exact control.elim
  · have oblivious := execute_oblivious p pc depth control
    exact .nothing (not_isOverflow (p := p) oblivious (fun _ => execute_fair pc depth c) failed)
      ((Keeps.control_of_oblivious (fun _ _ => rfl) oblivious).of_error failed)
      ((Keeps.of_oblivious oblivious).of_error failed)

/-- Where IFs come to no command to run, none of the stacks is at fault. -/
theorem not_isOverflow_of_nowhere (nowhere : comesTo? p depth c m = none)
    (failed : execute p pc depth c m = .error f m') : ¬f.IsOverflow := by
  have ended : Nowhere p (.error f m') := failed ▸ execute_nowhere nowhere
  cases ended with
  | @condition e _ _ _ failed =>
    exact not_isOverflow (p := p) (condition_oblivious e) (fun _ => condition_fair e) failed
  | tooDeep => exact id
  | @target name _ _ _ missing =>
    exact not_isOverflow (branchTarget_oblivious p name) (fun _ => branchTarget_fair name) missing

theorem leftover_of_perform (failed : perform p pc i m = (.failed f, m'))
    (memory : f.code = .outOfMemory) : Leftover pc m.calls m.loops m' f := by
  have raised : execute p pc branchLimit i.command m = .error f m' := by
    simp only [perform] at failed
    split at failed
    next => cases failed
    next => cases failed
    next => cases failed
    next raised =>
      cases failed
      exact raised
  have apart {m₁ : Machine} (same : m₁.besidesGenerator = m.besidesGenerator) :
      m₁.calls = m.calls ∧ m₁.loops = m.loops :=
    ⟨calls_of_besides same, part_of_besides (fun _ _ => rfl) same⟩
  rcases execute_cases p pc branchLimit i.command m with
    ⟨c, m₁, left, _, other, same, eq⟩ | ⟨nowhere, same⟩
  · rw [← (apart same).1, ← (apart same).2]
    exact leftover_of_execute other (eq.symm.trans raised) memory
  · rw [Execution.after_of_error raised] at same
    exact .nothing (not_isOverflow_of_nowhere nowhere raised) (apart same).1 (apart same).2

end Machine

open Machine

/-- Whatever was done to a stack that was empty, it holds at most its capacity and one item for each
push that was refused. A push is refused just when the stack is full, and its item stays. So a GOSUB
or FOR that is refused leaves its address or its loop behind; whatever else is out of memory leaves
the calls and loops as they were. -/
theorem refused_push_stays (α : Type) {ε : Type} (overflow underflow : ε) (p : Program) :
    (∀ (s : Stack α) (refused : Nat), s.Used overflow underflow refused →
      s.size ≤ Stack.capacity + refused ∧ ∀ x e t, Stack.push overflow x s = .error e t ↔
        Stack.capacity ≤ s.size ∧ e = overflow ∧ t = s.cons x) ∧
    ∀ pc i m f m', perform p pc i m = (.failed f, m') → f.code = .outOfMemory →
      Leftover pc m.calls m.loops m' f :=
  ⟨fun _ _ used => ⟨used.size_le, fun _ _ _ => Stack.push_eq_error_iff⟩,
    fun _ _ _ _ _ failed memory => leftover_of_perform failed memory⟩

/-- A stack that is full, with the same item all over. -/
private def fullStack : Stack Nat := .ofList (List.replicate Stack.capacity 0)

private theorem used_replicate {n : Nat} (le : n ≤ Stack.capacity) :
    (Stack.ofList (List.replicate n 0)).Used Fault.tooManyCalls .returnWithoutGosub 0 := by
  induction n with
  | zero => exact .empty
  | succ n ih =>
    have room : (Stack.ofList (List.replicate n 0)).size < Stack.capacity := by
      simpa [Stack.ofList] using Nat.lt_of_succ_le le
    have pushed := Stack.push_of_room Fault.tooManyCalls 0 room
    exact .pushed (ih (Nat.le_of_succ_le le)) pushed

private theorem size_fullStack : fullStack.size = Stack.capacity := List.length_replicate ..

private def selfCall : Program := ⟨#[⟨1, .gosub "a"⟩], [("a", 0)], []⟩

private def fullMachine : Machine :=
  { Machine.initial selfCall (.ofSeed 0) (.ofBytes []) with calls := fullStack }

/-- A GOSUB comes to a full stack. -/
theorem refused_push_stays_of_gosub :
    fullStack.Used Fault.tooManyCalls .returnWithoutGosub 0 ∧ fullStack.size ≤ Stack.capacity ∧
      ∃ m', perform selfCall 0 ⟨1, .gosub "a"⟩ fullMachine = (.failed .tooManyCalls, m') ∧
        Leftover 0 fullStack .empty m' .tooManyCalls := by
  have used : fullStack.Used Fault.tooManyCalls .returnWithoutGosub 0 := used_replicate le_rfl
  have defined : selfCall.label? "a" = some 0 := rfl
  have failed : perform selfCall 0 ⟨1, .gosub "a"⟩ fullMachine = (.failed .tooManyCalls, _) :=
    perform_gosub_of_full defined size_fullStack.ge
  have stays := refused_push_stays Nat Fault.tooManyCalls .returnWithoutGosub selfCall
  exact ⟨used, (stays.1 _ _ used).1, _, failed, stays.2 _ _ _ _ _ failed rfl⟩

/-- The push that a full stack refuses makes it too large. -/
theorem not_within_capacity_of_refused : ¬∀ (s : Stack Nat) (refused : Nat),
    s.Used Fault.tooManyCalls .returnWithoutGosub refused → s.size ≤ Stack.capacity ∧
      ∀ x e t, Stack.push Fault.tooManyCalls x s = .error e t → t = s := by
  intro always
  have refused := Stack.push_of_full Fault.tooManyCalls 7 size_fullStack.ge
  have few := (always _ _ (.refused (used_replicate le_rfl) refused)).1
  rw [Stack.size_cons, size_fullStack] at few
  exact Nat.not_succ_le_self _ few

end LabelBasic
