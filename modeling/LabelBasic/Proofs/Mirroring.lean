import LabelBasic.Proofs.Insertion
import LabelBasic.Proofs.Reentry
import Mathlib.Data.List.Forall2

/-!
# Machines of a program with one more DATA

A machine of the program and one of the program with one more DATA correspond when they differ in
nothing but the addresses that they have kept. Then every instruction does the same to both, and
leads both to the same instruction, or one of them to the DATA right before it.
-/
namespace LabelBasic

variable {n : Nat}

/-! ### Correspondence -/

/-- An open loop, where its FOR is once there is one more instruction. -/
def Frame.shift (n : Nat) (frame : Frame) : Frame := ⟨frame.v, shifted n frame.header⟩

/-- Control goes to the same instruction, or to the one more right before it. -/
inductive Flow.Leads (n : Nat) : Flow → Flow → Prop
  | next : Leads n .next .next
  | jump {k k' : Nat} (leads : LabelBasic.Leads n k k') : Leads n (.jump k) (.jump k')
  | halt : Leads n .halt .halt

namespace Machine

/-- The machines differ in the addresses of calls and loops only, and these are those of the same
instructions. -/
structure Corresponds (n : Nat) (m m' : Machine) : Prop where
  same : m.under m' = m'
  interrupted : m'.interrupted = m.interrupted
  calls : List.Forall₂ (Leads n) m.calls.items m'.calls.items
  loops : m'.loops.items = m.loops.items.map (Frame.shift n)

namespace Corresponds

variable {m m' m₁ : Machine}

/-- What leaves the control state alone leaves machines that correspond. -/
theorem under (corresponds : Corresponds n m m') (kept : m₁.under m = m₁) :
    Corresponds n m₁ (m₁.under m') := by
  obtain ⟨_, interrupted, calls, loops⟩ := corresponds
  rw [← kept]
  exact ⟨rfl, interrupted, calls, loops⟩

theorem withCalls (corresponds : Corresponds n m m') {calls calls' : Stack Nat}
    (leads : List.Forall₂ (Leads n) calls.items calls'.items) :
    Corresponds n { m with calls } { m' with calls := calls' } := by
  obtain ⟨same, interrupted, _, loops⟩ := corresponds
  refine ⟨?_, interrupted, leads, loops⟩
  have changed := congrArg (fun machine : Machine => { machine with calls := calls' }) same
  exact changed

theorem withLoops (corresponds : Corresponds n m m') {loops loops' : Stack Frame}
    (shifts : loops'.items = loops.items.map (Frame.shift n)) :
    Corresponds n { m with loops } { m' with loops := loops' } := by
  obtain ⟨same, interrupted, calls, _⟩ := corresponds
  refine ⟨?_, interrupted, calls, shifts⟩
  have changed := congrArg (fun machine : Machine => { machine with loops := loops' }) same
  exact changed

theorem calls_size (corresponds : Corresponds n m m') : m'.calls.size = m.calls.size := by
  rw [Stack.size_eq, Stack.size_eq, corresponds.calls.length_eq]

theorem loops_size (corresponds : Corresponds n m m') : m'.loops.size = m.loops.size := by
  rw [Stack.size_eq, Stack.size_eq, corresponds.loops, List.length_map]

theorem top_loop (corresponds : Corresponds n m m') :
    m'.loops.top? = m.loops.top?.map (Frame.shift n) := by
  rw [Stack.top?, corresponds.loops, List.head?_map]
  rfl

theorem isOpen_eq (corresponds : Corresponds n m m') (pc : Nat) :
    m'.isOpen (shifted n pc) = m.isOpen pc := by
  rw [Bool.eq_iff_iff, isOpen, isOpen, corresponds.top_loop]
  cases m.loops.top? <;> simp [Frame.shift, shifted_inj]

end Corresponds

/-! ### Computations -/

variable {α β γ δ : Type}

/-- The results are related, or the faults are the same, and the machines correspond. -/
inductive Alike (n : Nat) (related : α → β → Prop) :
    EStateM.Result Fault Machine α → EStateM.Result Fault Machine β → Prop
  | ok {a : α} {b : β} {m m' : Machine} (results : related a b)
      (corresponds : Corresponds n m m') : Alike n related (.ok a m) (.ok b m')
  | error {f : Fault} {m m' : Machine} (corresponds : Corresponds n m m') :
      Alike n related (.error f m) (.error f m')

/-- From machines that correspond the computations come to the same. -/
def Mirrors (n : Nat) (related : α → β → Prop) (x : Execution α) (y : Execution β) : Prop :=
  ∀ m m', Corresponds n m m' → Alike n related (x m) (y m')

namespace Mirrors

variable {related : α → β → Prop} {related' : γ → δ → Prop} {x : Execution α} {y : Execution β}

theorem of_oblivious {x : Execution α} (oblivious : Oblivious x) : Mirrors n Eq x x := by
  intro m m' corresponds
  have run := oblivious m m'
  rw [corresponds.same] at run
  rw [run]
  cases eq : x m with
  | ok a m₁ => exact .ok rfl (corresponds.under (oblivious.under_of_ok eq))
  | error f m₁ => exact .error (corresponds.under (oblivious.under_of_error eq))

protected theorem pure {a : α} {b : β} (results : related a b) :
    Mirrors n related (pure a) (pure b) :=
  fun _ _ => .ok results

protected theorem throw (f : Fault) : Mirrors n related (throw f) (throw f) := fun _ _ => .error

protected theorem bind {f : α → Execution γ} {g : β → Execution δ} (first : Mirrors n related x y)
    (next : ∀ a b, related a b → Mirrors n related' (f a) (g b)) :
    Mirrors n related' (x >>= f) (y >>= g) := by
  intro m m' corresponds
  have alike := first m m' corresponds
  generalize eq : x m = r at alike
  generalize eq' : y m' = r' at alike
  cases alike with
  | ok results corresponds =>
    rw [bind_of_ok eq, bind_of_ok eq']
    exact next _ _ results _ _ corresponds
  | error corresponds =>
    rw [bind_of_error eq, bind_of_error eq']
    exact .error corresponds

end Mirrors

/-! ### Commands -/

section

variable {p p' : Program} (inserted : Program.Inserted p p' n)

include inserted

theorem label_mirrors (name : String) :
    Mirrors n (fun k k' => k' = shifted n k) (label p name) (label p' name) := by
  simp only [label, inserted.label_eq]
  cases p.label? name with
  | none => exact .throw _
  | some k => exact .pure rfl

theorem branchTarget_mirrors (name : String) :
    Mirrors n Eq (branchTarget p name) (branchTarget p' name) := by
  refine (label_mirrors inserted name).bind ?_
  rintro k _ rfl
  rw [inserted.at_eq]
  split
  · exact .throw _
  · exact .throw _
  · exact .pure rfl
  · exact .throw _

theorem loopExit_mirrors (pc : Nat) (v : Ident) :
    Mirrors n (Flow.Leads n) (loopExit p pc v) (loopExit p' (shifted n pc) v) := by
  simp only [loopExit, inserted.closing_eq]
  cases p.matchingNext? pc v with
  | none => exact .throw _
  | some i =>
    simp only [Option.map_some, inserted.at_eq]
    split
    · split
      · exact .pure (.jump (.succ n i))
      · exact .pure (.jump (.shifted i))
    · exact .pure (.jump (.succ n i))

end

/-- A push does the same to stacks of one size. -/
theorem push_mirrors {ι : Type} {get : Machine → Stack ι} {set : Machine → Stack ι → Machine}
    {x x' : ι} (f : Fault)
    (size : ∀ {m m'}, Corresponds n m m' → (get m').size = (get m).size)
    (pushed : ∀ {m m'}, Corresponds n m m' →
      Corresponds n (set m ((get m).cons x)) (set m' ((get m').cons x'))) :
    Mirrors n Eq (onPart get set (Stack.push f x)) (onPart get set (Stack.push f x')) := by
  intro m m' corresponds
  have after := pushed corresponds
  have same : ((get m').cons x').size = ((get m).cons x).size := congrArg (· + 1) (size corresponds)
  simp only [onPart, Stack.push, same]
  by_cases full : Stack.capacity < ((get m).cons x).size
  · simp only [if_pos full]
    exact .error after
  · simp only [if_neg full]
    exact .ok rfl after

theorem pushCall_mirrors {k k' : Nat} (leads : Leads n k k') (f : Fault) :
    Mirrors n Eq (onCalls (Stack.push f k)) (onCalls (Stack.push f k')) :=
  push_mirrors f Corresponds.calls_size fun corresponds =>
    corresponds.withCalls (.cons leads corresponds.calls)

theorem popCall_mirrors (f : Fault) :
    Mirrors n (Leads n) (onCalls (Stack.pop f)) (onCalls (Stack.pop f)) := by
  intro m m' corresponds
  have leads := corresponds.calls
  simp only [onCalls, onPart, Stack.pop, Stack.top?]
  cases items : m.calls.items with
  | nil =>
    rw [items, List.forall₂_nil_left_iff] at leads
    simp only [leads, List.head?_nil]
    exact .error corresponds
  | cons back calls =>
    rw [items, List.forall₂_cons_left_iff] at leads
    obtain ⟨back', calls', first, rest, items'⟩ := leads
    simp only [items', List.head?_cons]
    refine .ok first (corresponds.withCalls ?_)
    rw [Stack.items_tail, Stack.items_tail, items, items']
    exact rest

theorem pushLoop_mirrors (frame : Frame) (f : Fault) :
    Mirrors n Eq (onLoops (Stack.push f frame)) (onLoops (Stack.push f (frame.shift n))) :=
  push_mirrors f Corresponds.loops_size fun corresponds =>
    corresponds.withLoops (congrArg (frame.shift n :: ·) corresponds.loops)

theorem popLoop_mirrors (f : Fault) :
    Mirrors n (fun _ _ => True) (onLoops (Stack.pop f)) (onLoops (Stack.pop f)) := by
  intro m m' corresponds
  simp only [onLoops, onPart, Stack.pop, corresponds.top_loop]
  cases m.loops.top? with
  | none => exact .error corresponds
  | some frame =>
    refine .ok trivial (corresponds.withLoops ?_)
    rw [Stack.items_tail, Stack.items_tail, corresponds.loops, List.map_tail]

/-- FOR forgets its loop. -/
theorem forget_mirrors (pc : Nat) :
    Mirrors n Eq
      (modify fun m => { m with loops := m.loops.dropFromLowest fun frame => frame.header == pc } :
        Execution PUnit)
      (modify fun m =>
        { m with loops := m.loops.dropFromLowest fun frame => frame.header == shifted n pc }) := by
  intro m m' corresponds
  refine .ok rfl (corresponds.withLoops ?_)
  have same : ((fun frame : Frame => !(frame.header == shifted n pc)) ∘ Frame.shift n) =
      fun frame => !(frame.header == pc) := by
    funext frame
    rw [Bool.eq_iff_iff]
    simp [Frame.shift, shifted_inj]
  simp only [Stack.dropFromLowest, Stack.fromBottom, Stack.items_ofList, corresponds.loops,
    ← List.map_reverse, List.takeWhile_map, same]

theorem continueLoop_eq (m : Machine) :
    continueLoop m =
      match m.loops.top? with
      | some frame => .ok (.jump frame.header) m
      | none => .error (.nextWithoutFor none) m := by
  change (match m.loops.top? with
    | some frame => pure (.jump frame.header)
    | none => throw (.nextWithoutFor none) : Execution Flow) m = _
  cases m.loops.top? <;> rfl

theorem continueNamed_eq (v : Ident) (m : Machine) {inner : Stack Frame}
    (dropped : m.loops.dropUntil (fun frame => frame.v == v) = inner) :
    next (some v) m =
      match inner.top? with
      | some frame => .ok (.jump frame.header) { m with loops := inner }
      | none => .error (.nextWithoutFor (some v)) { m with loops := inner } := by
  subst dropped
  change (if (m.loops.dropUntil fun frame => frame.v == v).top?.isNone then do
      throw (.nextWithoutFor (some v)); continueLoop
    else continueLoop : Execution Flow) { m with loops := m.loops.dropUntil _ } = _
  cases top : (m.loops.dropUntil fun frame => frame.v == v).top? with
  | none =>
    simp only [Option.isNone_none, if_true]
    rfl
  | some frame =>
    simp only [Option.isNone_some, Bool.false_eq_true, if_false]
    rw [continueLoop_eq]
    simp only [top]

theorem next_mirrors (v : Option Ident) : Mirrors n (Flow.Leads n) (next v) (next v) := by
  intro m m' corresponds
  cases v with
  | none =>
    change Alike n _ (continueLoop m) (continueLoop m')
    rw [continueLoop_eq, continueLoop_eq, corresponds.top_loop]
    cases m.loops.top? with
    | none => exact .error corresponds
    | some frame => exact .ok (.jump (.shifted frame.header)) corresponds
  | some v =>
    have shifts : (m'.loops.dropUntil fun frame => frame.v == v).items =
        (m.loops.dropUntil fun frame => frame.v == v).items.map (Frame.shift n) := by
      simp only [Stack.dropUntil, Stack.items_ofList, corresponds.loops, List.dropWhile_map]
      rfl
    have after := corresponds.withLoops shifts
    rw [continueNamed_eq v m rfl, continueNamed_eq v m' rfl, after.top_loop]
    dsimp only
    cases (m.loops.dropUntil fun frame => frame.v == v).top? with
    | none => exact .error after
    | some frame => exact .ok (.jump (.shifted frame.header)) after

section

variable {p p' : Program} (inserted : Program.Inserted p p' n)

include inserted

theorem settle_mirrors (h : Header) (pc : Nat) (again done : Bool) :
    Mirrors n (Flow.Leads n) (h.settle p pc again done) (h.settle p' (shifted n pc) again done) := by
  have exit := loopExit_mirrors inserted pc h.v
  cases again with
  | true =>
    cases done with
    | true => exact (popLoop_mirrors _).bind fun _ _ _ => exit
    | false => exact .pure .next
  | false =>
    refine (forget_mirrors pc).bind fun _ _ _ => ?_
    cases done with
    | true => exact exit
    | false => exact (pushLoop_mirrors ⟨h.v, pc⟩ _).bind fun _ _ _ => .pure .next

theorem loop_mirrors (h : Header) (pc : Nat) :
    Mirrors n (Flow.Leads n) (loop p pc h.v h.first h.last h.step)
      (loop p' (shifted n pc) h.v h.first h.last h.step) := by
  intro m m' corresponds
  by_cases integer : h.v.kind = .integer
  · rw [h.loop_eq integer rfl, h.loop_eq integer (corresponds.isOpen_eq pc)]
    have test : Mirrors n Eq (h.test (m.isOpen pc)) (h.test (m.isOpen pc)) :=
      .of_oblivious (h.test_oblivious (m.isOpen pc))
    refine test.bind ?_ m m' corresponds
    rintro done _ rfl
    exact settle_mirrors inserted h pc (m.isOpen pc) done
  · simp only [loop, ne_eq, integer, not_false_eq_true, if_true]
    exact .error corresponds

/-- A command does the same to machines that correspond. -/
theorem execute_mirrors (pc depth : Nat) (c : Command) :
    Mirrors n (Flow.Leads n) (execute p pc depth c) (execute p' (shifted n pc) depth c) := by
  -- The command that IF runs has one IF less before it.
  induction depth using Nat.strongRecOn generalizing c with
  | ind depth ih =>
    have goesOn {x : Execution Unit} (oblivious : Oblivious x) :
        Mirrors n (Flow.Leads n) (x >>= fun _ => pure .next) (x >>= fun _ => pure .next) :=
      (Mirrors.of_oblivious oblivious).bind fun _ _ _ => .pure .next
    cases c with
    | assign v e =>
      simp only [execute]
      have value := value_oblivious v.kind e
      exact (Mirrors.of_oblivious value).bind fun x _ same => same ▸ goesOn (assign_oblivious v x)
    | print items =>
      simp only [execute]
      exact goesOn (.forM printItem_oblivious items)
    | read targets =>
      simp only [execute]
      exact goesOn (read_oblivious targets)
    | input items =>
      simp only [execute]
      exact goesOn (.forM inputItem_oblivious items)
    | data items =>
      simp only [execute]
      exact .pure .next
    | stop =>
      simp only [execute]
      exact .pure .halt
    | whileLoop e name =>
      simp only [execute]
      exact .throw _
    | gosub name =>
      simp only [execute]
      refine (label_mirrors inserted name).bind fun k k' same => ?_
      refine (pushCall_mirrors (.succ n pc) _).bind fun _ _ _ => ?_
      exact .pure (.jump (same ▸ .shifted k))
    | ret =>
      simp only [execute]
      exact (popCall_mirrors _).bind fun _ _ leads => .pure (.jump leads)
    | loop v first last step =>
      simp only [execute]
      exact loop_mirrors inserted ⟨0, v, first, last, step⟩ pc
    | next v =>
      simp only [execute]
      exact next_mirrors v
    | branch e name =>
      unfold execute
      refine (Mirrors.of_oblivious (condition_oblivious e)).bind ?_
      rintro holds _ rfl
      cases holds with
      | false => exact .pure .next
      | true =>
        cases depth with
        | zero => exact .throw _
        | succ depth =>
          refine (branchTarget_mirrors inserted name).bind ?_
          rintro c _ rfl
          exact ih depth (Nat.lt_succ_self depth) c

end

end Machine

/-- Both turns lead to the same instruction, or one of them to the one more right before it. -/
inductive Turn.Leads (n : Nat) : Turn → Turn → Prop
  | goOn {k k' : Nat} (leads : LabelBasic.Leads n k k') : Leads n (.goOn k) (.goOn k')
  | halted : Leads n .halted .halted
  | failed (f : Fault) : Leads n (.failed f) (.failed f)

/-- An instruction does the same to machines that correspond. -/
theorem Machine.perform_mirrors {p p' : Program} (inserted : Program.Inserted p p' n) {m m' : Machine}
    (corresponds : Corresponds n m m') (pc : Nat) (i : Instruction) :
    Turn.Leads n (perform p pc i m).1 (perform p' (shifted n pc) i m').1 ∧
      Corresponds n (perform p pc i m).2 (perform p' (shifted n pc) i m').2 := by
  have alike := execute_mirrors inserted pc branchLimit i.command m m' corresponds
  simp only [perform]
  generalize execute p pc branchLimit i.command m = r at alike
  generalize execute p' (shifted n pc) branchLimit i.command m' = r' at alike
  cases alike with
  | ok flows corresponds =>
    cases flows with
    | next => exact ⟨.goOn (.succ n pc), corresponds⟩
    | jump leads => exact ⟨.goOn leads, corresponds⟩
    | halt => exact ⟨.halted, corresponds⟩
  | error corresponds => exact ⟨.failed _, corresponds⟩

end LabelBasic
