import LabelBasic.Proofs.Keeping

/-!
# What faults say

A fault keeps the machine it was raised in, and what it says is so there: a variable that is blamed
has no value, a label is not defined, a stack that is too full or empty is. And whatever a command
does, a variable that has a value keeps one. Both hold of every computation of the machine, even if
the program was not parsed.
-/
namespace LabelBasic

namespace Fault

/-- What the fault says is so in the machine. One that names no part of the machine says nothing. -/
def HoldsOf (p : Program) (m : Machine) : Fault → Prop
  | undefinedVariable v => m.store.get? v = none
  | undefinedLabel name => p.label? name = none
  | tooManyVariables => Store.capacity ≤ m.store.size
  | outOfData wanted left => left = m.data.length ∧ wanted ≠ left
  | nextWithoutFor _ => m.loops.items = []
  | returnWithoutGosub => m.calls.items = []
  | tooManyLoops => Stack.capacity < m.loops.size
  | tooManyCalls => Stack.capacity < m.calls.size
  | _ => True

/-- The fault says nothing of a machine but what its variables tell. -/
def IsOfStore (store : Store) (f : Fault) : Prop :=
  ∀ (p : Program) (m : Machine), m.store = store → f.HoldsOf p m

/-- The fault says nothing of a machine. -/
def SaysNothing (f : Fault) : Prop := ∀ (p : Program) (m : Machine), f.HoldsOf p m

theorem SaysNothing.isOfStore {f : Fault} (nothing : f.SaysNothing) (store : Store) :
    f.IsOfStore store := fun p m _ => nothing p m

end Fault

/-- The fault of the result, if it has one, says nothing. -/
abbrev GivesNothing {α : Type} (r : Except Fault α) : Prop :=
  Gives (fun _ => True) Fault.SaysNothing r

/-! ### Values and calls -/

theorem checked_nothing (n : Int) : GivesNothing (checked n) := by
  simp only [checked]
  split
  · trivial
  · exact fun _ _ => trivial

theorem Operator.apply_nothing (op : Operator) (x y : Value) : GivesNothing (op.apply x y) := by
  simp only [apply]
  split
  next m n =>
    have whole : GivesNothing (op.whole m.toInt n.toInt) := by
      cases op
      case div =>
        simp only [Operator.whole]
        split
        · exact fun _ _ => trivial
        · trivial
      all_goals trivial
    exact (whole.bind fun r _ => checked_nothing r).bind fun _ _ => trivial
  · trivial
  · trivial
  · exact fun _ _ => trivial

theorem Value.toInteger_nothing (x : Value) : GivesNothing x.toInteger := by
  cases x
  case integer => trivial
  all_goals exact fun _ _ => trivial

theorem Value.order_nothing (x y : Value) : GivesNothing (x.order? y) := by
  simp only [order?]
  split
  · trivial
  · trivial
  · exact fun _ _ => trivial

namespace Builtin

theorem takeString_nothing (xs : List Value) : GivesNothing (takeString xs) := by
  simp only [takeString]
  split
  · trivial
  · exact fun _ _ => trivial
  · exact fun _ _ => trivial

theorem takeInteger_nothing (xs : List Value) : GivesNothing (takeInteger xs) := by
  simp only [takeInteger]
  split
  · trivial
  · exact fun _ _ => trivial
  · exact fun _ _ => trivial

theorem place_nothing (s : String) (n : Int32) : GivesNothing (place s n) := by
  simp only [place]
  split
  · trivial
  · exact fun _ _ => trivial

theorem leftOf_nothing (s : String) (n : Int32) : GivesNothing (leftOf s n) :=
  (place_nothing s n).bind fun _ _ => trivial

theorem rightOf_nothing (s : String) (n : Int32) : GivesNothing (rightOf s n) :=
  (place_nothing s n).bind fun _ _ => trivial

theorem midOf_nothing (s : String) (start stop : Int32) : GivesNothing (midOf s start stop) := by
  refine (place_nothing s start).bind fun m _ => (place_nothing s stop).bind fun n _ => ?_
  split
  · exact fun _ _ => trivial
  · trivial

theorem integerOf_nothing (s : String) : GivesNothing (integerOf s) := by
  simp only [integerOf]
  split
  · trivial
  · exact fun _ _ => trivial

theorem floatOf_nothing (s : String) : GivesNothing (floatOf s) := by
  simp only [floatOf]
  split
  · trivial
  · exact fun _ _ => trivial

theorem numeralOf_nothing (x : Value) : GivesNothing (numeralOf x) := by
  cases x
  case string => exact fun _ _ => trivial
  all_goals trivial

theorem call_nothing (f : Builtin) (xs : List Value) :
    Yields (fun _ => True) Fault.SaysNothing (f.call xs) := by
  cases f with
  | random => exact Yields.bind (P := fun _ => True) (fun g => trivial) fun n _ => .pure trivial
  | val =>
    refine .ofExcept ((takeString_nothing xs).bind fun (s, _) _ => ?_)
    exact (integerOf_nothing s).bind fun _ _ => trivial
  | valFloat =>
    refine .ofExcept ((takeString_nothing xs).bind fun (s, _) _ => ?_)
    exact (floatOf_nothing s).bind fun _ _ => trivial
  | left =>
    refine .ofExcept ((takeString_nothing xs).bind fun (s, rest) _ => ?_)
    refine (takeInteger_nothing rest).bind fun (n, _) _ => ?_
    exact (leftOf_nothing s n).bind fun _ _ => trivial
  | right =>
    refine .ofExcept ((takeString_nothing xs).bind fun (s, rest) _ => ?_)
    refine (takeInteger_nothing rest).bind fun (n, _) _ => ?_
    exact (rightOf_nothing s n).bind fun _ _ => trivial
  | mid =>
    refine .ofExcept ((takeString_nothing xs).bind fun (s, rest) _ => ?_)
    refine (takeInteger_nothing rest).bind fun (start, rest) _ => ?_
    refine (takeInteger_nothing rest).bind fun (stop, _) _ => ?_
    exact (midOf_nothing s start stop).bind fun _ _ => trivial
  | num =>
    refine .ofExcept (Gives.bind (P := fun _ => True) ?_ fun x _ => ?_)
    · cases xs with
      | nil => exact fun _ _ => trivial
      | cons x xs => trivial
    · exact (numeralOf_nothing x).bind fun _ _ => trivial

end Builtin

/-! ### Evaluation -/

/-- The faults of the computation are those that the variables justify. -/
abbrev OfStore {σ α : Type} (store : Store) (x : EStateM Fault σ α) : Prop :=
  Yields (fun _ => True) (Fault.IsOfStore store) x

section

variable {store : Store} {σ α : Type}

theorem OfStore.of_nothing {x : EStateM Fault σ α}
    (nothing : Yields (fun _ => True) Fault.SaysNothing x) : OfStore store x :=
  nothing.mono (fun _ _ => trivial) fun _ silent => silent.isOfStore store

theorem OfStore.ofExcept {r : Except Fault α} (nothing : GivesNothing r) :
    OfStore store (LabelBasic.ofExcept r : EStateM Fault σ α) :=
  .of_nothing (.ofExcept nothing)

theorem fetch_ofStore (v : Ident) :
    Gives (fun _ => True) (Fault.IsOfStore store) (store.fetch v) := by
  simp only [Store.fetch]
  split
  next => trivial
  next missing =>
    rintro p m rfl
    exact missing

theorem evaluateArguments_ofStore {es : List Expr} {parameters : List Parameter}
    (each : ∀ e ∈ es, ∀ kind, OfStore store (evaluate store kind e)) :
    OfStore store (evaluateArguments store parameters es) := by
  induction es generalizing parameters with
  | nil =>
    rw [evaluateArguments]
    exact .pure trivial
  | cons e es ih =>
    cases parameters with
    | nil =>
      rw [evaluateArguments]
      exact .pure trivial
    | cons parameter more =>
      rw [evaluateArguments]
      refine (each e (by simp) _).bind fun x _ => ?_
      exact (ih fun d member => each d (by simp [member])).bind fun xs _ => .pure trivial

theorem evaluate_ofStore (kind : Kind) (e : Expr) : OfStore store (evaluate store kind e) := by
  induction e using Expr.ind generalizing kind with
  | literal value =>
    rw [evaluate]
    exact .ite (fun _ => .pure trivial) fun _ => .throw fun _ _ _ => trivial
  | named v =>
    rw [evaluate]
    exact .ite (fun _ => .ofExcept (fetch_ofStore v)) fun _ => .throw fun _ _ _ => trivial
  | call f es ih =>
    rw [evaluate]
    refine .ite (fun _ => ?_) fun _ => .throw fun _ _ _ => trivial
    exact (evaluateArguments_ofStore ih).bind fun xs _ =>
      OfStore.of_nothing (Builtin.call_nothing f xs)
  | arithmetic op left right ihl ihr =>
    rw [evaluate]
    refine (ihl kind).bind fun x _ => (ihr kind).bind fun y _ => ?_
    exact OfStore.ofExcept (Operator.apply_nothing op x y)
  | comparison r left right _ _ =>
    rw [evaluate]
    exact .throw fun _ _ _ => trivial

theorem evaluateInteger_ofStore (e : Expr) : OfStore store (evaluateInteger store e) :=
  (evaluate_ofStore .integer e).bind fun x _ => OfStore.ofExcept (Value.toInteger_nothing x)

theorem evaluateCondition_ofStore (e : Expr) : OfStore store (evaluateCondition store e) := by
  simp only [evaluateCondition]
  split
  next relation left right =>
    refine Yields.check (fun _ _ _ _ => trivial) fun _ => ?_
    refine (evaluate_ofStore _ left).bind fun x _ => (evaluate_ofStore _ right).bind fun y _ => ?_
    exact (OfStore.ofExcept (Value.order_nothing x y)).bind fun _ _ => .pure trivial
  next => exact .throw fun _ _ _ => trivial

end

/-! ### Variables and stacks -/

namespace Store

variable {s t : Store} {v : Ident} {x : Value}

theorem isSome_of_store (stored : s.store v x = .ok t) {w : Ident} (assigned : (s.get? w).isSome) :
    (t.get? w).isSome := by
  simp only [store] at stored
  split at stored
  next => cases stored
  next =>
    split at stored
    next fits =>
      cases stored
      rw [get?_insert]
      split
      · rfl
      · exact assigned
    next => cases stored

theorem fault_of_store {f : Fault} (failed : s.store v x = .error f) :
    f = .tooManyVariables ∧ capacity ≤ s.size ∨ f = .variableKind v x.kind := by
  simp only [store] at failed
  split at failed
  next full =>
    cases failed
    exact .inl ⟨rfl, by simpa using (Bool.and_eq_true_iff.mp full).2⟩
  next =>
    split at failed
    next => cases failed
    next =>
      cases failed
      exact .inr rfl

end Store

namespace Stack

variable {ε α : Type} {s t : Stack α} {x : α} {e f : ε}

theorem fault_of_push (failed : push f x s = .error e t) : e = f ∧ capacity < t.size := by
  by_cases full : capacity < (s.cons x).size
  · rw [push, if_pos full] at failed
    cases failed
    exact ⟨rfl, full⟩
  · rw [push, if_neg full] at failed
    cases failed

theorem fault_of_pop (failed : pop f s = .error e t) : e = f ∧ t.items = [] := by
  simp only [pop] at failed
  split at failed
  next empty =>
    cases failed
    exact ⟨rfl, List.head?_eq_none_iff.mp empty⟩
  next => cases failed

end Stack

/-! ### Computations of the machine -/

/-- From this machine the computation takes no variable its value, and if it fails, what its fault
says holds of the machine it leaves. -/
structure Fair {α : Type} (p : Program) (m : Machine) (x : Execution α) : Prop where
  keeps : ∀ v, (m.store.get? v).isSome → ((x.after m).store.get? v).isSome
  holds : ∀ {f m'}, x m = .error f m' → f.HoldsOf p m'

namespace Fair

variable {p : Program} {m : Machine} {α β : Type} {x : Execution α}

theorem of_keeps (keeps : Keeps Machine.store x)
    (holds : ∀ {f m'}, x m = .error f m' → f.HoldsOf p m') : Fair p m x :=
  ⟨fun v assigned => by rwa [keeps m], holds⟩

protected theorem pure (a : α) : Fair p m (pure a) := .of_keeps (.pure a) nofun

protected theorem throw {f : Fault} (holds : f.HoldsOf p m) : Fair p m (throw f : Execution α) :=
  .of_keeps (.throw f) fun failed => by cases failed; exact holds

protected theorem bind {f : α → Execution β} (first : Fair p m x)
    (next : ∀ a m', x m = .ok a m' → Fair p m' (f a)) : Fair p m (x >>= f) := by
  cases eq : x m with
  | ok a m' =>
    have then_ := next a m' eq
    refine ⟨fun v assigned => ?_, fun failed => ?_⟩
    · rw [Execution.after_bind_of_ok eq]
      apply then_.keeps
      rw [← Execution.after_of_ok eq]
      exact first.keeps v assigned
    · rw [bind_of_ok eq] at failed
      exact then_.holds failed
  | error e m' =>
    refine ⟨fun v assigned => ?_, fun failed => ?_⟩
    · rw [Execution.after_bind_of_error eq, ← Execution.after_of_error eq]
      exact first.keeps v assigned
    · rw [bind_of_error eq] at failed
      cases failed
      exact first.holds eq

/-- Nothing is lost by a fair first part whose result does not matter to the second one. -/
protected theorem andThen {f : α → Execution β} (first : Fair p m x)
    (next : ∀ a m', Fair p m' (f a)) : Fair p m (x >>= f) :=
  first.bind fun a m' _ => next a m'

protected theorem get {f : Machine → Execution β} (next : Fair p m (f m)) :
    Fair p m (get >>= f) :=
  ⟨next.keeps, next.holds⟩

protected theorem ite {c : Prop} [Decidable c] {y : Execution α} (holds : c → Fair p m x)
    (fails : ¬c → Fair p m y) : Fair p m (if c then x else y) := by
  split
  next h => exact holds h
  next h => exact fails h

/-- A check, and what follows it unless it throws. -/
protected theorem check {c : Prop} [Decidable c] {e : Fault} {rest : PUnit → Execution β}
    (fault : c → e.HoldsOf p m) (next : ¬c → Fair p m (rest ⟨⟩)) :
    Fair p m (if c then throw e >>= rest else rest ⟨⟩) :=
  .ite (fun holds => (Fair.throw (fault holds)).bind nofun) next

theorem forM {f : β → Execution PUnit} {bs : List β} (each : ∀ b m, Fair p m (f b)) :
    Fair p m (bs.forM f) := by
  induction bs generalizing m with
  | nil => exact .pure _
  | cons b bs ih => exact (each b m).andThen fun _ m' => ih

theorem modify {f : Machine → Machine} (same : (f m).store = m.store) :
    Fair p m (modify f : Execution PUnit) :=
  ⟨fun v assigned => by rw [← same] at assigned; exact assigned, nofun⟩

theorem ofExcept {r : Except Fault α} (nothing : GivesNothing r) :
    Fair p m (LabelBasic.ofExcept r : Execution α) := by
  cases r with
  | ok a => exact .pure a
  | error f => exact .throw (nothing p m)

/-- A computation on a part of the machine without the variables. -/
theorem onPart {σ : Type} {get : Machine → σ} {set : Machine → σ → Machine}
    {y : EStateM Fault σ α} (same : ∀ m t, (set m t).store = m.store)
    (holds : ∀ f t, y (get m) = .error f t → f.HoldsOf p (set m t)) :
    Fair p m (Machine.onPart get set y) := by
  refine .of_keeps (.onPart get set same y) fun {f m'} failed => ?_
  obtain ⟨t, raised, rfl⟩ := Machine.error_of_onPart failed
  exact holds f t raised

theorem onGenerator {y : Evaluation α} (ofStore : OfStore m.store y) :
    Fair p m (Machine.onGenerator y) :=
  .onPart (fun _ _ => rfl) fun _ _ raised => ofStore.of_error raised p _ rfl

/-- An evaluation that reads the variables. -/
theorem evaluation {f : Machine → Evaluation α} (ofStore : OfStore m.store (f m)) :
    Fair p m fun m => Machine.onGenerator (f m) m := by
  have fair : Fair p m (Machine.onGenerator (f m)) := .onGenerator ofStore
  exact ⟨fair.keeps, fair.holds⟩

theorem onReader {y : EStateM Fault Reader α}
    (nothing : Yields (fun _ => True) Fault.SaysNothing y) : Fair p m (Machine.onReader y) :=
  .onPart (fun _ _ => rfl) fun _ _ raised => nothing.of_error raised p _

end Fair

/-! ### Input -/

theorem Reader.nextOfLines_nothing (lines : List (List UInt8)) :
    Yields (fun _ => True) Fault.SaysNothing fun _ : Reader => nextOfLines lines := by
  intro r
  induction lines with
  | nil => trivial
  -- A line without words is passed over.
  | cons line lines ih =>
    dsimp only
    simp only [nextOfLines]
    cases lineWords? line with
    | none => exact fun _ _ => trivial
    | some ws =>
      cases ws with
      | nil => exact ih
      | cons word pending => trivial

theorem Reader.next_nothing : Yields (fun _ => True) Fault.SaysNothing Reader.next := by
  intro r
  simp only [next]
  cases r.pending with
  | nil => exact nextOfLines_nothing r.lines r
  | cons word pending => trivial

theorem Reader.value_nothing (kind : Kind) :
    Yields (fun _ => True) Fault.SaysNothing (Reader.value kind) := by
  refine Yields.bind (P := fun _ => True) ?_ fun w _ => ?_
  · refine next_nothing.bind fun w? _ => ?_
    split
    · exact .pure trivial
    · exact .throw fun _ _ => trivial
  · split
    · exact .pure trivial
    · exact .throw fun _ _ => trivial

/-! ### Commands -/

namespace Machine

variable {p : Program} {m : Machine}

theorem value_fair (kind : Kind) (e : Expr) : Fair p m (value kind e) :=
  .evaluation (evaluate_ofStore kind e)

theorem integer_fair (e : Expr) : Fair p m (integer e) := .evaluation (evaluateInteger_ofStore e)

theorem condition_fair (e : Expr) : Fair p m (condition e) :=
  .evaluation (evaluateCondition_ofStore e)

theorem assign_fair (v : Ident) (x : Value) : Fair p m (assign v x) := by
  cases stored : m.store.store v x with
  | ok store =>
    have assigned : assign v x m = .ok () { m with store } := by simp only [assign, stored]
    refine ⟨fun w => ?_, fun failed => by cases assigned.symm.trans failed⟩
    rw [Execution.after_of_ok assigned]
    exact Store.isSome_of_store stored
  | error e =>
    have refused : assign v x m = .error e m := by simp only [assign, stored]
    refine ⟨fun w => by rw [Execution.after_of_error refused]; exact id, fun failed => ?_⟩
    cases refused.symm.trans failed
    rcases Store.fault_of_store stored with ⟨rfl, full⟩ | rfl
    · exact full
    · trivial

theorem fetch_fair (v : Ident) : Fair p m (fetch v) := by
  cases fetched : m.store.fetch v with
  | ok x =>
    have found : fetch v m = .ok x m := by simp only [fetch, fetched]
    refine ⟨fun w => by rw [Execution.after_of_ok found]; exact id, fun failed => ?_⟩
    cases found.symm.trans failed
  | error e =>
    have missing : fetch v m = .error e m := by simp only [fetch, fetched]
    refine ⟨fun w => by rw [Execution.after_of_error missing]; exact id, fun failed => ?_⟩
    cases missing.symm.trans failed
    have gives : Gives (fun _ => True) (Fault.IsOfStore m.store) (m.store.fetch v) :=
      fetch_ofStore v
    rw [fetched] at gives
    exact gives p m rfl

theorem emit_fair (text : String) : Fair p m (emit text) := .modify rfl

theorem printItem_fair (e : Expr) : Fair p m (printItem e) := by
  simp only [printItem]
  split
  · exact emit_fair _
  · exact (value_fair _ _).andThen fun x m' => emit_fair _

theorem readItem_fair (v : Ident) (x : Value) : Fair p m (readItem v x) := by
  refine Fair.andThen (.modify rfl) fun _ m' => ?_
  exact Fair.check (fun _ => trivial) fun _ => assign_fair v x

theorem read_fair (targets : List Ident) : Fair p m (read targets) := by
  refine Fair.get (Fair.check (fun other => ⟨rfl, other⟩) fun _ => ?_)
  exact .forM fun (v, x) m' => readItem_fair v x

theorem inputItem_fair (e : Expr) : Fair p m (inputItem e) := by
  simp only [inputItem]
  split
  · exact emit_fair _
  · exact (Fair.onReader (Reader.value_nothing _)).andThen fun x m' => assign_fair _ x
  · exact .throw trivial

theorem loopValue_fair (reentry : Bool) (v : Ident) (first : Expr) (step : Int32) :
    Fair p m (loopValue reentry v first step) := by
  refine .ite (fun _ => ?_) fun _ => integer_fair first
  refine (fetch_fair v).andThen fun x m' => ?_
  exact (Fair.ofExcept (Value.toInteger_nothing x)).andThen fun n m' =>
    .ofExcept (checked_nothing _)

theorem loopExit_fair (pc : Nat) (v : Ident) : Fair p m (loopExit p pc v) := by
  simp only [loopExit]
  split
  · exact .throw trivial
  · split
    · exact .ite (fun _ => .pure _) fun _ => .pure _
    · exact .pure _

theorem pushLoop_fair (frame : Frame) : Fair p m (onLoops (Stack.push .tooManyLoops frame)) := by
  refine .onPart (fun _ _ => rfl) fun f loops raised => ?_
  obtain ⟨rfl, full⟩ := Stack.fault_of_push raised
  exact full

theorem popLoop_fair (v : Option Ident) : Fair p m (onLoops (Stack.pop (.nextWithoutFor v))) := by
  refine .onPart (fun _ _ => rfl) fun f loops raised => ?_
  obtain ⟨rfl, empty⟩ := Stack.fault_of_pop raised
  exact empty

theorem pushCall_fair (address : Nat) : Fair p m (onCalls (Stack.push .tooManyCalls address)) := by
  refine .onPart (fun _ _ => rfl) fun f calls raised => ?_
  obtain ⟨rfl, full⟩ := Stack.fault_of_push raised
  exact full

theorem popCall_fair : Fair p m (onCalls (Stack.pop .returnWithoutGosub)) := by
  refine .onPart (fun _ _ => rfl) fun f calls raised => ?_
  obtain ⟨rfl, empty⟩ := Stack.fault_of_pop raised
  exact empty

theorem loop_fair (pc : Nat) (v : Ident) (first last step : Expr) :
    Fair p m (loop p pc v first last step) := by
  simp only [loop]
  refine Fair.check (fun _ => trivial) fun _ => ?_
  refine Fair.get ((integer_fair step).andThen fun s m' => ?_)
  -- The test, then a jump behind the loop or into it.
  refine (loopValue_fair _ v first s).andThen fun n m' => ?_
  refine (assign_fair v _).andThen fun _ m' => (integer_fair last).andThen fun bound m' => ?_
  refine .ite (fun _ => .ite (fun _ => ?_) fun _ => .pure _) fun _ => ?_
  · exact (popLoop_fair none).andThen fun _ m' => loopExit_fair pc v
  · refine Fair.andThen (.modify rfl) fun _ m' => ?_
    refine .ite (fun _ => loopExit_fair pc v) fun _ => ?_
    exact (pushLoop_fair _).andThen fun _ m' => .pure _

theorem items_of_top?_none {loops : Stack Frame} (none : loops.top? = none) : loops.items = [] :=
  List.head?_eq_none_iff.mp none

theorem continueLoop_fair : Fair p m continueLoop := by
  refine Fair.get ?_
  split
  next => exact .pure _
  next none => exact .throw (items_of_top?_none none)

theorem next_fair (v : Option Ident) : Fair p m (next v) := by
  cases v with
  | none => exact continueLoop_fair
  | some v =>
    refine Fair.andThen (.modify rfl) fun _ m' => Fair.get (Fair.check ?_ fun _ => ?_)
    · exact fun none => items_of_top?_none (Option.isNone_iff_eq_none.mp none)
    · exact continueLoop_fair

theorem label_fair (name : String) : Fair p m (label p name) := by
  simp only [label]
  split
  next => exact .pure _
  next none => exact .throw none

theorem gosub_fair (pc : Nat) (name : String) : Fair p m (gosub p pc name) :=
  (label_fair name).andThen fun _ _ => (pushCall_fair _).andThen fun _ _ => .pure _

theorem ret_fair : Fair p m ret := popCall_fair.andThen fun _ _ => .pure _

theorem branchTarget_fair (name : String) : Fair p m (branchTarget p name) := by
  refine (label_fair name).andThen fun target m' => ?_
  split
  · exact .throw trivial
  · exact .throw trivial
  · exact .pure _
  · exact .throw trivial

/-- Whatever command is executed, variables keep having values, and a fault says what is so. -/
theorem execute_fair (pc depth : Nat) (c : Command) : Fair p m (execute p pc depth c) := by
  -- Only IF runs another command, one level less deep.
  induction depth using Nat.strongRecOn generalizing c m with
  | ind depth ih =>
    cases c <;> unfold execute
    case assign v e =>
      exact (value_fair _ e).andThen fun x _ => (assign_fair v x).andThen fun _ _ => .pure _
    case print items =>
      exact (Fair.forM fun e _ => printItem_fair e).andThen fun _ _ => .pure _
    case data => exact .pure _
    case read targets => exact (read_fair targets).andThen fun _ _ => .pure _
    case input items => exact (Fair.forM fun e _ => inputItem_fair e).andThen fun _ _ => .pure _
    case gosub name => exact gosub_fair pc name
    case ret => exact ret_fair
    case stop => exact .pure _
    case loop v first last step => exact loop_fair pc v first last step
    case next v => exact next_fair v
    case whileLoop => exact .throw trivial
    case branch e name =>
      refine (condition_fair e).andThen fun holds m' => ?_
      cases holds with
      | false => exact .pure _
      | true =>
        cases depth with
        | zero => exact .throw trivial
        | succ depth =>
          exact (branchTarget_fair name).andThen fun c m' => ih depth (Nat.lt_succ_self depth) c

variable {pc : Nat} {i : Instruction}

theorem assigned_of_perform {v : Ident} (assigned : (m.store.get? v).isSome) :
    ((perform p pc i m).2.store.get? v).isSome := by
  rw [perform_machine]
  exact (execute_fair pc branchLimit i.command).keeps v assigned

theorem holds_of_perform {m' : Machine} {f : Fault} (failed : perform p pc i m = (.failed f, m')) :
    f.HoldsOf p m' := by
  simp only [perform] at failed
  split at failed
  next => cases failed
  next => cases failed
  next => cases failed
  next f' m'' raised =>
    cases failed
    exact (execute_fair pc branchLimit i.command).holds raised

end Machine

end LabelBasic
