import LabelBasic.Proofs.ReadInput

/-!
# Changes that computations carry along

A computation carries a change of its state along when it comes to the same in the changed state, and
leaves that changed as before. Commands read the store, the DATA and the stacks of a machine, so they
carry a change of its other parts, as far as the expressions and the input they read do.
-/
namespace LabelBasic

section

variable {ε σ τ α β : Type}

/-- The same result, in a state that is changed. -/
def changedBy (change : σ → σ) : EStateM.Result ε σ α → EStateM.Result ε σ α
  | .ok a s => .ok a (change s)
  | .error e s => .error e (change s)

/-- The computation does the same in a changed state, and leaves the change. -/
def Carries (change : σ → σ) (x : EStateM ε σ α) : Prop :=
  ∀ s, x (change s) = changedBy change (x s)

namespace Carries

variable {change : σ → σ} {x y : EStateM ε σ α} {s t : σ}

theorem ok (carries : Carries change x) {a : α} (eq : x s = .ok a t) :
    x (change s) = .ok a (change t) := by
  rw [carries, eq]
  rfl

theorem error (carries : Carries change x) {e : ε} (eq : x s = .error e t) :
    x (change s) = .error e (change t) := by
  rw [carries, eq]
  rfl

protected theorem id (x : EStateM ε σ α) : Carries id x := by
  intro s
  cases eq : x s <;> simp only [id, changedBy, eq]

protected theorem pure (a : α) : Carries change (pure a : EStateM ε σ α) := fun _ => rfl

protected theorem throw (e : ε) : Carries change (throw e : EStateM ε σ α) := fun _ => rfl

/-- The second part need carry the change only after a result that the first part has. -/
theorem bind_found {f : α → EStateM ε σ β} (first : Carries change x)
    (next : ∀ a s t, x s = .ok a t → Carries change (f a)) : Carries change (x >>= f) := by
  intro s
  cases eq : x s with
  | ok a t =>
    rw [bind_of_ok eq, bind_of_ok (first.ok eq)]
    exact next a s t eq t
  | error e t =>
    rw [bind_of_error eq, bind_of_error (first.error eq)]
    rfl

protected theorem bind {f : α → EStateM ε σ β} (first : Carries change x)
    (next : ∀ a, Carries change (f a)) : Carries change (x >>= f) :=
  first.bind_found fun a _ _ _ => next a

protected theorem ite {c : Prop} [Decidable c] (holds : Carries change x)
    (fails : Carries change y) : Carries change (if c then x else y) := by
  split
  · exact holds
  · exact fails

theorem ofExcept (r : Except ε α) : Carries change (LabelBasic.ofExcept r) := by
  cases r with
  | ok a => exact .pure a
  | error e => exact .throw e

theorem forM {f : β → EStateM ε σ PUnit} {bs : List β} (each : ∀ b ∈ bs, Carries change (f b)) :
    Carries change (bs.forM f) := by
  induction bs with
  | nil => exact .pure _
  | cons b bs ih =>
    obtain ⟨first, rest⟩ := List.forall_mem_cons.mp each
    exact first.bind fun _ => ih rest

/-- What is read off the state is not changed. -/
theorem get {f : σ → EStateM ε σ α} (reads : ∀ s, f (change s) = f s)
    (each : ∀ s, Carries change (f s)) : Carries change (get >>= f) := by
  intro s
  change f (change s) (change s) = _
  rw [reads]
  exact each s s

theorem modify {f : σ → σ} (commutes : ∀ s, f (change s) = change (f s)) :
    Carries change (modify f : EStateM ε σ PUnit) := by
  intro s
  change EStateM.Result.ok _ (f (change s)) = _
  rw [commutes]
  rfl

end Carries

end

/-! ### Changes of a machine -/

/-- A change of the sources of a machine and of its interrupt flag. -/
structure Change where
  generator : Generator → Generator
  reader : Reader → Reader
  interrupted : Bool → Bool

namespace Change

def apply (c : Change) (m : Machine) : Machine :=
  { m with
    generator := c.generator m.generator
    reader := c.reader m.reader
    interrupted := c.interrupted m.interrupted }

/-- Another generator. -/
def ofGenerator (g : Generator) : Change := ⟨fun _ => g, id, id⟩

/-- The sources of another machine. -/
def ofSources (m : Machine) : Change := ⟨fun _ => m.generator, fun _ => m.reader, id⟩

/-- An interrupt that comes, or none. -/
def ofSignal (comes : Bool) : Change := ⟨id, id, (· || comes)⟩

theorem apply_ofSignal (comes : Bool) (m : Machine) : (ofSignal comes).apply m = m.signal comes := by
  obtain ⟨_, _, _, _, _, _, interrupted, _⟩ := m
  cases comes with
  | false =>
    simp only [apply, ofSignal, id, Bool.or_false]
    rfl
  | true =>
    simp only [apply, ofSignal, id, Bool.or_true]
    rfl

/-- Wherever the expression is evaluated, the change of the generator is carried along. -/
structure Suits (c : Change) (e : Expr) : Prop where
  value : ∀ store kind, Carries c.generator (evaluate store kind e)
  condition : ∀ store, Carries c.generator (evaluateCondition store e)

end Change

namespace Machine

variable {c : Change}

/-- A computation on a part of the machine carries what it carries alone. -/
theorem onPart_carries {σ α : Type} {get : Machine → σ} {set : Machine → σ → Machine}
    {inner : σ → σ} {x : EStateM Fault σ α} (carries : Carries inner x)
    (gets : ∀ m, get (c.apply m) = inner (get m))
    (sets : ∀ m part, set (c.apply m) (inner part) = c.apply (set m part)) :
    Carries c.apply (onPart get set x) := by
  intro m
  have inside := carries (get m)
  rw [← gets] at inside
  simp only [onPart, inside]
  cases x (get m) <;> simp only [changedBy, sets]

theorem onGenerator_carries {α : Type} {f : Machine → Evaluation α}
    (reads : ∀ m, f (c.apply m) = f m) (carries : ∀ m, Carries c.generator (f m)) :
    Carries c.apply fun m => onGenerator (f m) m := by
  intro m
  dsimp only
  rw [reads]
  exact onPart_carries (carries m) (fun _ => rfl) (fun _ _ => rfl) m

theorem onReader_carries {α : Type} {x : EStateM Fault Reader α} (carries : Carries c.reader x) :
    Carries c.apply (onReader x) :=
  onPart_carries carries (fun _ => rfl) fun _ _ => rfl

theorem onCalls_carries {α : Type} (x : EStateM Fault (Stack Nat) α) :
    Carries c.apply (onCalls x) :=
  onPart_carries (.id x) (fun _ => rfl) fun _ _ => rfl

theorem onLoops_carries {α : Type} (x : EStateM Fault (Stack Frame) α) :
    Carries c.apply (onLoops x) :=
  onPart_carries (.id x) (fun _ => rfl) fun _ _ => rfl

theorem value_carries {e : Expr} (suits : c.Suits e) (kind : Kind) :
    Carries c.apply (value kind e) :=
  onGenerator_carries (fun _ => rfl) fun m => suits.value m.store kind

theorem integer_carries {e : Expr} (suits : c.Suits e) : Carries c.apply (integer e) :=
  onGenerator_carries (fun _ => rfl) fun m => (suits.value m.store .integer).bind fun _ => .ofExcept _

theorem condition_carries {e : Expr} (suits : c.Suits e) : Carries c.apply (condition e) :=
  onGenerator_carries (fun _ => rfl) fun m => suits.condition m.store

/-! ### Parts of commands that read no source -/

theorem assign_carries (v : Ident) (x : Value) : Carries c.apply (assign v x) := by
  intro m
  have same : (c.apply m).store = m.store := rfl
  simp only [assign, same]
  cases m.store.store v x <;> rfl

theorem fetch_carries (v : Ident) : Carries c.apply (fetch v) := by
  intro m
  have same : (c.apply m).store = m.store := rfl
  simp only [fetch, same]
  cases m.store.fetch v <;> rfl

theorem emit_carries (text : String) : Carries c.apply (emit text) := fun _ => rfl

theorem readItem_carries (v : Ident) (x : Value) : Carries c.apply (readItem v x) := by
  refine Carries.bind (.modify ?_) fun _ => ?_
  · exact fun _ => rfl
  · exact .ite ((Carries.throw _).bind fun _ => assign_carries v x) (assign_carries v x)

theorem read_carries (targets : List Ident) : Carries c.apply (read targets) := by
  refine Carries.get (fun _ => rfl) fun m => ?_
  have each : ∀ pair ∈ targets.zip m.data, Carries c.apply (readItem pair.1 pair.2) :=
    fun pair _ => readItem_carries pair.1 pair.2
  exact .ite ((Carries.throw _).bind fun _ => .forM each) (.forM each)

theorem label_carries (p : Program) (name : String) : Carries c.apply (label p name) := by
  simp only [label]
  split
  · exact .pure _
  · exact .throw _

theorem branchTarget_carries (p : Program) (name : String) :
    Carries c.apply (branchTarget p name) := by
  refine (label_carries p name).bind fun target => ?_
  split
  · exact .throw _
  · exact .throw _
  · exact .pure _
  · exact .throw _

theorem gosub_carries (p : Program) (pc : Nat) (name : String) :
    Carries c.apply (gosub p pc name) := by
  refine (label_carries p name).bind fun target => ?_
  exact (onCalls_carries _).bind fun _ => .pure _

theorem ret_carries : Carries c.apply ret := (onCalls_carries _).bind fun _ => .pure _

theorem continueLoop_carries : Carries c.apply continueLoop := by
  refine Carries.get (fun _ => rfl) fun m => ?_
  split
  · exact .pure _
  · exact .throw _

theorem next_carries (v : Option Ident) : Carries c.apply (next v) := by
  cases v with
  | none => exact continueLoop_carries
  | some v =>
    refine Carries.bind (.modify ?_) fun _ => ?_
    · exact fun _ => rfl
    · refine Carries.get (fun _ => rfl) fun m => ?_
      exact .ite ((Carries.throw _).bind fun _ => continueLoop_carries) continueLoop_carries

theorem loopExit_carries (p : Program) (pc : Nat) (v : Ident) :
    Carries c.apply (loopExit p pc v) := by
  simp only [loopExit]
  split
  · exact .throw _
  · split
    · exact .ite (.pure _) (.pure _)
    · exact .pure _

end Machine

namespace Header

open Machine

variable {c : Change}

theorem further_carries (h : Header) (step : Int32) : Carries c.apply (h.further step) :=
  (fetch_carries h.v).bind fun _ => (Carries.ofExcept _).bind fun _ => .ofExcept _

theorem value_carries {h : Header} (first : c.Suits h.first) (again : Bool) (step : Int32) :
    Carries c.apply (h.value again step) :=
  .ite (h.further_carries step) (integer_carries first)

theorem test_carries {h : Header} (first : c.Suits h.first) (last : c.Suits h.last)
    (step : c.Suits h.step) (again : Bool) : Carries c.apply (h.test again) := by
  refine (integer_carries step).bind fun by_ => (value_carries first again by_).bind fun n => ?_
  exact (assign_carries h.v _).bind fun _ => (integer_carries last).bind fun _ => .pure _

theorem settle_carries (h : Header) (p : Program) (pc : Nat) (again done : Bool) :
    Carries c.apply (h.settle p pc again done) := by
  have exit := loopExit_carries (c := c) p pc h.v
  refine .ite (.ite ((onLoops_carries _).bind fun _ => exit) (.pure _)) ?_
  refine Carries.bind (.modify ?_) fun _ => ?_
  · exact fun _ => rfl
  · exact .ite exit ((onLoops_carries _).bind fun _ => .pure _)

/-- What is behind the test of FOR, in a machine that has been changed. -/
theorem loop_carries {h : Header} {p : Program} {pc : Nat}
    (test : ∀ again, Carries c.apply (h.test again)) :
    Carries c.apply (loop p pc h.v h.first h.last h.step) := by
  intro m
  by_cases integer : h.v.kind = .integer
  · have same : (c.apply m).isOpen pc = m.isOpen pc := rfl
    rw [h.loop_eq integer same, h.loop_eq integer rfl]
    exact (test _).bind (fun done => h.settle_carries p pc _ done) m
  · simp only [loop, ne_eq, integer, not_false_eq_true, if_true]
    rfl

end Header

/-! ### Commands -/

/-- The expressions of a command. -/
def Command.expressions : Command → List Expr
  | .assign _ e | .branch e _ | .whileLoop e _ => [e]
  | .print items | .data items | .input items => items
  | .loop _ first last step => [first, last, step]
  | .read _ | .gosub _ | .ret | .stop | .next _ => []

namespace Machine

variable {c : Change} {p : Program}

theorem printItem_carries {e : Expr} (suits : c.Suits e) : Carries c.apply (printItem e) := by
  simp only [printItem]
  split
  · exact emit_carries _
  · exact (value_carries suits _).bind fun _ => emit_carries _

theorem inputItem_carries (reader : c.reader = id) (e : Expr) : Carries c.apply (inputItem e) := by
  simp only [inputItem]
  split
  · exact emit_carries _
  · refine (onReader_carries ?_).bind fun x => assign_carries _ x
    exact reader ▸ .id _
  · exact .throw _

/-- Commands carry a change that leaves the input alone and suits the expressions they come to. -/
theorem execute_carries (reader : c.reader = id)
    (suits : ∀ i ∈ p.instructions, ∀ e ∈ i.command.expressions, c.Suits e) (pc depth : Nat)
    {command : Command} (here : ∀ e ∈ command.expressions, c.Suits e) :
    Carries c.apply (execute p pc depth command) := by
  -- The command that IF runs has one IF less before it, and is one of the program.
  induction depth using Nat.strongRecOn generalizing command with
  | ind depth ih =>
    cases command with
    | assign v e =>
      simp only [execute]
      exact (value_carries (here e (by simp [Command.expressions])) _).bind fun x =>
        (assign_carries v x).bind fun _ => .pure _
    | print items =>
      simp only [execute]
      exact (Carries.forM fun e member => printItem_carries (here e member)).bind fun _ => .pure _
    | read targets =>
      simp only [execute]
      exact (read_carries targets).bind fun _ => .pure _
    | input items =>
      simp only [execute]
      exact (Carries.forM fun e _ => inputItem_carries reader e).bind fun _ => .pure _
    | gosub name =>
      simp only [execute]
      exact gosub_carries p pc name
    | ret =>
      simp only [execute]
      exact ret_carries
    | loop v first last step =>
      simp only [execute]
      let h : Header := ⟨0, v, first, last, step⟩
      have test := h.test_carries (here first (by simp [Command.expressions]))
        (here last (by simp [Command.expressions])) (here step (by simp [Command.expressions]))
      exact h.loop_carries test
    | next v =>
      simp only [execute]
      exact next_carries v
    | branch e name =>
      unfold execute
      refine (condition_carries (here e (by simp [Command.expressions]))).bind fun holds => ?_
      refine .ite ?_ (.pure _)
      cases depth with
      | zero => exact .throw _
      | succ depth =>
        refine (branchTarget_carries p name).bind_found fun command _ _ found => ?_
        obtain ⟨n, i, there, rfl⟩ := (branchTarget_mem p name).of_ok found
        exact ih depth (Nat.lt_succ_self depth) (suits i (Array.mem_of_getElem? there))
    | data | stop =>
      simp only [execute]
      exact .pure _
    | whileLoop =>
      simp only [execute]
      exact .throw _

/-- An instruction leads to the same and leaves the change. -/
theorem perform_carries (reader : c.reader = id)
    (suits : ∀ i ∈ p.instructions, ∀ e ∈ i.command.expressions, c.Suits e) {pc : Nat}
    {i : Instruction} (found : p.at? pc = some i) (m : Machine) :
    perform p pc i (c.apply m) = ((perform p pc i m).1, c.apply (perform p pc i m).2) := by
  have carried := execute_carries reader suits pc branchLimit
    (suits i (Array.mem_of_getElem? found)) m
  simp only [perform, carried]
  cases execute p pc branchLimit i.command m with
  | ok flow m' => cases flow <;> rfl
  | error f m' => rfl

end Machine

end LabelBasic
