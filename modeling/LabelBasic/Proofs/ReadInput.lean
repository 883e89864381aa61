import LabelBasic.Proofs.Branches
import LabelBasic.Proofs.Reentry

/-!
# READ and INPUT

READ alone takes from the DATA, and INPUT alone takes from the input. Both give their variables values
one after the other, up to a fault, and otherwise go on to the next instruction. No instruction
changes whether an interrupt is pending.
-/
namespace LabelBasic

/-- The part of a machine is none of the five that most commands change. -/
structure Apart {σ : Type} (part : Machine → σ) : Prop where
  store : ∀ m store, part { m with store } = part m
  generator : ∀ m generator, part { m with generator } = part m
  output : ∀ m output, part { m with output } = part m
  calls : ∀ m calls, part { m with calls } = part m
  loops : ∀ m loops, part { m with loops } = part m

theorem Keeps.forM {α σ : Type} {part : Machine → σ} {f : α → Execution PUnit} {as : List α}
    (each : ∀ a ∈ as, Keeps part (f a)) : Keeps part (as.forM f) := by
  induction as with
  | nil => exact .pure _
  | cons a as ih =>
    obtain ⟨first, rest⟩ := List.forall_mem_cons.mp each
    exact first.bind fun _ _ _ _ => ih rest

theorem Keeps.ofExcept {α σ : Type} {part : Machine → σ} (r : Except Fault α) :
    Keeps part (LabelBasic.ofExcept r) := by
  cases r with
  | ok a => exact .pure a
  | error f => exact .throw f

namespace Machine

/-! ### Commands -/

section

variable {σ : Type} {part : Machine → σ}

theorem fetch_keeps (part : Machine → σ) (v : Ident) : Keeps part (fetch v) := by
  intro m
  simp only [Execution.after, fetch]
  cases m.store.fetch v <;> rfl

theorem assign_keeps (apart : Apart part) (v : Ident) (x : Value) : Keeps part (assign v x) := by
  intro m
  simp only [Execution.after, assign]
  cases m.store.store v x with
  | ok store => exact apart.store m store
  | error f => rfl

theorem emit_keeps (apart : Apart part) (text : String) : Keeps part (emit text) :=
  fun m => apart.output m _

theorem printItem_keeps (apart : Apart part) (e : Expr) : Keeps part (printItem e) := by
  simp only [printItem]
  split
  · exact emit_keeps apart _
  · exact (Keeps.evaluation apart.generator _).bind fun _ _ _ _ => emit_keeps apart _

theorem readItem_keeps (apart : Apart part) (reads : ∀ m data, part { m with data } = part m)
    (v : Ident) (x : Value) : Keeps part (readItem v x) := by
  refine Keeps.bind (.modify fun m => reads m _) fun _ _ _ _ => ?_
  split
  · exact (Keeps.throw _).bind fun _ _ _ _ => assign_keeps apart v x
  · exact assign_keeps apart v x

theorem read_keeps (apart : Apart part) (reads : ∀ m data, part { m with data } = part m)
    (targets : List Ident) : Keeps part (read targets) := by
  refine Keeps.bind (x := get) (fun _ => rfl) fun m _ _ _ => ?_
  have each : ∀ pair ∈ targets.zip m.data, Keeps part (readItem pair.1 pair.2) :=
    fun pair _ => readItem_keeps apart reads pair.1 pair.2
  dsimp only
  split
  · exact (Keeps.throw _).bind fun _ _ _ _ => .forM each
  · exact .forM each

theorem inputItem_keeps (apart : Apart part) (asks : ∀ m reader, part { m with reader } = part m)
    (e : Expr) : Keeps part (inputItem e) := by
  simp only [inputItem]
  split
  · exact emit_keeps apart _
  · refine Keeps.bind (.onPart reader (fun m reader => { m with reader }) asks _) fun x _ _ _ => ?_
    exact assign_keeps apart _ x
  · exact .throw _

theorem test_keeps (apart : Apart part) (h : Header) (again : Bool) :
    Keeps part (h.test again) := by
  have integer (e : Expr) : Keeps part (integer e) := .evaluation apart.generator _
  refine (integer h.step).bind fun step _ _ _ => ?_
  refine Keeps.bind ?_ fun n _ _ _ => ?_
  · cases again with
    | true =>
      refine (fetch_keeps part h.v).bind fun x _ _ _ => ?_
      exact (Keeps.ofExcept _).bind fun n _ _ _ => .ofExcept _
    | false => exact integer h.first
  · refine (assign_keeps apart h.v _).bind fun _ _ _ _ => ?_
    exact (integer h.last).bind fun _ _ _ _ => .pure _

/-- A command keeps what is apart, READ unless that has to do with the DATA, and INPUT unless it has
to do with the input. -/
theorem execute_keeps (apart : Apart part) (p : Program) (pc depth : Nat) {c : Command}
    (other : ¬c.IsBranch)
    (reads : ∀ targets, c = .read targets → ∀ m data, part { m with data } = part m)
    (asks : ∀ items, c = .input items → ∀ m reader, part { m with reader } = part m) :
    Keeps part (execute p pc depth c) := by
  cases c with
  | assign v e =>
    simp only [execute]
    refine Keeps.bind (.evaluation apart.generator _) fun x _ _ _ => ?_
    exact (assign_keeps apart v x).bind fun _ _ _ _ => .pure _
  | print items =>
    simp only [execute]
    exact (Keeps.forM fun e _ => printItem_keeps apart e).bind fun _ _ _ _ => .pure _
  | read targets =>
    simp only [execute]
    exact (read_keeps apart (reads targets rfl) targets).bind fun _ _ _ _ => .pure _
  | input items =>
    simp only [execute]
    exact (Keeps.forM fun e _ => inputItem_keeps apart (asks items rfl) e).bind fun _ _ _ _ =>
      .pure _
  | gosub name =>
    simp only [execute]
    refine (label_keeps part p name).bind fun target _ _ _ => ?_
    refine Keeps.bind (.onPart calls (fun m calls => { m with calls }) apart.calls _) ?_
    exact fun _ _ _ _ => .pure _
  | ret =>
    simp only [execute]
    refine Keeps.bind (.onPart calls (fun m calls => { m with calls }) apart.calls _) ?_
    exact fun _ _ _ _ => .pure _
  | loop v first last step =>
    simp only [execute]
    let h : Header := ⟨0, v, first, last, step⟩
    exact h.loop_keeps apart.loops (test_keeps apart h)
  | next v =>
    simp only [execute]
    exact next_keeps apart.loops v
  | data | stop =>
    simp only [execute]
    exact .pure _
  | whileLoop e name =>
    simp only [execute]
    exact .throw _
  | branch => exact absurd trivial other

/-- An instruction keeps what is apart, with READ and INPUT also in the place of an IF. -/
theorem perform_keeps (apart : Apart part) {p : Program} {pc : Nat} {i : Instruction} {m : Machine}
    (reads : ∀ targets m', comesTo? p branchLimit i.command m = some (.read targets, m') →
      ∀ m data, part { m with data } = part m)
    (asks : ∀ items m', comesTo? p branchLimit i.command m = some (.input items, m') →
      ∀ m reader, part { m with reader } = part m) : part (perform p pc i m).2 = part m := by
  rw [perform_machine]
  rcases execute_cases p pc branchLimit i.command m with
    ⟨c, m', left, comes, other, same, eq⟩ | ⟨_, same⟩
  · have kept : Keeps part (execute p pc left c) := by
      refine execute_keeps apart p pc left other ?_ ?_
      · rintro targets rfl
        exact reads targets m' comes
      · rintro items rfl
        exact asks items m' comes
    simp only [Execution.after, eq]
    exact (kept m').trans (part_of_besides apart.generator same)
  · exact part_of_besides apart.generator same

end

variable {p : Program} {pc : Nat} {i : Instruction} {m : Machine}

theorem apart_data : Apart data := by constructor <;> exact fun _ _ => rfl

theorem apart_reader : Apart reader := by constructor <;> exact fun _ _ => rfl

theorem apart_interrupted : Apart interrupted := by constructor <;> exact fun _ _ => rfl

theorem perform_keeps_data
    (other : ∀ targets m', comesTo? p branchLimit i.command m ≠ some (.read targets, m')) :
    (perform p pc i m).2.data = m.data :=
  perform_keeps apart_data (fun targets m' comes => absurd comes (other targets m'))
    fun _ _ _ _ _ => rfl

theorem perform_keeps_reader
    (other : ∀ items m', comesTo? p branchLimit i.command m ≠ some (.input items, m')) :
    (perform p pc i m).2.reader = m.reader :=
  perform_keeps apart_reader (fun _ _ _ _ _ => rfl)
    fun items m' comes => absurd comes (other items m')

theorem perform_keeps_interrupted : (perform p pc i m).2.interrupted = m.interrupted :=
  perform_keeps apart_interrupted (fun _ _ _ _ _ => rfl) fun _ _ _ _ _ => rfl

theorem data_signal (m : Machine) (comes : Bool) : (m.signal comes).data = m.data := by
  cases comes <;> rfl

theorem reader_signal (m : Machine) (comes : Bool) : (m.signal comes).reader = m.reader := by
  cases comes <;> rfl

theorem branchTarget_mem (p : Program) (name : String) :
    Yields (fun c => ∃ n i, p.at? n = some i ∧ i.command = c) (fun _ => True)
      (branchTarget p name) := by
  refine Yields.bind (P := fun _ => True) ?_ fun target _ => ?_
  · simp only [label]
    split
    · exact .pure trivial
    · exact .throw trivial
  · split
    · exact .throw trivial
    · exact .throw trivial
    next i _ _ found => exact .pure ⟨target, i, found, rfl⟩
    · exact .throw trivial

/-- What runs in the place of an IF is a command of the program. -/
theorem comesTo?_mem {depth : Nat} {c c' : Command} {m m' : Machine}
    (comes : comesTo? p depth c m = some (c', m')) :
    c' = c ∨ ∃ n i, p.at? n = some i ∧ i.command = c' := by
  induction depth generalizing c m with
  | zero =>
    cases c with
    | branch => cases comes
    | _ =>
      cases comes
      exact .inl rfl
  | succ depth ih =>
    cases c with
    | branch e name =>
      simp only [comesTo?] at comes
      split at comes
      next m₁ holds =>
        split at comes
        next c m₂ found =>
          rcases ih comes with rfl | behind
          · exact .inr ((branchTarget_mem p name).of_ok found)
          · exact .inr behind
        next => cases comes
      next => cases comes
    | _ =>
      cases comes
      exact .inl rfl

/-! ### How they end -/

/-- The computation ends with this fault, if there is one, and leaves this machine. -/
def EndsAs {α : Type} (ends : Option Fault → Machine → Prop) :
    EStateM.Result Fault Machine α → Prop
  | .ok _ m => ends none m
  | .error f m => ends (some f) m

theorem EndsAs.mono {α : Type} {ends ends' : Option Fault → Machine → Prop}
    {r : EStateM.Result Fault Machine α} (holds : EndsAs ends r)
    (further : ∀ fault? m, ends fault? m → ends' fault? m) : EndsAs ends' r := by
  cases r with
  | ok _ m => exact further none m holds
  | error f m => exact further (some f) m holds

end Machine

/-- On to the next instruction, unless there is a fault. -/
def Turn.ahead (pc : Nat) : Option Fault → Turn
  | none => .goOn (pc + 1)
  | some f => .failed f

/-- What is run and goes on to the next instruction, at its own address or in the place of an IF. -/
theorem Machine.perform_of_endsAs {p : Program} {pc : Nat} {i : Instruction} {c : Command}
    {m m₁ : Machine} {x : Execution Unit} {ends : Option Fault → Machine → Prop}
    (comes : comesTo? p branchLimit i.command m = some (c, m₁))
    (runs : ∀ depth, execute p pc depth c = do x; pure .next) (holds : EndsAs ends (x m₁)) :
    ∃ fault? m', ends fault? m' ∧ perform p pc i m = (Turn.ahead pc fault?, m') := by
  rcases execute_cases p pc branchLimit i.command m with
    ⟨_, _, left, comes', _, _, eq⟩ | ⟨nowhere, _⟩
  · cases comes'.symm.trans comes
    rw [runs] at eq
    cases ended : x m₁ with
    | ok _ m' =>
      rw [ended] at holds
      rw [bind_of_ok ended] at eq
      exact ⟨none, m', holds, by rw [perform, eq]; rfl⟩
    | error f m' =>
      rw [ended] at holds
      rw [bind_of_error ended] at eq
      exact ⟨some f, m', holds, by rw [perform, eq]; rfl⟩
  · cases nowhere.symm.trans comes

/-! ### Values given to variables -/

namespace Store

/-- The values fit their variables, and each variable has the last value it was given, or else the one
it had. -/
structure Given (s : Store) (pairs : List (Ident × Value)) (t : Store) : Prop where
  fits : ∀ pair ∈ pairs, pair.2.kind = pair.1.kind
  values : ∀ v, t.get? v = (pairs.reverse.lookup v).or (s.get? v)

namespace Given

variable {s t u : Store} {v : Ident} {x : Value} {pairs later : List (Ident × Value)}

theorem nil (s : Store) : s.Given [] s := ⟨nofun, fun _ => rfl⟩

theorem of_store (stored : s.store v x = .ok t) : s.Given [(v, x)] t := by
  simp only [store] at stored
  split at stored
  next => cases stored
  next =>
    split at stored
    next fits =>
      cases stored
      constructor
      · simpa using fits
      · intro w
        rw [get?_insert]
        by_cases same : w = v
        · simp [same]
        · have apart : (w == v) = false := by simpa using same
          simp [List.lookup_cons, apart, Ne.symm same]
    next => cases stored

theorem append (first : s.Given pairs t) (second : t.Given later u) :
    s.Given (pairs ++ later) u := by
  constructor
  · intro pair member
    exact (List.mem_append.mp member).elim (first.fits pair) (second.fits pair)
  · intro w
    rw [second.values, first.values, List.reverse_append, List.lookup_append, Option.or_assoc]

end Given

theorem fault_of_fitting {s : Store} {v : Ident} {x : Value} {f : Fault} (fits : x.kind = v.kind)
    (failed : s.store v x = .error f) : f = .tooManyVariables ∧ capacity ≤ s.size := by
  simp only [store, fits, dite_true] at failed
  split at failed
  next full =>
    cases failed
    exact ⟨rfl, by simpa using (Bool.and_eq_true_iff.mp full).2⟩
  next => cases failed

end Store

end LabelBasic
