import LabelBasic.Proofs.Calls
import LabelBasic.Proofs.Chains
import LabelBasic.Proofs.DataOrder

/-!
# Faults before anything is assigned

A command that fails may have been at work before, and what it has done by then is there for the
next run. Most commands fail before they do anything: they evaluate first, or look before they
take. PRINT alone has an effect by then, which is what it has printed. Main result: such a command
leaves the machine as it was but for the generator, at its own address or at the end of a chain of
IFs.
-/
namespace LabelBasic

namespace Machine

variable {p : Program} {pc depth : Nat} {c last : Command} {m m' : Machine} {f : Fault}

theorem eq_of_besides (same : m'.besidesGenerator = m.besidesGenerator) :
    m' = { m with generator := m'.generator } :=
  congrFun same m'.generator

/-! ### Evaluation -/

theorem value_keeps (kind : Kind) (e : Expr) : Keeps besidesGenerator (value kind e) :=
  .evaluation (fun _ _ => rfl) _

theorem integer_keeps (e : Expr) : Keeps besidesGenerator (integer e) :=
  .evaluation (fun _ _ => rfl) _

theorem assign_of_error {v : Ident} {x : Value} (failed : assign v x m = .error f m') : m' = m := by
  simp only [assign] at failed
  split at failed
  next => cases failed
  next =>
    cases failed
    rfl

/-! ### Printing -/

theorem printItem_of_ok {e : Expr} (printed : printItem e m = .ok () m') :
    ∃ generator text, m' = { m with generator, output := m.output.push text } := by
  simp only [printItem] at printed
  split at printed
  next s =>
    cases printed
    exact ⟨m.generator, s, rfl⟩
  next =>
    obtain ⟨x, m₁, evaluated, emitted⟩ := ok_of_bind printed
    cases emitted
    have same := eq_of_besides ((value_keeps _ e).of_ok evaluated)
    exact ⟨m₁.generator, x.text ++ "\n", by rw [same]⟩

theorem printItem_of_error {e : Expr} (failed : printItem e m = .error f m') :
    m' = { m with generator := m'.generator } := by
  simp only [printItem] at failed
  split at failed
  next => cases failed
  next =>
    rcases error_of_bind failed with unevaluated | ⟨x, m₁, _, emitting⟩
    · exact eq_of_besides ((value_keeps _ e).of_error unevaluated)
    · cases emitting

/-- Items are printed up to the first that fails, one text each. -/
theorem forM_printItem_of_error {items : List Expr}
    (failed : items.forM printItem m = .error f m') :
    ∃ done e rest generator chunks, items = done ++ e :: rest ∧ chunks.size = done.length ∧
      done.forM printItem m = .ok () { m with generator, output := m.output ++ chunks } ∧
      printItem e { m with generator, output := m.output ++ chunks } = .error f m' := by
  induction items generalizing m with
  | nil => cases failed
  | cons e items ih =>
    rcases error_of_bind failed with unprinted | ⟨_, m₁, first, later⟩
    · exact ⟨[], e, items, m.generator, #[], rfl, rfl, rfl, unprinted⟩
    · obtain ⟨generator, text, rfl⟩ := printItem_of_ok first
      obtain ⟨done, e', rest, generator', chunks, rfl, sizes, printed, fault⟩ := ih later
      have joined : m.output.push text ++ chunks = m.output ++ (#[text] ++ chunks) := by
        rw [← Array.append_assoc]
        rfl
      simp only [joined] at printed fault
      refine ⟨e :: done, e', rest, generator', #[text] ++ chunks, rfl, ?_, ?_, fault⟩
      · simp [sizes, Nat.add_comm]
      · exact (bind_of_ok first).trans printed

/-! ### Commands -/

/-- What PRINT has printed when it fails: a text for each item before the one that it fails at. A
command of another sort has printed nothing. -/
def PrintedBefore (f : Fault) (m : Machine) (chunks : Array String) : Command → Prop
  | .print items => ∃ done e rest before generator m', items = done ++ e :: rest ∧
      chunks.size = done.length ∧
      done.forM printItem { m with generator := before } =
        .ok () { m with generator, output := m.output ++ chunks } ∧
      printItem e { m with generator, output := m.output ++ chunks } = .error f m'
  | _ => chunks = #[]

/-- A command that fails, if it does, before anything is assigned or taken, with so many more IFs
that may run others in place. The second command is the one at fault: an IF may have led to it. -/
inductive FailsEarly (p : Program) : Nat → Command → Machine → Command → Prop
  | assign (depth : Nat) (v : Ident) (e : Expr) (m : Machine) :
      FailsEarly p depth (.assign v e) m (.assign v e)
  | print (depth : Nat) (items : List Expr) (m : Machine) :
      FailsEarly p depth (.print items) m (.print items)
  | gosub {depth : Nat} {name : String} {m : Machine} (undefined : p.label? name = none) :
      FailsEarly p depth (.gosub name) m (.gosub name)
  | ret {depth : Nat} {m : Machine} (empty : m.calls.items = []) :
      FailsEarly p depth .ret m .ret
  | next {depth : Nat} {m : Machine} (empty : m.loops.items = []) :
      FailsEarly p depth (.next none) m (.next none)
  | whileLoop (depth : Nat) (e : Expr) (name : String) (m : Machine) :
      FailsEarly p depth (.whileLoop e name) m (.whileLoop e name)
  | read {depth : Nat} {targets : List Ident} {m : Machine}
      (unequal : targets.length ≠ m.data.length) :
      FailsEarly p depth (.read targets) m (.read targets)
  | condition {depth : Nat} {e : Expr} {name : String} {f : Fault} {m m' : Machine}
      (failed : condition e m = .error f m') :
      FailsEarly p depth (.branch e name) m (.branch e name)
  | tooDeep {e : Expr} {name : String} {m m' : Machine} (holds : condition e m = .ok true m') :
      FailsEarly p 0 (.branch e name) m (.branch e name)
  | target {depth : Nat} {e : Expr} {name : String} {f : Fault} {m m₁ m' : Machine}
      (holds : condition e m = .ok true m₁) (unfit : branchTarget p name m₁ = .error f m') :
      FailsEarly p (depth + 1) (.branch e name) m (.branch e name)
  | chain {depth : Nat} {e : Expr} {name : String} {c last : Command} {m m₁ m₂ : Machine}
      (holds : condition e m = .ok true m₁) (found : branchTarget p name m₁ = .ok c m₂)
      (rest : FailsEarly p depth c m₂ last) : FailsEarly p (depth + 1) (.branch e name) m last

theorem PrintedBefore.of_besides {generator : Generator} {chunks : Array String}
    (printed : PrintedBefore f { m with generator } chunks c) : PrintedBefore f m chunks c := by
  cases c <;> exact printed

/-- The machine is as it was, but for the generator and what PRINT has printed. -/
def LeftAsItWas (f : Fault) (c : Command) (m m' : Machine) : Prop :=
  ∃ generator chunks, m' = { m with generator, output := m.output ++ chunks } ∧
    PrintedBefore f m chunks c

namespace LeftAsItWas

theorem of_besides (same : m'.besidesGenerator = m.besidesGenerator)
    (none : PrintedBefore f m #[] c) : LeftAsItWas f c m m' := by
  refine ⟨m'.generator, #[], ?_, none⟩
  rw [Array.append_empty]
  exact eq_of_besides same

/-- What comes before the command at fault changes the generator alone. -/
theorem after {m₁ : Machine} (same : m₁.besidesGenerator = m.besidesGenerator)
    (left : LeftAsItWas f c m₁ m') : LeftAsItWas f c m m' := by
  obtain ⟨generator, chunks, eq, printed⟩ := left
  rw [eq_of_besides same] at eq printed
  exact ⟨generator, chunks, eq, printed.of_besides⟩

theorem assign {v : Ident} {e : Expr}
    (failed : execute p pc depth (.assign v e) m = .error f m') :
    LeftAsItWas f (.assign v e) m m' := by
  simp only [execute] at failed
  refine of_besides ?_ rfl
  have evaluates := value_keeps v.kind e
  rcases error_of_bind failed with unevaluated | ⟨x, m₁, evaluated, assigning⟩
  · exact evaluates.of_error unevaluated
  · rw [assign_of_error (error_of_bind_pure assigning)]
    exact evaluates.of_ok evaluated

theorem print {items : List Expr}
    (failed : execute p pc depth (.print items) m = .error f m') :
    LeftAsItWas f (.print items) m m' := by
  simp only [execute] at failed
  obtain ⟨done, e, rest, generator, chunks, items_eq, sizes, printed, fault⟩ :=
    forM_printItem_of_error (error_of_bind_pure failed)
  refine ⟨m'.generator, chunks, printItem_of_error fault, ?_⟩
  exact ⟨done, e, rest, m.generator, generator, m', items_eq, sizes, printed, fault⟩

theorem read {targets : List Ident} (unequal : targets.length ≠ m.data.length)
    (failed : execute p pc depth (.read targets) m = .error f m') :
    LeftAsItWas f (.read targets) m m' := by
  simp only [execute] at failed
  have delivery := read_delivery targets m
  rw [error_of_bind_pure failed] at delivery
  cases delivery with
  | refused => exact of_besides rfl rfl
  | unfit halfway | full halfway =>
    obtain ⟨_, _, _, same, _⟩ := halfway
    exact absurd same unequal

end LeftAsItWas

/-- A chain of IFs ends with the command at fault, and none of the IFs before has had an effect. -/
theorem FailsEarly.leaves (early : FailsEarly p depth c m last)
    (failed : execute p pc depth c m = .error f m') : LeftAsItWas f last m m' := by
  induction early with
  | assign => exact .assign failed
  | print => exact .print failed
  | read unequal => exact .read unequal failed
  | gosub undefined =>
    simp only [execute] at failed
    cases (bind_of_error (label_of_none undefined _)).symm.trans failed
    exact .of_besides rfl rfl
  | ret empty =>
    simp only [execute] at failed
    cases (ret_of_empty (List.head?_eq_none_iff.mpr empty)).symm.trans failed
    exact .of_besides rfl rfl
  | next =>
    simp only [execute] at failed
    exact .of_besides ((continueLoop_keeps besidesGenerator).of_error failed) rfl
  | whileLoop =>
    simp only [execute] at failed
    cases failed
    exact .of_besides rfl rfl
  | condition refused =>
    cases (execute_branch_error refused).symm.trans failed
    exact .of_besides ((condition_keeps _).of_error refused) rfl
  | tooDeep holds =>
    cases (execute_branch_too_deep holds).symm.trans failed
    exact .of_besides ((condition_keeps _).of_ok holds) rfl
  | target holds unfit =>
    obtain rfl := (branchTarget_keeps id p _).of_error unfit
    cases (execute_branch_missing holds unfit).symm.trans failed
    exact .of_besides ((condition_keeps _).of_ok holds) rfl
  -- The command that the condition leads to fails in place, behind the evaluation of the condition.
  | chain holds found _ ih =>
    obtain rfl := (branchTarget_keeps id p _).of_ok found
    have behind := ih ((execute_branch holds found).symm.trans failed)
    exact behind.after ((condition_keeps _).of_ok holds)

end Machine

open Machine

/-- Evaluating an expression changes the generator at most, whether or not it succeeds. A failing
instruction that evaluates or looks before it does anything leaves the machine as it was, but for
the generator and for what PRINT has printed of the items before the one that it fails at. This is
so also where the instruction is an IF that fails itself or that leads to such a command. -/
theorem early_fault_leaves_machine (p : Program) :
    (∀ kind e m, ∃ generator, (value kind e).after m = { m with generator }) ∧
    (∀ e m, ∃ generator, (integer e).after m = { m with generator }) ∧
    (∀ e m, ∃ generator, (condition e).after m = { m with generator }) ∧
    ∀ pc i m f m' last, FailsEarly p branchLimit i.command m last →
      perform p pc i m = (.failed f, m') → LeftAsItWas f last m m' := by
  refine ⟨fun kind e m => ⟨_, eq_of_besides (value_keeps kind e m)⟩,
    fun e m => ⟨_, eq_of_besides (integer_keeps e m)⟩,
    fun e m => ⟨_, eq_of_besides (condition_keeps e m)⟩, ?_⟩
  intro pc i m f m' last early performed
  simp only [perform] at performed
  split at performed
  case h_4 failed =>
    cases performed
    exact early.leaves failed
  all_goals cases performed

private def oneEqualsOne : Expr :=
  .comparison .equal (.literal (.integer 1)) (.literal (.integer 1))

private def halfPrinted : List Expr := [.literal (.string "x"), .variable ⟨"y"⟩]

private def halfPrinting : Program :=
  .ofStatements [⟨[], ⟨1, .branch oneEqualsOne "a"⟩⟩, ⟨[⟨"a", 2⟩], ⟨2, .print halfPrinted⟩⟩]

private def halfPrintingStart : Machine := .initial halfPrinting (.ofSeed 0) (.ofBytes [])

/-- In the place of an IF, PRINT prints one item and fails at the second. -/
theorem early_fault_leaves_machine_of_halfPrinting :
    perform halfPrinting 0 ⟨1, .branch oneEqualsOne "a"⟩ halfPrintingStart =
        (.failed (.undefinedVariable ⟨"y"⟩), { halfPrintingStart with output := #["x"] }) ∧
      LeftAsItWas (.undefinedVariable ⟨"y"⟩) (.print halfPrinted) halfPrintingStart
        { halfPrintingStart with output := #["x"] } := by
  have fails : perform halfPrinting 0 ⟨1, .branch oneEqualsOne "a"⟩ halfPrintingStart =
      (.failed (.undefinedVariable ⟨"y"⟩), { halfPrintingStart with output := #["x"] }) := rfl
  have holds : condition oneEqualsOne halfPrintingStart = .ok true halfPrintingStart := rfl
  have found : branchTarget halfPrinting "a" halfPrintingStart =
      .ok (.print halfPrinted) halfPrintingStart := rfl
  obtain ⟨_, _, _, leaves⟩ := early_fault_leaves_machine halfPrinting
  exact ⟨fails, leaves 0 ⟨1, .branch oneEqualsOne "a"⟩ _ _ _ _
    (.chain holds found (.print _ _ _)) fails⟩

end LabelBasic
