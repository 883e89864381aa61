import LabelBasic.Machine.Run
import LabelBasic.Proofs.Typing
import Mathlib.Data.List.Basic

/-!
# Faults that cannot happen

Some faults would mean that the interpreter itself is wrong: a call without one of its arguments, an
INPUT of an expression, a label behind the last instruction, a condition that is no comparison. The
machine checks for them all the same. A program that was parsed and linked has none of them, in
whatever state it is run.
-/
namespace LabelBasic

namespace Fault

/-- The interpreter is to blame, not the program. -/
def IsDefect : Fault → Prop
  | missingArgument | inputOfExpression | labelPastEnd | expectedComparison => True
  | _ => False

end Fault

/-- No state leads to a defect. -/
abbrev NoDefect {σ α : Type} (x : EStateM Fault σ α) : Prop :=
  Yields (fun _ => True) (fun f => ¬f.IsDefect) x

/-- The fault, if there is one, is no defect. -/
abbrev GivesNoDefect {α : Type} (r : Except Fault α) : Prop :=
  Gives (fun _ => True) (fun f => ¬f.IsDefect) r

theorem Fault.IsOfValues.noDefect {f : Fault} (ofValues : f.IsOfValues) : ¬f.IsDefect := by
  intro fault
  -- None of the four has a code that values alone can give.
  cases f <;> simp only [IsDefect] at fault
  all_goals simp [IsOfValues, code] at ofValues

theorem GivesNoDefect.of_values {α : Type} {P : α → Prop} {r : Except Fault α}
    (gives : Gives P Fault.IsOfValues r) : GivesNoDefect r :=
  gives.mono (fun _ _ => trivial) fun _ => Fault.IsOfValues.noDefect

/-! ### Values -/

theorem Operator.apply_noDefect (op : Operator) (x y : Value) : GivesNoDefect (op.apply x y) := by
  simp only [apply]
  split
  next m n =>
    exact (GivesNoDefect.of_values (integer_gives op m n)).bind fun _ _ => trivial
  · trivial
  · trivial
  · exact id

theorem Value.toInteger_noDefect (x : Value) : GivesNoDefect x.toInteger := by
  cases x
  case integer => trivial
  all_goals exact id

theorem Value.order_noDefect (x y : Value) : GivesNoDefect (x.order? y) := by
  simp only [order?]
  split
  · trivial
  · trivial
  · exact id

/-! ### Calls -/

namespace Builtin

theorem takeString_noDefect (x : Value) (rest : List Value) :
    Gives (fun r => r.2 = rest) (fun f => ¬f.IsDefect) (takeString (x :: rest)) := by
  cases x
  case string => exact rfl
  all_goals exact id

theorem takeInteger_noDefect (x : Value) (rest : List Value) :
    Gives (fun r => r.2 = rest) (fun f => ¬f.IsDefect) (takeInteger (x :: rest)) := by
  cases x
  case integer => exact rfl
  all_goals exact id

theorem numeralOf_noDefect (x : Value) : GivesNoDefect (numeralOf x) := by
  cases x
  case string => exact id
  all_goals trivial

/-- A call with as many arguments as there are parameters. -/
theorem call_noDefect {f : Builtin} {xs : List Value} (complete : xs.length = f.parameters.length) :
    NoDefect (f.call xs) := by
  cases f
  case random => exact Yields.bind (P := fun _ => True) (fun g => trivial) fun n _ => .pure trivial
  case val | valFloat =>
    obtain ⟨x, rfl⟩ := List.length_eq_one_iff.mp complete
    refine .ofExcept ((takeString_noDefect x []).bind ?_)
    rintro ⟨s, _⟩ rfl
    first
    | exact (GivesNoDefect.of_values (integerOf_gives s)).bind fun _ _ => trivial
    | exact (GivesNoDefect.of_values (floatOf_gives s)).bind fun _ _ => trivial
  case left | right =>
    obtain ⟨x, y, rfl⟩ := List.length_eq_two.mp complete
    refine .ofExcept ((takeString_noDefect x [y]).bind ?_)
    rintro ⟨s, _⟩ rfl
    apply (takeInteger_noDefect y []).bind
    rintro ⟨n, _⟩ rfl
    first
    | exact (GivesNoDefect.of_values (leftOf_gives s n)).bind fun _ _ => trivial
    | exact (GivesNoDefect.of_values (rightOf_gives s n)).bind fun _ _ => trivial
  case mid =>
    obtain ⟨x, y, z, rfl⟩ := List.length_eq_three.mp complete
    refine .ofExcept ((takeString_noDefect x [y, z]).bind ?_)
    rintro ⟨s, _⟩ rfl
    apply (takeInteger_noDefect y [z]).bind
    rintro ⟨m, _⟩ rfl
    apply (takeInteger_noDefect z []).bind
    rintro ⟨n, _⟩ rfl
    exact (GivesNoDefect.of_values (midOf_gives s m n)).bind fun _ _ => trivial
  case num =>
    obtain ⟨x, rfl⟩ := List.length_eq_one_iff.mp complete
    exact .ofExcept ((numeralOf_noDefect x).bind fun _ _ => trivial)

end Builtin

/-! ### Evaluation -/

theorem Store.store_noDefect (store : Store) (v : Ident) (x : Value) :
    GivesNoDefect (store.store v x) := by
  simp only [Store.store]
  split
  · exact id
  split
  · trivial
  · exact id

section

variable {store : Store}

theorem evaluateArguments_noDefect {es : List Expr} {parameters : List Parameter}
    (each : ∀ e ∈ es, ∀ kind, NoDefect (evaluate store kind e))
    (complete : es.length = parameters.length) :
    Yields (fun xs => xs.length = parameters.length) (fun f => ¬f.IsDefect)
      (evaluateArguments store parameters es) := by
  induction es generalizing parameters with
  | nil =>
    rw [evaluateArguments]
    exact .pure complete
  | cons e es ih =>
    obtain ⟨parameter, more, rfl⟩ := List.exists_cons_of_length_eq_add_one complete.symm
    rw [evaluateArguments]
    refine (each e (by simp) _).bind fun x _ => ?_
    refine (ih (fun d member => each d (by simp [member])) (by simpa using complete)).bind ?_
    exact fun xs long => .pure (by simp [long])

theorem evaluate_noDefect {e : Expr} (conforms : e.Conforms) (kind : Kind) :
    NoDefect (evaluate store kind e) := by
  induction e using Expr.ind generalizing kind with
  | literal value =>
    rw [evaluate]
    split
    · exact .pure trivial
    · exact .throw id
  | named v =>
    rw [evaluate]
    split
    · exact .ofExcept (GivesNoDefect.of_values (fetch_gives v))
    · exact .throw id
  | call f es ih =>
    obtain ⟨⟩ | ⟨⟩ | ⟨fits, each⟩ | ⟨⟩ := conforms
    have complete : es.length = f.parameters.length := by
      simpa using Builtin.length_of_accepts fits
    rw [evaluate]
    split
    · refine (evaluateArguments_noDefect (fun e member => ih e member (each e member))
        complete).bind fun xs long => Builtin.call_noDefect long
    · exact .throw id
  | arithmetic op left right ihl ihr =>
    obtain ⟨⟩ | ⟨⟩ | ⟨⟩ | ⟨first, second⟩ := conforms
    rw [evaluate]
    refine (ihl first kind).bind fun x _ => (ihr second kind).bind fun y _ => ?_
    exact .ofExcept (Operator.apply_noDefect op x y)
  | comparison r left right _ _ => cases conforms

theorem evaluateInteger_noDefect {e : Expr} (conforms : e.Conforms) :
    NoDefect (evaluateInteger store e) :=
  (evaluate_noDefect conforms .integer).bind fun x _ => .ofExcept (Value.toInteger_noDefect x)

theorem evaluateCondition_noDefect {e : Expr} (condition : e.IsCondition) :
    NoDefect (evaluateCondition store e) := by
  obtain @⟨relation, left, right, first, second⟩ := condition
  simp only [evaluateCondition]
  refine Yields.check (fun _ => id) fun _ => ?_
  refine (evaluate_noDefect first _).bind fun x _ => (evaluate_noDefect second _).bind fun y _ => ?_
  exact Yields.bind (.ofExcept (Value.order_noDefect x y)) fun _ _ => .pure trivial

end

/-! ### Input and stacks -/

theorem Reader.nextOfLines_noDefect (lines : List (List UInt8)) :
    NoDefect fun _ : Reader => nextOfLines lines := by
  intro r
  induction lines with
  | nil => trivial
  -- A line without words is passed over.
  | cons line lines ih =>
    dsimp only
    simp only [nextOfLines]
    cases lineWords? line with
    | none => exact id
    | some ws =>
      cases ws with
      | nil => exact ih
      | cons word pending => trivial

theorem Reader.next_noDefect : NoDefect Reader.next := by
  intro r
  simp only [next]
  cases r.pending with
  | nil => exact nextOfLines_noDefect r.lines r
  | cons word pending => trivial

theorem Reader.value_noDefect (kind : Kind) : NoDefect (Reader.value kind) := by
  refine Yields.bind (P := fun _ => True) ?_ fun w _ => ?_
  · refine next_noDefect.bind fun w? _ => ?_
    split
    · exact .pure trivial
    · exact .throw id
  · split
    · exact .pure trivial
    · exact .throw id

theorem Stack.push_noDefect {α : Type} {f : Fault} (x : α) (fault : ¬f.IsDefect) :
    NoDefect (push f x) := by
  intro s
  unfold push
  dsimp only
  by_cases full : capacity < (s.cons x).size
  · rwa [if_pos full]
  · rw [if_neg full]
    trivial

theorem Stack.pop_noDefect {α : Type} {f : Fault} (fault : ¬f.IsDefect) :
    NoDefect (pop (α := α) f) := by
  intro s
  simp only [pop]
  cases s.top? with
  | none => exact fault
  | some x => trivial

/-! ### Linked programs -/

namespace Program

/-- Every command conforms, and every label stands for an instruction. -/
structure Linked (p : Program) : Prop where
  conforms : ∀ i ∈ p.instructions, i.command.Conforms
  inside : ∀ d ∈ p.labels, d.2 < p.size

theorem definitions_inside {first : Nat} {ss : List Statement} {d : String × Nat}
    (member : d ∈ definitions first ss) : d.2 < first + ss.length := by
  induction ss generalizing first with
  | nil => simp [definitions] at member
  | cons s ss ih =>
    rcases List.mem_append.mp member with here | later
    · obtain ⟨l, _, rfl⟩ := List.mem_map.mp here
      simp
    · have := ih later
      simp only [List.length_cons]
      omega

theorem labels_inside (ss : List Statement) :
    ∀ d ∈ (ofStatements ss).labels, d.2 < (ofStatements ss).size := by
  intro d member
  have : d.2 < 0 + ss.length := definitions_inside member
  simpa [size, ofStatements] using this

theorem linked_ofStatements {tokens : List Token} {ss : List Statement}
    (parsed : (parse tokens).result = .ok ss) : (ofStatements ss).Linked where
  conforms := by
    intro i member
    -- An instruction is that of a statement, which the parser made.
    have origin : ∃ s ∈ ss, s.instruction = i := by simpa [ofStatements] using member
    obtain ⟨s, source, rfl⟩ := origin
    exact conforms_of_mem_parse parsed source
  inside := labels_inside ss

variable {p : Program}

theorem Linked.conforms_at (linked : p.Linked) {n : Nat} {i : Instruction}
    (found : p.at? n = some i) : i.command.Conforms :=
  linked.conforms i (Array.mem_of_getElem? found)

theorem exists_at?_of_label? (inside : ∀ d ∈ p.labels, d.2 < p.size) {name : String} {n : Nat}
    (found : p.label? name = some n) : ∃ i, p.at? n = some i := by
  obtain ⟨d, last, rfl⟩ := Option.map_eq_some_iff.mp found
  -- The label is one of the definitions, and these stand for instructions.
  have member : d ∈ p.labels := (List.mem_filter.mp (List.mem_of_getLast? last)).1
  exact ⟨_, Array.getElem?_eq_getElem (inside d member)⟩

theorem Linked.at_label (linked : p.Linked) {name : String} {n : Nat}
    (found : p.label? name = some n) : ∃ i, p.at? n = some i :=
  exists_at?_of_label? linked.inside found

end Program

/-! ### Commands -/

namespace Machine

variable {p : Program}

theorem value_noDefect {e : Expr} (conforms : e.Conforms) (kind : Kind) :
    NoDefect (value kind e) :=
  Yields.onGenerator (f := fun m => evaluate m.store kind e) fun _ =>
    evaluate_noDefect conforms kind

theorem integer_noDefect {e : Expr} (conforms : e.Conforms) : NoDefect (integer e) :=
  Yields.onGenerator (f := fun m => evaluateInteger m.store e) fun _ =>
    evaluateInteger_noDefect conforms

theorem condition_noDefect {e : Expr} (isCondition : e.IsCondition) : NoDefect (condition e) :=
  Yields.onGenerator (f := fun m => evaluateCondition m.store e) fun _ =>
    evaluateCondition_noDefect isCondition

theorem assign_noDefect (v : Ident) (x : Value) : NoDefect (assign v x) := by
  intro m
  have gives := m.store.store_noDefect v x
  simp only [assign]
  cases stored : m.store.store v x with
  | ok store => trivial
  | error f => rwa [stored] at gives

theorem fetch_noDefect (v : Ident) : NoDefect (fetch v) := by
  intro m
  have gives : GivesNoDefect (m.store.fetch v) := GivesNoDefect.of_values (fetch_gives v)
  simp only [fetch]
  cases fetched : m.store.fetch v with
  | ok x => trivial
  | error f => rwa [fetched] at gives

theorem printItem_noDefect {e : Expr} (conforms : e.Conforms) : NoDefect (printItem e) := by
  simp only [printItem]
  split
  · exact fun m => trivial
  · exact (value_noDefect conforms _).bind fun x _ m => trivial

theorem readItem_noDefect (v : Ident) (x : Value) : NoDefect (readItem v x) :=
  Yields.modify.bind fun _ _ => Yields.check (fun _ => id) fun _ => assign_noDefect v x

theorem read_noDefect (targets : List Ident) : NoDefect (read targets) := by
  refine Yields.get.bind fun m _ => Yields.check (fun _ => id) fun _ => Yields.forM ?_
  exact fun (v, x) _ => readItem_noDefect v x

theorem inputItem_noDefect {e : Expr} (item : e.IsInputItem) : NoDefect (inputItem e) := by
  cases item with
  | prompt s => exact fun m => trivial
  | target v => exact (Yields.onPart (Reader.value_noDefect v.kind)).bind fun x _ => assign_noDefect v x

theorem loopValue_noDefect {first : Expr} (conforms : first.Conforms) (reentry : Bool) (v : Ident)
    (step : Int32) : NoDefect (loopValue reentry v first step) := by
  simp only [loopValue]
  split
  · refine (fetch_noDefect v).bind fun x _ => ?_
    -- Another round: the variable and the step are added up.
    refine Yields.bind (.ofExcept (Value.toInteger_noDefect x)) fun n _ => ?_
    exact .ofExcept (GivesNoDefect.of_values (checked_gives _))
  · exact integer_noDefect conforms

theorem loopExit_noDefect (pc : Nat) (v : Ident) : NoDefect (loopExit p pc v) := by
  simp only [loopExit]
  split
  · exact .throw id
  split
  · split <;> exact .pure trivial
  · exact .pure trivial

theorem loop_noDefect (pc : Nat) (v : Ident) {first last step : Expr} (lower : first.Conforms)
    (upper : last.Conforms) (increment : step.Conforms) :
    NoDefect (loop p pc v first last step) := by
  simp only [loop]
  refine Yields.check (fun _ => id) fun _ => ?_
  refine Yields.get.bind fun m _ => (integer_noDefect increment).bind fun s _ => ?_
  -- The test, then a jump behind the loop or into it.
  refine (loopValue_noDefect lower _ v s).bind fun n _ => ?_
  refine (assign_noDefect v _).bind fun _ _ => (integer_noDefect upper).bind fun bound _ => ?_
  refine .ite (fun _ => .ite (fun _ => ?_) fun _ => .pure trivial) fun _ => ?_
  · exact Yields.bind (.onPart (Stack.pop_noDefect id)) fun _ _ => loopExit_noDefect pc v
  · refine Yields.modify.bind fun _ _ => .ite (fun _ => loopExit_noDefect pc v) fun _ => ?_
    exact Yields.bind (.onPart (Stack.push_noDefect _ id)) fun _ _ => .pure trivial

theorem continueLoop_noDefect : NoDefect continueLoop := by
  refine Yields.get.bind fun m _ => ?_
  split
  · exact .pure trivial
  · exact .throw id

theorem next_noDefect (v : Option Ident) : NoDefect (next v) := by
  cases v with
  | none => exact continueLoop_noDefect
  | some v =>
    refine Yields.modify.bind fun _ _ => Yields.get.bind fun m _ => ?_
    exact Yields.check (fun _ => id) fun _ => continueLoop_noDefect

theorem label_noDefect (name : String) :
    Yields (fun n => p.label? name = some n) (fun f => ¬f.IsDefect) (label p name) := by
  simp only [label]
  split
  next found => exact .pure found
  next => exact .throw id

theorem gosub_noDefect (pc : Nat) (name : String) : NoDefect (gosub p pc name) := by
  refine (label_noDefect name).bind fun target _ => ?_
  exact (Yields.onPart (Stack.push_noDefect _ id)).bind fun _ _ => .pure trivial

theorem ret_noDefect : NoDefect ret :=
  (Yields.onPart (Stack.pop_noDefect id)).bind fun _ _ => .pure trivial

theorem branchTarget_noDefect (linked : p.Linked) (name : String) :
    Yields Command.Conforms (fun f => ¬f.IsDefect) (branchTarget p name) := by
  refine (label_noDefect name).bind fun target found => ?_
  -- The label stands for an instruction, so the branch that finds none is not taken.
  obtain ⟨i, there⟩ := linked.at_label found
  have conforms := linked.conforms_at there
  split
  · exact .throw id
  · exact .throw id
  next same =>
    obtain rfl := Option.some.inj (there.symm.trans same)
    exact .pure conforms
  next none =>
    rw [there] at none
    cases none

theorem execute_noDefect (linked : p.Linked) {pc depth : Nat} {c : Command}
    (conforms : c.Conforms) : NoDefect (execute p pc depth c) := by
  -- Only IF runs another command, one level less deep.
  induction depth using Nat.strongRecOn generalizing c with
  | _ depth ih =>
    cases c <;> unfold execute
    case assign v e => exact (value_noDefect conforms _).bind fun x _ =>
      (assign_noDefect v x).bind fun _ _ => .pure trivial
    case print es =>
      exact (Yields.forM fun e member => printItem_noDefect (conforms e member)).bind
        fun _ _ => .pure trivial
    case data => exact .pure trivial
    case read vs => exact (read_noDefect vs).bind fun _ _ => .pure trivial
    case input es =>
      exact (Yields.forM fun e member => inputItem_noDefect (conforms e member)).bind
        fun _ _ => .pure trivial
    case gosub name => exact gosub_noDefect pc name
    case ret => exact ret_noDefect
    case stop => exact .pure trivial
    case loop v first last step =>
      exact loop_noDefect pc v conforms.1 conforms.2.1 conforms.2.2
    case next v => exact next_noDefect v
    case whileLoop => exact .throw id
    case branch e name =>
      refine (condition_noDefect conforms).bind fun holds _ => ?_
      split
      · cases depth with
        | zero => exact .throw id
        | succ depth =>
          exact (branchTarget_noDefect linked name).bind fun d conforms =>
            ih depth (Nat.lt_succ_self depth) conforms
      · exact .pure trivial

/-! ### Runs -/

theorem perform_noDefect (linked : p.Linked) {pc : Nat} {i : Instruction}
    (conforms : i.command.Conforms) {m m' : Machine} {f : Fault}
    (failed : perform p pc i m = (.failed f, m')) : ¬f.IsDefect := by
  simp only [perform] at failed
  cases outcome : execute p pc branchLimit i.command m with
  | ok flow m =>
    rw [outcome] at failed
    cases flow <;> cases failed
  | error f m =>
    rw [outcome] at failed
    cases failed
    exact (execute_noDefect linked conforms).of_error outcome

theorem runFrom_noDefect (linked : p.Linked) {signals : Nat → Bool} {fuel pc : Nat}
    {steps : Array Step} {m : Machine} {r : Run} {report : Report}
    (ended : runFrom p signals fuel pc steps m = some r) (failed : r.failure? = some report) :
    ∃ (f : Fault) (line : Nat), report = f.report.atLine line ∧ ¬f.IsDefect := by
  induction fuel generalizing pc steps m with
  | zero => cases ended
  | succ fuel ih =>
    rw [runFrom] at ended
    cases found : p.at? pc with
    | none =>
      rw [found] at ended
      cases ended
      cases failed
    | some i =>
      simp only [found] at ended
      split at ended
      · cases ended
        cases failed
        exact ⟨.interrupted, i.line, rfl, id⟩
      split at ended
      next => exact ih ended
      next =>
        cases ended
        cases failed
      next f m' performed =>
        cases ended
        cases failed
        exact ⟨f, i.line, rfl, perform_noDefect linked (linked.conforms_at found) performed⟩

end Machine

namespace Fault

/-- How many spaces a text has. -/
def spaces (s : String) : Nat := s.toList.count ' '

theorem expectedComparison_ne {s t u : String} (many : 2 ≤ spaces t) :
    s ++ t ++ u ≠ "EXPECTED COMPARISON" := by
  intro same
  -- The text of the defect has one space, and joining texts adds up theirs.
  have one : spaces (s ++ t ++ u) = 1 := by
    rw [same]
    decide
  simp only [spaces, String.toList_append, List.count_append] at many one
  omega

/-- The wording tells the one mismatch that is a defect from the others. -/
theorem detail_of_mismatch {f : Fault} (mismatch : f.code = .typeMismatch) (fault : ¬f.IsDefect) :
    f.detail ≠ "EXPECTED COMPARISON" := by
  cases f <;> simp only [code, reduceCtorEq] at mismatch
  case unfitOperands | incomparable | loopVariableKind | comparedStrings => decide
  case expectedComparison => exact absurd trivial fault
  case expectedKind kind => cases kind <;> decide
  -- Names, values and expressions can have any text, but there is more than one space between them.
  case variableKind | expressionKind | cannotRead => exact expectedComparison_ne (by decide)

theorem code_of_noDefect {f : Fault} (fault : ¬f.IsDefect) : f.code ≠ .internalError := by
  intro internal
  cases f <;> simp only [code, reduceCtorEq] at internal
  case missingArgument | inputOfExpression | labelPastEnd => exact fault trivial

end Fault

/-- No run of a program that was parsed blames the interpreter, whatever the machine has been
through, whatever comes in, and whenever it is interrupted. -/
theorem run_never_blames_the_interpreter {tokens : List Token} {ss : List Statement}
    (parsed : (parse tokens).result = .ok ss) (m : Machine) (signals : Nat → Bool) (fuel : Nat)
    {r : Run} (ended : m.run (.ofStatements ss) signals fuel = some r) {report : Report}
    (failed : r.failure? = some report) :
    report.code ≠ .internalError ∧
      (report.code = .typeMismatch → report.detail ≠ "EXPECTED COMPARISON") := by
  have linked := Program.linked_ofStatements parsed
  obtain ⟨f, line, rfl, fault⟩ := Machine.runFrom_noDefect linked ended failed
  exact ⟨Fault.code_of_noDefect fault, fun mismatch => Fault.detail_of_mismatch mismatch fault⟩

/-- A program that calls a function with variables that have no values. -/
private def callsLeft : List Statement :=
  [⟨[], ⟨1, .print [.call .left [.variable ⟨"s$"⟩, .variable ⟨"n"⟩]]⟩⟩]

private theorem parse_callsLeft :
    (parse (lex "PRINT left$(s$, n)").tokens).result = .ok callsLeft := by
  have tokens : (lex "PRINT left$(s$, n)").tokens =
      [⟨.keyword .PRINT, none, ⟨1, 0⟩⟩, ⟨.word, some "left$", ⟨1, 6⟩⟩,
        ⟨.symbol .leftParen, none, ⟨1, 11⟩⟩, ⟨.word, some "s$", ⟨1, 12⟩⟩,
        ⟨.symbol .comma, none, ⟨1, 14⟩⟩, ⟨.word, some "n", ⟨1, 16⟩⟩,
        ⟨.symbol .rightParen, none, ⟨1, 17⟩⟩] := by decide +kernel
  have derived : Grammar.DerivesProgram (lex "PRINT left$(s$, n)").tokens callsLeft := by
    rw [tokens]
    exact .last (.command (.print rfl (.one (.sum (.product (Grammar.derives_call_of_two rfl
      (by decide +kernel) rfl rfl rfl rfl rfl (by decide)))))))
  rw [parse_complete derived]

theorem run_never_blames_the_interpreter_for_a_call :
    ∃ r report, (Machine.initial (.ofStatements callsLeft) (.ofSeed 0) (.ofBytes [])).run
        (.ofStatements callsLeft) (fun _ => false) 5 = some r ∧ r.failure? = some report ∧
      report.code ≠ .internalError ∧
      (report.code = .typeMismatch → report.detail ≠ "EXPECTED COMPARISON") := by
  obtain ⟨r, ended, failed⟩ : ∃ r, (Machine.initial (.ofStatements callsLeft) (.ofSeed 0)
        (.ofBytes [])).run (.ofStatements callsLeft) (fun _ => false) 5 = some r ∧
      r.failure? = some ((Fault.undefinedVariable ⟨"s$"⟩).report.atLine 1) := ⟨_, rfl, rfl⟩
  exact ⟨r, _, ended, failed,
    run_never_blames_the_interpreter parse_callsLeft _ _ _ ended failed⟩

end LabelBasic
