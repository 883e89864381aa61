import LabelBasic.Proofs.Chains
import LabelBasic.Proofs.DataPlaces
import Mathlib.Data.List.Induction

/-!
# What linking makes of statements

Linking goes through the statements once and keeps three things in step: the instructions, what the
labels stand for, and the DATA. Here each of the three is said of the statements as a whole, and so
is what linking warns of. Main result: an instruction for every statement, a label means the last
statement that defines it, the DATA is that of the first statement that has any, and nothing is
passed over without a warning.
-/
namespace LabelBasic

/-- The names that the labels of a statement define. -/
def Statement.names (s : Statement) : List String := s.labels.map Label.name

namespace Program

variable {ss : List Statement} {name : String} {n : Nat}

/-! ### Labels -/

/-- The statement with this index defines the label. -/
def Defines (ss : List Statement) (name : String) (n : Nat) : Prop :=
  ∃ s, ss[n]? = some s ∧ name ∈ s.names

theorem Defines.lt (defines : Defines ss name n) : n < ss.length := by
  obtain ⟨s, there, _⟩ := defines
  exact (List.getElem?_eq_some_iff.mp there).1

theorem defines_concat {s : Statement} :
    Defines (ss ++ [s]) name n ↔ Defines ss name n ∨ n = ss.length ∧ name ∈ s.names := by
  rcases Nat.lt_trichotomy n ss.length with inside | rfl | beyond
  · simp [Defines, List.getElem?_append_left inside, Nat.ne_of_lt inside]
  · simp [Defines]
  · have behind : (ss ++ [s]).length ≤ n := by rwa [List.length_append]
    simp [Defines, List.getElem?_eq_none behind, List.getElem?_eq_none (Nat.le_of_lt beyond),
      Nat.ne_of_gt beyond]

/-- No statement behind this one defines the label again. -/
def DefinesLast (ss : List Statement) (name : String) (n : Nat) : Prop :=
  Defines ss name n ∧ ∀ k, n < k → ¬Defines ss name k

theorem definesLast_concat {s : Statement} :
    DefinesLast (ss ++ [s]) name n ↔
      if name ∈ s.names then n = ss.length else DefinesLast ss name n := by
  simp only [DefinesLast, defines_concat]
  split
  next defined =>
    constructor
    · rintro ⟨here | ⟨rfl, _⟩, last⟩
      · exact absurd (.inr ⟨rfl, defined⟩) (last ss.length here.lt)
      · rfl
    · rintro rfl
      refine ⟨.inr ⟨rfl, defined⟩, fun k beyond defines => ?_⟩
      rcases defines with before | ⟨rfl, _⟩
      · exact Nat.lt_asymm beyond before.lt
      · exact Nat.lt_irrefl _ beyond
  next absent => simp only [absent, and_false, or_false]

theorem definitions_append (first : Nat) (ss ts : List Statement) :
    definitions first (ss ++ ts) = definitions first ss ++ definitions (first + ss.length) ts := by
  induction ss generalizing first with
  | nil => rfl
  | cons s ss ih =>
    rw [List.cons_append, definitions, definitions, ih, List.append_assoc, List.length_cons,
      Nat.add_assoc, Nat.add_comm 1]

/-- One more statement below the others takes over the labels that it defines. -/
theorem label?_concat (ss : List Statement) (s : Statement) (name : String) :
    (ofStatements (ss ++ [s])).label? name =
      if name ∈ s.names then some ss.length else (ofStatements ss).label? name := by
  have own : (definitions (0 + ss.length) [s]).filter (fun d => d.1 == name) =
      (s.labels.filter fun l => l.name == name).map fun l => (l.name, ss.length) := by
    simp only [definitions, List.append_nil, Nat.zero_add, List.filter_map]
    rfl
  simp only [label?, ofStatements, definitions_append, List.filter_append, own]
  split
  next defined =>
    obtain ⟨l, member, same⟩ := List.mem_map.mp defined
    have some : (s.labels.filter fun l => l.name == name) ≠ [] :=
      List.ne_nil_of_mem (List.mem_filter.mpr ⟨member, by simpa using same⟩)
    rw [List.getLast?_append, List.getLast?_map, List.getLast?_eq_some_getLast some]
    rfl
  next absent =>
    have none : (s.labels.filter fun l => l.name == name) = [] := by
      refine List.filter_eq_nil_iff.mpr fun l member same => absent ?_
      exact List.mem_map.mpr ⟨l, member, by simpa using same⟩
    rw [none, List.map_nil, List.append_nil]

/-- A label stands for the last statement that defines it. -/
theorem label?_eq_some_iff : (ofStatements ss).label? name = some n ↔ DefinesLast ss name n := by
  induction ss using List.reverseRecOn with
  | nil =>
    constructor
    · rintro ⟨⟩
    · intro last
      exact absurd last.1.lt (Nat.not_lt_zero n)
  | append_singleton ss s ih =>
    rw [label?_concat, definesLast_concat]
    split
    · rw [Option.some.injEq, eq_comm]
    · exact ih

theorem label?_eq_none_iff :
    (ofStatements ss).label? name = none ↔ ∀ n, ¬Defines ss name n := by
  induction ss using List.reverseRecOn with
  | nil =>
    have nowhere : ∀ n, ¬Defines [] name n := fun n defines => Nat.not_lt_zero n defines.lt
    exact ⟨fun _ => nowhere, fun _ => rfl⟩
  | append_singleton ss s ih =>
    rw [label?_concat]
    simp only [defines_concat]
    split
    next defined =>
      exact ⟨nofun, fun nowhere => absurd (.inr ⟨rfl, defined⟩) (nowhere ss.length)⟩
    next absent => simpa [absent] using ih

/-! ### DATA -/

/-- The values that the first DATA lists, and none without any DATA. -/
inductive FirstData : List Statement → List Value → Prop
  | none {ss : List Statement} (absent : ∀ s ∈ ss, s.isData = false) : FirstData ss []
  | first {above below : List Statement} {s : Statement} {items : List Expr}
      (absent : ∀ t ∈ above, t.isData = false) (listed : s.instruction.command = .data items) :
      FirstData (above ++ s :: below) (items.filterMap Expr.literal?)

theorem exists_items {s : Statement} (isData : s.isData = true) :
    ∃ items, s.instruction.command = .data items := by
  obtain ⟨labels, line, c⟩ := s
  cases c with
  | data items => exact ⟨items, rfl⟩
  | _ => cases isData

theorem firstData_ofStatements (ss : List Statement) : FirstData ss (ofStatements ss).data := by
  simp only [ofStatements, findSome?_data]
  cases found : ss.find? Statement.isData with
  | none =>
    refine .none fun s member => ?_
    simpa using List.find?_eq_none.mp found s member
  | some s =>
    obtain ⟨isData, above, below, rfl, absent⟩ := List.find?_eq_some_iff_append.mp found
    obtain ⟨items, listed⟩ := exists_items isData
    simp only [Option.bind_some, listed, Command.data?, Option.getD_some]
    exact .first (by simpa using absent) listed

/-! ### Warnings -/

/-- The definitions of the labels of a statement, each with the line of what follows it. -/
def marks (instruction : Instruction) : List Label → List (String × Nat)
  | [] => []
  | l :: rest => (l.name, Statement.line ⟨rest, instruction⟩) :: marks instruction rest

/-- Those definitions whose name has been defined before, by another one of them or earlier. -/
def repeated (earlier : List String) (ds : List (String × Nat)) : List (String × Nat) :=
  (ds.zipIdx.filter fun (d, k) => d.1 ∈ earlier ++ (ds.take k).map Prod.fst).map Prod.fst

example : repeated [] [("a", 1), ("b", 1), ("a", 2), ("a", 5)] = [("a", 2), ("a", 5)] := by decide

theorem repeated_congr {earlier earlier' : List String}
    (same : ∀ name, name ∈ earlier ↔ name ∈ earlier') (ds : List (String × Nat)) :
    repeated earlier ds = repeated earlier' ds := by
  simp only [repeated, List.mem_append, same]

theorem repeated_cons (earlier : List String) (d : String × Nat) (ds : List (String × Nat)) :
    repeated earlier (d :: ds) =
      (if d.1 ∈ earlier then [d] else []) ++ repeated (d.1 :: earlier) ds := by
  -- Those behind the first one have it before them, and are one place further.
  have later : ((ds.zipIdx 1).filter fun (e, k) =>
      e.1 ∈ earlier ++ ((d :: ds).take k).map Prod.fst).map Prod.fst =
        repeated (d.1 :: earlier) ds := by
    rw [List.zipIdx_succ, List.filter_map, List.map_map, repeated]
    refine congrArg (List.map Prod.fst) (List.filter_congr fun (e, k) _ => ?_)
    simp [Bool.or_left_comm]
  simp only [repeated, List.zipIdx_cons, List.filter_cons, Nat.zero_add] at later ⊢
  rw [← later]
  simp only [List.take_zero, List.map_nil, List.append_nil, decide_eq_true_eq]
  split <;> rfl

theorem repeated_append (earlier : List String) (ds es : List (String × Nat)) :
    repeated earlier (ds ++ es) =
      repeated earlier ds ++ repeated (ds.map Prod.fst ++ earlier) es := by
  induction ds generalizing earlier with
  | nil => rfl
  | cons d ds ih =>
    rw [List.cons_append, repeated_cons, repeated_cons, ih, List.append_assoc]
    congr 2
    exact repeated_congr (by simp [or_left_comm]) es

theorem labelWarnings_eq (seen : List String) (instruction : Instruction) (labels : List Label) :
    labelWarnings seen instruction labels =
      (repeated seen (marks instruction labels)).map
        fun (name, line) => .repeatedLabel name line := by
  induction labels generalizing seen with
  | nil => rfl
  | cons l rest ih =>
    rw [labelWarnings, marks, repeated_cons, List.map_append, ih]
    split <;> rfl

theorem map_fst_marks (instruction : Instruction) (labels : List Label) :
    (marks instruction labels).map Prod.fst = labels.map Label.name := by
  induction labels with
  | nil => rfl
  | cons l rest ih => rw [marks, List.map_cons, List.map_cons, ih]

end Program

/-- The definition of a label that a warning is about, with the line that it names. -/
def Event.repeated? : Event → Option (String × Nat)
  | .repeatedLabel name line => some (name, line)
  | _ => none

/-- The line of the DATA that a warning is about. -/
def Event.ignored? : Event → Option Nat
  | .ignoredData line => some line
  | _ => none

def Event.isWarning (e : Event) : Bool := e.level == .warn

def Statement.marks (s : Statement) : List (String × Nat) := Program.marks s.instruction s.labels

namespace Program

theorem repeated_of_warnings (seen : List String) (haveData : Bool) (ss : List Statement) :
    (warnings seen haveData ss).filterMap Event.repeated? =
      repeated seen (ss.flatMap Statement.marks) := by
  induction ss generalizing seen haveData with
  | nil => rfl
  | cons s ss ih =>
    have own : (labelWarnings seen s.instruction s.labels).filterMap Event.repeated? =
        repeated seen s.marks := by
      rw [labelWarnings_eq, List.filterMap_map]
      exact List.filterMap_some
    rw [warnings, List.filterMap_append, List.filterMap_append, own, ih, List.flatMap_cons,
      repeated_append, Statement.marks, map_fst_marks]
    split <;> simp [Event.repeated?]

theorem ignored_of_warnings (seen : List String) (haveData : Bool) (ss : List Statement) :
    (warnings seen haveData ss).filterMap Event.ignored? =
      ((ss.filter Statement.isData).drop (if haveData then 0 else 1)).map fun s =>
        s.instruction.line := by
  induction ss generalizing seen haveData with
  | nil => simp [warnings]
  | cons s ss ih =>
    have own : (labelWarnings seen s.instruction s.labels).filterMap Event.ignored? = [] := by
      rw [labelWarnings_eq, List.filterMap_map]
      exact List.filterMap_eq_nil_iff.mpr fun _ _ => rfl
    have here : s.instruction.command.data?.isSome = s.isData := rfl
    rw [warnings, List.filterMap_append, List.filterMap_append, own, ih, here]
    cases data : s.isData <;> cases haveData <;> simp [Event.ignored?, data]

theorem mem_warnings {seen : List String} {haveData : Bool} {e : Event}
    (member : e ∈ warnings seen haveData ss) :
    (∃ name line, e = .repeatedLabel name line) ∨ ∃ line, e = .ignoredData line := by
  induction ss generalizing seen haveData with
  | nil => cases member
  | cons s ss ih =>
    simp only [warnings, labelWarnings_eq, List.mem_append] at member
    rcases member with (own | ignored) | later
    · obtain ⟨⟨name, line⟩, _, rfl⟩ := List.mem_map.mp own
      exact .inl ⟨name, line, rfl⟩
    · split at ignored
      · exact .inr ⟨_, List.mem_singleton.mp ignored⟩
      · cases ignored
    · exact ih later

/-- Both sorts of warnings together are all of them. -/
theorem countP_isWarning {es : List Event}
    (each : ∀ e ∈ es, (∃ name line, e = .repeatedLabel name line) ∨ ∃ line, e = .ignoredData line) :
    es.countP Event.isWarning =
      (es.filterMap Event.repeated?).length + (es.filterMap Event.ignored?).length := by
  induction es with
  | nil => rfl
  | cons e es ih =>
    obtain ⟨first, rest⟩ := List.forall_mem_cons.mp each
    rw [List.countP_cons, ih rest, List.filterMap_cons, List.filterMap_cons]
    rcases first with ⟨name, line, rfl⟩ | ⟨line, rfl⟩
    · exact Nat.add_right_comm _ _ 1
    · exact Nat.add_assoc _ _ 1

end Program

namespace Machine

theorem label_eq_ok_iff {p : Program} {name : String} {n : Nat} {m : Machine} :
    label p name m = .ok n m ↔ p.label? name = some n := by
  cases found : p.label? name with
  | none => simp [label_of_none found]
  | some k => simp [label_of_some found]

theorem label_eq_error_iff {p : Program} {name : String} {m : Machine} :
    label p name m = .error (.undefinedLabel name) m ↔ p.label? name = none := by
  cases found : p.label? name with
  | none => simp [label_of_none found]
  | some k => simp [label_of_some found]

end Machine

open Program Machine

/-- A linked program has an instruction for every statement, in order and without the labels. A
label stands for the last of the statements that define it, and any other name is not defined. The
DATA is that of the first statement that has any. Linking warns of each label that has been defined
before and of each DATA but the first, and of nothing else. -/
theorem ofStatements_faithful (ss : List Statement) :
    (ofStatements ss).size = ss.length ∧
    (∀ n, (ofStatements ss).at? n = (ss[n]?).map Statement.instruction) ∧
    (∀ name n m, label (ofStatements ss) name m = .ok n m ↔
      n < (ofStatements ss).size ∧ DefinesLast ss name n) ∧
    (∀ name m, label (ofStatements ss) name m = .error (.undefinedLabel name) m ↔
      ∀ n, ¬Defines ss name n) ∧
    FirstData ss (ofStatements ss).data ∧
    (linkLog ss).filterMap Event.repeated? = repeated [] (ss.flatMap Statement.marks) ∧
    (linkLog ss).filterMap Event.ignored? =
      (ss.filter Statement.isData).tail.map (fun s => s.instruction.line) ∧
    (linkLog ss).countP Event.isWarning =
      (repeated [] (ss.flatMap Statement.marks)).length +
        (ss.filter Statement.isData).tail.length := by
  have size : (ofStatements ss).size = ss.length := by simp [Program.size, ofStatements]
  have repeated_eq := repeated_of_warnings [] false ss
  have ignored_eq := ignored_of_warnings [] false ss
  refine ⟨size, at?_ofStatements ss, fun name n m => ?_, fun name m => ?_,
    firstData_ofStatements ss, ?_, ?_, ?_⟩
  · rw [label_eq_ok_iff, label?_eq_some_iff, size]
    exact ⟨fun last => ⟨last.1.lt, last⟩, And.right⟩
  · rw [label_eq_error_iff, label?_eq_none_iff]
  · rw [linkLog, List.filterMap_append, repeated_eq]
    exact List.append_nil _
  · rw [linkLog, List.filterMap_append, ignored_eq]
    simp [Event.ignored?]
  · rw [linkLog, List.countP_append, countP_isWarning fun e => mem_warnings, repeated_eq,
      ignored_eq]
    simp [Event.isWarning, Event.level]

end LabelBasic
