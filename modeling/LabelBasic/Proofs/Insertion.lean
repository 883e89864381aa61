import LabelBasic.Program
import Mathlib.Data.List.Basic

/-!
# One more DATA in a program

A DATA without labels that is put between the instructions of a program moves those behind it by one
address. Labels stand for the same instructions as before, and each FOR has the same NEXT.
-/
namespace LabelBasic

/-! ### Addresses -/

/-- The address of an instruction once there is one more at `n`. -/
def shifted (n k : Nat) : Nat := if k < n then k else k + 1

variable {n k k' : Nat}

theorem shifted_of_lt (before : k < n) : shifted n k = k := if_pos before

theorem shifted_of_le (behind : n ≤ k) : shifted n k = k + 1 := if_neg (Nat.not_lt.mpr behind)

theorem shifted_inj : shifted n k = shifted n k' ↔ k = k' := by
  simp only [shifted]
  split <;> split <;> omega

/-- To come to an address is to come to the instruction, or to the one more right before it. -/
inductive Leads (n : Nat) : Nat → Nat → Prop
  | shifted (k : Nat) : Leads n k (shifted n k)
  | before : Leads n n n

theorem Leads.zero (n : Nat) : Leads n 0 0 := by
  cases n with
  | zero => exact .before
  | succ n => exact .shifted 0

/-- The next instruction, or the one more right before it. -/
theorem Leads.succ (n k : Nat) : Leads n (k + 1) (LabelBasic.shifted n k + 1) := by
  by_cases last : k + 1 = n
  · subst last
    rw [shifted_of_lt (Nat.lt_succ_self k)]
    exact .before
  · have same : LabelBasic.shifted n k + 1 = LabelBasic.shifted n (k + 1) := by
      simp only [LabelBasic.shifted]
      split <;> split <;> omega
    rw [same]
    exact .shifted (k + 1)

/-! ### Programs -/

namespace Program

/-- The second program is the first with one more DATA at `n`. -/
structure Inserted (p p' : Program) (n : Nat) : Prop where
  here : ∃ line items, p'.at? n = some ⟨line, .data items⟩
  at_eq : ∀ k, p'.at? (shifted n k) = p.at? k
  label_eq : ∀ name, p'.label? name = (p.label? name).map (shifted n)
  closing_eq : ∀ k v, p'.matchingNext? (shifted n k) v = (p.matchingNext? k v).map (shifted n)

theorem definitions_behind {first : Nat} (behind : n ≤ first) (ss : List Statement) :
    definitions (first + 1) ss = (definitions first ss).map (Prod.map id (shifted n)) := by
  induction ss generalizing first with
  | nil => rfl
  | cons s ss ih =>
    simp only [definitions, List.map_append, List.map_map, ih (Nat.le_succ_of_le behind)]
    congr 1
    simp [Function.comp_def, shifted_of_le behind]

theorem definitions_insert (first : Nat) (above below : List Statement) {d : Statement}
    (unlabelled : d.labels = []) :
    definitions first (above ++ d :: below) =
      (definitions first (above ++ below)).map (Prod.map id (shifted (first + above.length))) := by
  induction above generalizing first with
  | nil =>
    simp only [List.nil_append, definitions, unlabelled, List.map_nil]
    exact definitions_behind (Nat.le_refl first) below
  | cons s above ih =>
    have before : shifted (first + (above.length + 1)) first = first :=
      shifted_of_lt (by omega)
    have same : first + 1 + above.length = first + (above.length + 1) := by omega
    simp only [List.cons_append, definitions, List.map_append, List.map_map, List.length_cons, ih, same]
    congr 1
    simp [Function.comp_def, before]

theorem label?_eq_of_labels {p p' : Program} {f : Nat → Nat}
    (labels : p'.labels = p.labels.map (Prod.map id f)) (name : String) :
    p'.label? name = (p.label? name).map f := by
  simp only [label?, labels, List.filter_map, List.getLast?_map, Option.map_map]
  rfl

theorem closing?_behind {v : Ident} {depth i : Nat} (behind : n ≤ i) (is : List Instruction) :
    closing? v depth (i + 1) is = (closing? v depth i is).map (shifted n) := by
  induction is generalizing depth i with
  | nil => rfl
  | cons j is ih =>
    have later (depth : Nat) : closing? v depth (i + 1 + 1) is =
        (closing? v depth (i + 1) is).map (shifted n) :=
      ih (Nat.le_succ_of_le behind)
    simp only [closing?]
    split
    · exact later _
    · split
      · rw [Option.map_some, shifted_of_le behind]
      · exact later _
    · exact later _

theorem closing?_insert {v : Ident} (depth i : Nat) (above below : List Instruction)
    {j : Instruction} {items : List Expr} (isData : j.command = .data items) :
    closing? v depth i (above ++ j :: below) =
      (closing? v depth i (above ++ below)).map (shifted (i + above.length)) := by
  induction above generalizing depth i with
  | nil =>
    have passed : closing? v depth i (j :: below) = closing? v depth (i + 1) below := by
      simp only [closing?, isData]
    rw [List.nil_append, passed]
    exact closing?_behind (Nat.le_refl i) below
  | cons j' above ih =>
    have same : i + 1 + above.length = i + (above.length + 1) := by omega
    have before : shifted (i + (above.length + 1)) i = i := shifted_of_lt (by omega)
    simp only [List.cons_append, closing?, List.length_cons, ih, same]
    split
    · rfl
    · split
      · rw [Option.map_some, before]
      · rfl
    · rfl

theorem getElem?_insert {α : Type} (above below : List α) (x : α) (k : Nat) :
    (above ++ x :: below)[shifted above.length k]? = (above ++ below)[k]? := by
  by_cases inside : k < above.length
  · rw [shifted_of_lt inside, List.getElem?_append_left inside, List.getElem?_append_left inside]
  · have behind := Nat.le_of_not_lt inside
    rw [shifted_of_le behind, List.getElem?_append_right (by omega),
      List.getElem?_append_right behind, Nat.succ_sub behind, List.getElem?_cons_succ]

theorem drop_insert {α : Type} (above below : List α) (x : α) {k : Nat} (behind : above.length ≤ k) :
    (above ++ x :: below).drop (k + 1) = (above ++ below).drop k := by
  rw [List.drop_append, List.drop_append, List.drop_eq_nil_of_le behind,
    List.drop_eq_nil_of_le (Nat.le_succ_of_le behind), Nat.succ_sub behind, List.drop_succ_cons]

theorem closing?_drop_insert {v : Ident} (above below : List Instruction) {j : Instruction}
    {items : List Expr} (isData : j.command = .data items) (k : Nat) :
    closing? v 0 (shifted above.length k + 1)
        ((above ++ j :: below).drop (shifted above.length k + 1)) =
      (closing? v 0 (k + 1) ((above ++ below).drop (k + 1))).map (shifted above.length) := by
  by_cases inside : k < above.length
  · have rest : k + 1 + (above.drop (k + 1)).length = above.length := by
      rw [List.length_drop]
      omega
    rw [shifted_of_lt inside, List.drop_append_of_le_length inside,
      List.drop_append_of_le_length inside, closing?_insert _ _ _ _ isData, rest]
  · have behind := Nat.le_succ_of_le (Nat.le_of_not_lt inside)
    rw [shifted_of_le (Nat.le_of_not_lt inside), drop_insert _ _ _ behind, closing?_behind behind]

theorem inserted_ofStatements (above below : List Statement) {d : Statement} {items : List Expr}
    (unlabelled : d.labels = []) (isData : d.instruction.command = .data items) :
    Inserted (ofStatements (above ++ below)) (ofStatements (above ++ d :: below)) above.length := by
  let front := above.map Statement.instruction
  let back := below.map Statement.instruction
  have length : above.length = front.length := (List.length_map _).symm
  have shorter : (ofStatements (above ++ below)).instructions.toList = front ++ back := by
    simp [ofStatements, front, back]
  have longer : (ofStatements (above ++ d :: below)).instructions.toList =
      front ++ d.instruction :: back := by
    simp [ofStatements, front, back]
  constructor
  · refine ⟨d.instruction.line, items, ?_⟩
    rw [at?, ← Array.getElem?_toList, longer, length, List.getElem?_append_right (Nat.le_refl _),
      Nat.sub_self, ← isData]
    rfl
  · intro k
    rw [at?, at?, ← Array.getElem?_toList, ← Array.getElem?_toList, shorter, longer, length]
    exact getElem?_insert front back d.instruction k
  · apply label?_eq_of_labels
    have labels := definitions_insert 0 above below unlabelled
    rwa [Nat.zero_add] at labels
  · intro k v
    rw [matchingNext?, matchingNext?, shorter, longer, length]
    exact closing?_drop_insert front back isData k

end Program

end LabelBasic
