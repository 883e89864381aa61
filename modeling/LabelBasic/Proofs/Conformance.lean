import LabelBasic.Machine.Evaluate
import LabelBasic.Program
import LabelBasic.Proofs.Grammar.Sound

/-!
# What parsed programs conform to

The parser accepts a call only with arguments that fit the function, puts a relation nowhere but on
top of a condition, and lets INPUT list a prompt and variables only. The machine relies on all three
without checking them again.
-/
namespace LabelBasic

namespace Expr

/-- Every call has arguments that fit, and nothing is compared. -/
inductive Conforms : Expr → Prop
  | literal (value : Value) : Conforms (.literal value)
  | variable (v : Ident) : Conforms (.variable v)
  | call {f : Builtin} {es : List Expr} (fits : f.accepts (es.map kind) = true)
      (each : ∀ e ∈ es, Conforms e) : Conforms (.call f es)
  | arithmetic {op : Operator} {left right : Expr} (first : Conforms left)
      (second : Conforms right) : Conforms (.arithmetic op left right)

/-- A relation between two expressions that conform. -/
inductive IsCondition : Expr → Prop
  | intro {relation : Relation} {left right : Expr} (first : left.Conforms)
      (second : right.Conforms) : IsCondition (.comparison relation left right)

/-- What INPUT may list. -/
inductive IsInputItem : Expr → Prop
  | prompt (s : String) : IsInputItem (.literal (.string s))
  | target (v : Ident) : IsInputItem (.variable v)

end Expr

/-- The expressions of the command conform, each to what its place asks for. -/
def Command.Conforms : Command → Prop
  | .assign _ e => e.Conforms
  | .print es => ∀ e ∈ es, e.Conforms
  | .input es => ∀ e ∈ es, e.IsInputItem
  | .loop _ first last step => first.Conforms ∧ last.Conforms ∧ step.Conforms
  | .branch e _ | .whileLoop e _ => e.IsCondition
  | .data _ | .read _ | .gosub _ | .ret | .stop | .next _ => True

namespace Grammar

mutual

theorem conforms_of_derives {level : Level} {p : List Token} {e : Expr} :
    Derives level p e → e.Conforms
  | .number _ _ => .literal _
  | .string _ => .literal _
  | .variable _ => .variable _
  | .group _ inner _ => conforms_of_derives inner
  | .call _ _ _ inner fits => .call fits (conforms_of_arguments inner)
  | .product inner => conforms_of_derives inner
  | .sum inner => conforms_of_derives inner
  | .operation _ _ first second =>
    .arithmetic (conforms_of_derives first) (conforms_of_derives second)

theorem conforms_of_arguments {p : List Token} {es : List Expr} :
    DerivesArguments p es → ∀ e ∈ es, e.Conforms
  | .none _ => by simp
  | .some inner _ => conforms_of_list inner

theorem conforms_of_list {p : List Token} {es : List Expr} :
    DerivesList p es → ∀ e ∈ es, e.Conforms
  | .one inner => by simpa using conforms_of_derives inner
  | .more inner _ rest =>
    List.forall_mem_cons.mpr ⟨conforms_of_derives inner, conforms_of_list rest⟩

end

theorem isCondition_of_derives {p : List Token} {e : Expr} (derived : DerivesComparison p e) :
    e.IsCondition := by
  obtain ⟨first, _, second⟩ := derived
  exact .intro (conforms_of_derives first) (conforms_of_derives second)

theorem isInputItem_of_mem_targets {vs : List Ident} {e : Expr} (member : e ∈ vs.map .variable) :
    e.IsInputItem := by
  obtain ⟨v, _, rfl⟩ := List.mem_map.mp member
  exact .target v

theorem command_conforms {p : List Token} {c : Command} (derived : DerivesCommand p c) :
    c.Conforms := by
  cases derived with
  | assign _ _ value => exact conforms_of_derives value
  | print _ items => exact conforms_of_list items
  | input _ _ => exact fun e member => isInputItem_of_mem_targets member
  | prompt _ _ =>
    intro e member
    obtain rfl := List.mem_singleton.mp member
    exact .prompt _
  | promptedInput _ _ _ _ =>
    exact List.forall_mem_cons.mpr ⟨.prompt _, fun e member => isInputItem_of_mem_targets member⟩
  -- A step that is not written is a literal.
  | loop _ _ _ lower _ upper =>
    exact ⟨conforms_of_derives lower, conforms_of_derives upper, .literal _⟩
  | loopStep _ _ _ lower _ upper _ increment =>
    exact ⟨conforms_of_derives lower, conforms_of_derives upper, conforms_of_derives increment⟩
  | branch _ condition _ _ => exact isCondition_of_derives condition
  | whileLoop _ condition _ => exact isCondition_of_derives condition
  | data | read | gosub | ret | stop | next | nextOf => trivial

theorem DerivesStatement.exists_command {p : List Token} {s : Statement}
    (derived : DerivesStatement p s) : ∃ q, DerivesCommand q s.instruction.command := by
  induction derived with
  | command inner => exact ⟨_, inner⟩
  | label _ _ ih => exact ih

theorem statement_conforms {p : List Token} {s : Statement} (derived : DerivesStatement p s) :
    s.instruction.command.Conforms := by
  obtain ⟨q, inner⟩ := derived.exists_command
  exact command_conforms inner

end Grammar

theorem Parse.conforms_of_found {level : Level} {s : List Token} {e : Expr}
    (found : (expr level s).outcome = .found e) : e.Conforms := by
  obtain ⟨p, _, _, _, derived⟩ := expr_sound level s e found
  exact Grammar.conforms_of_derives derived

theorem conforms_of_mem_parse {tokens : List Token} {ss : List Statement} {s : Statement}
    (parsed : (parse tokens).result = .ok ss) (member : s ∈ ss) :
    s.instruction.command.Conforms := by
  obtain ⟨p, _, derived⟩ := derives_of_mem_parse parsed member
  exact Grammar.statement_conforms derived

theorem Program.at?_ofStatements (ss : List Statement) (n : Nat) :
    (ofStatements ss).at? n = (ss[n]?).map Statement.instruction := by
  simp [at?, ofStatements]

/-- The commands of a program are those that were parsed. -/
theorem exists_derivation_of_at? {tokens : List Token} {ss : List Statement} {n : Nat}
    {i : Instruction} (parsed : (parse tokens).result = .ok ss)
    (found : (Program.ofStatements ss).at? n = some i) :
    ∃ q, Grammar.DerivesCommand q i.command := by
  rw [Program.at?_ofStatements, Option.map_eq_some_iff] at found
  obtain ⟨s, there, rfl⟩ := found
  obtain ⟨p, _, derived⟩ := derives_of_mem_parse parsed (List.mem_of_getElem? there)
  exact derived.exists_command

end LabelBasic
