import LabelBasic.Event

/-!
# Linked programs

Linking lays the statements out as instructions that are reached by their index, takes the labels
off, and collects the literals of the first DATA. A label defined more than once means its last
definition.
-/
namespace LabelBasic

structure Program where
  instructions : Array Instruction
  /-- Every definition of a label in order, with the index it stands for. -/
  labels : List (String × Nat)
  /-- What READ gets. -/
  data : List Value
  deriving Repr

/-- The value of a literal. -/
def Expr.literal? : Expr → Option Value
  | .literal value => some value
  | _ => none

/-- The literals of a DATA. -/
def Command.data? : Command → Option (List Value)
  | .data items => some (items.filterMap Expr.literal?)
  | _ => none

namespace Program

/-- The labels of the statements, numbered from `first`. -/
def definitions (first : Nat) : List Statement → List (String × Nat)
  | [] => []
  | s :: ss => s.labels.map (fun l => (l.name, first)) ++ definitions (first + 1) ss

/-- Links statements. -/
def ofStatements (ss : List Statement) : Program where
  instructions := (ss.map Statement.instruction).toArray
  labels := definitions 0 ss
  data := (ss.findSome? fun s => s.instruction.command.data?).getD []

def size (p : Program) : Nat := p.instructions.size

/-- The instruction of an index. -/
def at? (p : Program) (i : Nat) : Option Instruction := p.instructions[i]?

/-- The index of a label. -/
def label? (p : Program) (name : String) : Option Nat :=
  ((p.labels.filter fun d => d.1 == name).getLast?).map Prod.snd

/-- How many different labels there are. -/
def labelCount (p : Program) : Nat := (p.labels.map Prod.fst).eraseDups.length

/-- Looks for the NEXT that closes a loop on `v`, in instructions numbered from `i`, with `depth`
loops opened since. A NEXT that names `v` closes it at any depth. -/
def closing? (v : Ident) (depth i : Nat) : List Instruction → Option Nat
  | [] => none
  | instruction :: rest =>
    match instruction.command with
    | .loop .. => closing? v (depth + 1) (i + 1) rest
    | .next w =>
      if w = some v ∨ depth = 0 then some i else closing? v (depth - 1) (i + 1) rest
    | _ => closing? v depth (i + 1) rest

/-- The NEXT that closes the loop on `v` whose FOR has the index `i`. -/
def matchingNext? (p : Program) (i : Nat) (v : Ident) : Option Nat :=
  closing? v 0 (i + 1) (p.instructions.toList.drop (i + 1))

/-! ### What linking says -/

/-- Warnings about the labels of one statement, given the names defined before. -/
def labelWarnings (seen : List String) (instruction : Instruction) : List Label → List Event
  | [] => []
  | l :: rest =>
    let warning :=
      if l.name ∈ seen then [Event.repeatedLabel l.name (Statement.line ⟨rest, instruction⟩)] else []
    warning ++ labelWarnings (l.name :: seen) instruction rest

/-- Warnings about labels defined again and DATA that is not read. -/
def warnings (seen : List String) (haveData : Bool) : List Statement → List Event
  | [] => []
  | s :: ss =>
    let isData := s.instruction.command.data?.isSome
    let ignored := if isData && haveData then [Event.ignoredData s.instruction.line] else []
    labelWarnings seen s.instruction s.labels ++ ignored ++
      warnings (s.labels.map Label.name ++ seen) (haveData || isData) ss

/-- The log of linking. -/
def linkLog (ss : List Statement) : List Event :=
  let p := ofStatements ss
  warnings [] false ss ++ [.linked p.size p.labelCount p.data.length]

end Program

end LabelBasic
