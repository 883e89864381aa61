import LabelBasic.Machine.Execute

/-!
# Running programs

A run starts at the first instruction and ends at END, behind the last instruction, with a fault, or
by an interrupt. An interrupt that arrives during an instruction stops the run before the next one.
The machine outlives the run, so that a further run continues with its variables.
-/
namespace LabelBasic

/-- An instruction that was begun, and its address. -/
structure Step where
  address : Nat
  instruction : Instruction
  deriving Repr

/-- A run that has ended: halted, or failed with a report. -/
structure Run where
  machine : Machine
  failure? : Option Report
  steps : Array Step

namespace Run

/-- Each instruction is logged before it is run, and the end unless the run failed. -/
def log (r : Run) : List Event :=
  r.steps.toList.map (fun s => .executing s.address s.instruction) ++
    match r.failure? with
    | none => [.halted r.machine.store.size]
    | some _ => []

end Run

/-- What becomes of a run after one instruction. -/
inductive Turn where
  | goOn (address : Nat)
  | halted
  | failed (fault : Fault)

namespace Machine

/-- Runs one instruction. -/
def perform (p : Program) (pc : Nat) (i : Instruction) (m : Machine) : Turn × Machine :=
  match execute p pc branchLimit i.command m with
  | .ok .next m => (.goOn (pc + 1), m)
  | .ok (.jump address) m => (.goOn address, m)
  | .ok .halt m => (.halted, m)
  | .error f m => (.failed f, m)

/-- Marks that an interrupt has come, if it has. -/
def signal (m : Machine) (comes : Bool) : Machine :=
  if comes then { m with interrupted := true } else m

/-- Runs from an address after some steps. A fault is reported at the line of its instruction.
`signals n` says whether an interrupt comes during the `n`-th instruction of the run. Without an
answer the run takes more than `fuel` turns. -/
def runFrom (p : Program) (signals : Nat → Bool) :
    Nat → Nat → Array Step → Machine → Option Run
  | 0, _, _, _ => none
  | fuel + 1, pc, steps, m =>
    match p.at? pc with
    | none => some ⟨m, none, steps⟩
    | some i =>
      if m.interrupted then
        some ⟨{ m with interrupted := false }, some (Fault.interrupted.report.atLine i.line), steps⟩
      else
        let steps := steps.push ⟨pc, i⟩
        match perform p pc i (m.signal (signals steps.size)) with
        | (.goOn next, m) => runFrom p signals fuel next steps m
        | (.halted, m) => some ⟨m, none, steps⟩
        | (.failed f, m) => some ⟨m, some (f.report.atLine i.line), steps⟩

/-- Runs a program from its first instruction. `signals 0` is an interrupt before the run. -/
def run (p : Program) (signals : Nat → Bool) (fuel : Nat) (m : Machine) : Option Run :=
  runFrom p signals fuel 0 #[] (m.signal (signals 0))

end Machine

end LabelBasic
