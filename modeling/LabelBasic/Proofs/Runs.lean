import LabelBasic.Machine.Run

/-!
# Runs turn by turn

A run goes from one instruction to the next until the machine stops. Here it is said without fuel: a
machine comes to an address by turns that go on, and it stops there behind the program, by an
interrupt, by END or with a fault. A run has a result just when the machine comes to where it stops.
-/
namespace LabelBasic.Machine

/-- In one run, with these steps begun, the machine has come to an address. -/
inductive Running (p : Program) (signals : Nat → Bool) (start : Machine) :
    Array Step → Nat → Machine → Prop
  | start : Running p signals start #[] 0 (start.signal (signals 0))
  | turn {steps : Array Step} {pc next : Nat} {m m' : Machine} {i : Instruction}
      (running : Running p signals start steps pc m) (found : p.at? pc = some i)
      (calm : m.interrupted = false)
      (performed : perform p pc i (m.signal (signals (steps.size + 1))) = (.goOn next, m')) :
      Running p signals start (steps.push ⟨pc, i⟩) next m'

/-- The machine that has come to an address stops there, and this is its run. -/
inductive Stops (p : Program) (signals : Nat → Bool) (steps : Array Step) (pc : Nat) (m : Machine) :
    Run → Prop
  | off (off : p.at? pc = none) : Stops p signals steps pc m ⟨m, none, steps⟩
  | interrupted {i : Instruction} (found : p.at? pc = some i) (pending : m.interrupted = true) :
      Stops p signals steps pc m ⟨{ m with interrupted := false },
        some (Fault.interrupted.report.atLine i.line), steps⟩
  | halted {i : Instruction} {m' : Machine} (found : p.at? pc = some i)
      (calm : m.interrupted = false)
      (performed : perform p pc i (m.signal (signals (steps.size + 1))) = (.halted, m')) :
      Stops p signals steps pc m ⟨m', none, steps.push ⟨pc, i⟩⟩
  | failed {i : Instruction} {f : Fault} {m' : Machine} (found : p.at? pc = some i)
      (calm : m.interrupted = false)
      (performed : perform p pc i (m.signal (signals (steps.size + 1))) = (.failed f, m')) :
      Stops p signals steps pc m ⟨m', some (f.report.atLine i.line), steps.push ⟨pc, i⟩⟩

variable {p : Program} {signals : Nat → Bool} {start m : Machine} {steps : Array Step} {pc : Nat}
  {r : Run}

/-- A turn that goes on takes one unit of fuel. -/
theorem runFrom_goOn {i : Instruction} {next : Nat} {m' : Machine} (found : p.at? pc = some i)
    (calm : m.interrupted = false)
    (performed : perform p pc i (m.signal (signals (steps.size + 1))) = (.goOn next, m'))
    (fuel : Nat) :
    runFrom p signals (fuel + 1) pc steps m = runFrom p signals fuel next (steps.push ⟨pc, i⟩) m' := by
  simp only [runFrom, found, calm, Bool.false_eq_true, if_false, Array.size_push, performed]

theorem Stops.runFrom_eq (stops : Stops p signals steps pc m r) :
    runFrom p signals 1 pc steps m = some r := by
  cases stops with
  | off off => simp only [runFrom, off]
  | interrupted found pending => simp only [runFrom, found, pending, if_true]
  | halted found calm performed =>
    simp only [runFrom, found, calm, Bool.false_eq_true, if_false, Array.size_push, performed]
  | failed found calm performed =>
    simp only [runFrom, found, calm, Bool.false_eq_true, if_false, Array.size_push, performed]

theorem Running.exists_fuel (running : Running p signals start steps pc m) :
    ∃ k, ∀ fuel, start.run p signals (fuel + k) = runFrom p signals fuel pc steps m := by
  induction running with
  | start => exact ⟨0, fun fuel => rfl⟩
  | turn _ found calm performed ih =>
    obtain ⟨k, same⟩ := ih
    refine ⟨k + 1, fun fuel => ?_⟩
    rw [Nat.add_comm k 1, ← Nat.add_assoc, same, runFrom_goOn found calm performed]

theorem Running.stops_of_runFrom {fuel : Nat} (running : Running p signals start steps pc m)
    (ended : runFrom p signals fuel pc steps m = some r) :
    ∃ steps pc m, Running p signals start steps pc m ∧ Stops p signals steps pc m r := by
  induction fuel generalizing steps pc m with
  | zero => cases ended
  | succ fuel ih =>
    simp only [runFrom, Array.size_push] at ended
    split at ended
    next off =>
      cases ended
      exact ⟨steps, pc, m, running, .off off⟩
    next i found =>
      split at ended
      next pending =>
        cases ended
        exact ⟨steps, pc, m, running, .interrupted found pending⟩
      next quiet =>
        have calm : m.interrupted = false := by simpa using quiet
        split at ended
        next next m' performed => exact ih (running.turn found calm performed) ended
        next m' performed =>
          cases ended
          exact ⟨steps, pc, m, running, .halted found calm performed⟩
        next f m' performed =>
          cases ended
          exact ⟨steps, pc, m, running, .failed found calm performed⟩

/-- A run ends, given enough fuel, just when it comes to where it stops. -/
theorem run_ends_iff :
    (∃ fuel, start.run p signals fuel = some r) ↔
      ∃ steps pc m, Running p signals start steps pc m ∧ Stops p signals steps pc m r := by
  constructor
  · rintro ⟨fuel, ended⟩
    exact Running.start.stops_of_runFrom ended
  · rintro ⟨steps, pc, m, running, stops⟩
    obtain ⟨k, same⟩ := running.exists_fuel
    exact ⟨1 + k, (same 1).trans stops.runFrom_eq⟩

end LabelBasic.Machine
