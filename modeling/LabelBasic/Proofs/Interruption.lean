import LabelBasic.Proofs.Carrying
import LabelBasic.Proofs.DataPlaces

/-!
# Interrupted runs

Main result: a run that is interrupted is the front of the run that is left alone. It fails before the
next instruction and leaves the machine that this instruction would have been begun in. When there is
no next instruction the run ends as if left alone, and the interrupt stops the next run.
-/
namespace LabelBasic

/-- The first interrupt comes during the `n`-th instruction of a run, or before the run if that is
zero. -/
structure FirstComes (signals : Nat → Bool) (n : Nat) : Prop where
  comes : signals n = true
  first : ∀ k < n, signals k = false

theorem FirstComes.signal_eq {signals : Nat → Bool} {n k : Nat} (interrupt : FirstComes signals n)
    (le : k ≤ n) : signals k = decide (k = n) := by
  rcases Nat.lt_or_eq_of_le le with less | rfl
  · rw [interrupt.first k less, decide_eq_false (Nat.ne_of_lt less)]
  · rw [interrupt.comes, decide_eq_true rfl]

namespace Machine

/-- Left alone, a run comes to begin an instruction in this machine, behind these steps. -/
structure Begins (p : Program) (start : Machine) (before : Array Step) (step : Step) (m : Machine) :
    Prop where
  running : Running p (fun _ => false) start before step.address m
  found : p.at? step.address = some step.instruction

variable {p : Program} {signals : Nat → Bool} {start m : Machine} {steps : Array Step} {pc n : Nat}
  {r : Run}

/-- An interrupt that comes during an instruction makes no difference to it. -/
theorem perform_signal {i : Instruction} (found : p.at? pc = some i) (m : Machine) (comes : Bool) :
    perform p pc i (m.signal comes) = ((perform p pc i m).1, (perform p pc i m).2.signal comes) := by
  -- No expression sees the flag, so it suits each of them.
  have suits (e : Expr) : (Change.ofSignal comes).Suits e :=
    ⟨fun _ _ => .id _, fun _ => .id _⟩
  rw [← Change.apply_ofSignal, ← Change.apply_ofSignal]
  exact perform_carries rfl (fun _ _ e _ => suits e) found m

theorem perform_signalled {i : Instruction} {turn : Turn} {m' : Machine} {k : Nat}
    (interrupt : FirstComes signals n) (le : k ≤ n) (found : p.at? pc = some i)
    (performed : perform p pc i (m.signal false) = (turn, m')) :
    perform p pc i (m.signal (signals k)) = (turn, m'.signal (k = n)) := by
  rw [interrupt.signal_eq le, perform_signal found, ← signal_false m, performed]

/-- Up to the instruction during which the interrupt comes, and behind it, the run is where it would
be if left alone. -/
theorem Running.signalled (interrupt : FirstComes signals n)
    (running : Running p (fun _ => false) start steps pc m) (le : steps.size ≤ n) :
    Running p signals start steps pc (m.signal (steps.size = n)) := by
  induction running with
  | start =>
    rw [← interrupt.signal_eq le]
    exact .start
  | turn _ found calm performed ih =>
    rw [Array.size_push] at le ⊢
    have earlier := ih (Nat.le_of_succ_le le)
    rw [decide_eq_false (Nat.ne_of_lt le), signal_false] at earlier
    exact earlier.turn found calm (perform_signalled interrupt le found performed)

/-- Before that instruction nothing tells the runs apart. -/
theorem Running.before_signal (interrupt : FirstComes signals n)
    (running : Running p (fun _ => false) start steps pc m) (less : steps.size < n) :
    Running p signals start steps pc m := by
  have arrived := running.signalled interrupt (Nat.le_of_lt less)
  rwa [decide_eq_false (Nat.ne_of_lt less), signal_false] at arrived

/-- What a run that is left alone comes to within `n` instructions is also what it comes to with the
interrupt, but for the flag. -/
theorem Stops.signalled (interrupt : FirstComes signals n) (calm : start.interrupted = false)
    (running : Running p (fun _ => false) start steps pc m)
    (stops : Stops p (fun _ => false) steps pc m r) (le : r.steps.size ≤ n) :
    ∃ fuel, start.run p signals fuel =
      some ⟨r.machine.signal (r.steps.size = n), r.failure?, r.steps⟩ := by
  refine run_ends_iff.mpr ?_
  cases stops with
  | off off => exact ⟨_, _, _, running.signalled interrupt le, .off off⟩
  | interrupted _ pending => cases (running.calm calm).symm.trans pending
  | halted found quiet performed =>
    rw [Array.size_push] at le ⊢
    exact ⟨_, _, _, running.before_signal interrupt le,
      .halted found quiet (perform_signalled interrupt le found performed)⟩
  | failed found quiet performed =>
    rw [Array.size_push] at le ⊢
    exact ⟨_, _, _, running.before_signal interrupt le,
      .failed found quiet (perform_signalled interrupt le found performed)⟩

theorem unsignalled (quiet : m.interrupted = false) :
    ({ m.signal true with interrupted := false } : Machine) = m := by
  obtain ⟨_, _, _, _, _, _, _, _⟩ := m
  cases quiet
  rfl

/-- A run that is left alone leaves no interrupt pending. -/
theorem Stops.calm (calm : start.interrupted = false)
    (running : Running p (fun _ => false) start steps pc m)
    (stops : Stops p (fun _ => false) steps pc m r) : r.machine.interrupted = false := by
  have quiet := running.calm calm
  cases stops with
  | off => exact quiet
  | interrupted => rfl
  | halted _ _ performed | failed _ _ performed =>
    have left := congrArg (fun turned => turned.2.interrupted) performed
    exact left.symm.trans (perform_keeps_interrupted.trans quiet)

/-- Left alone, a run begins `n` instructions and goes on, or ends with them or before. -/
theorem exists_running_or_ends (p : Program) (start : Machine) (calm : start.interrupted = false)
    (n : Nat) :
    (∃ steps pc m, Running p (fun _ => false) start steps pc m ∧ steps.size = n) ∨
      ∃ steps pc m r, Running p (fun _ => false) start steps pc m ∧
        Stops p (fun _ => false) steps pc m r ∧ r.steps.size ≤ n := by
  induction n with
  | zero => exact .inl ⟨_, _, _, .start, rfl⟩
  | succ n ih =>
    rcases ih with ⟨steps, pc, m, running, rfl⟩ | ⟨steps, pc, m, r, running, stops, le⟩
    · have quiet := running.calm calm
      cases found : p.at? pc with
      | none => exact .inr ⟨_, _, _, _, running, .off found, Nat.le_succ _⟩
      | some i =>
        have size : (steps.push ⟨pc, i⟩).size = steps.size + 1 := Array.size_push _
        cases performed : perform p pc i m with
        | mk turn m' =>
          cases turn with
          | goOn next => exact .inl ⟨_, _, _, running.turn found quiet performed, size⟩
          | halted => exact .inr ⟨_, _, _, _, running, .halted found quiet performed, size.le⟩
          | failed f => exact .inr ⟨_, _, _, _, running, .failed found quiet performed, size.le⟩
    · exact .inr ⟨steps, pc, m, r, running, stops, Nat.le_succ_of_le le⟩

/-- The run that is interrupted stops in front of the instruction, with the machine as it was left. -/
theorem Begins.stops {before : Array Step} {step : Step} (interrupt : FirstComes signals before.size)
    (calm : start.interrupted = false) (begins : Begins p start before step m) :
    ∃ fuel, start.run p signals fuel =
      some ⟨m, some (Fault.interrupted.report.atLine step.instruction.line), before⟩ := by
  obtain ⟨running, found⟩ := begins
  -- The interrupt has come behind the last of the steps, so it is what stops the run.
  have arrived := running.signalled interrupt (Nat.le_refl _)
  rw [decide_eq_true rfl] at arrived
  have stopped : Stops p signals before step.address (m.signal true) _ := .interrupted found rfl
  rw [unsignalled (running.calm calm)] at stopped
  exact run_ends_iff.mpr ⟨_, _, _, arrived, stopped⟩

/-- A pending interrupt stops a run before it begins an instruction. -/
theorem run_of_pending {i : Instruction} (found : p.at? 0 = some i) (quiet : m.interrupted = false)
    (signals : Nat → Bool) :
    ∃ fuel, (m.signal true).run p signals fuel =
      some ⟨m, some (Fault.interrupted.report.atLine i.line), #[]⟩ := by
  have pending : ((m.signal true).signal (signals 0)).interrupted = true := by
    cases signals 0 <;> rfl
  have stopped : Stops p signals #[] 0 ((m.signal true).signal (signals 0)) _ :=
    .interrupted found pending
  have cleared : ({ (m.signal true).signal (signals 0) with interrupted := false } : Machine) = m := by
    rw [← unsignalled quiet]
    cases signals 0 <;> rfl
  rw [cleared] at stopped
  exact run_ends_iff.mpr ⟨_, _, _, .start, stopped⟩

end Machine

open Machine

/-- Let the first interrupt of a run come during its `n`-th instruction. If the run, left alone, begins
one more, then it fails in front of that, with the machine it would be begun in and no interrupt
pending. Otherwise it ends, as it does when it is left alone, but for the interrupt: if that has come
it stays pending, and stops the next run before its first instruction. -/
theorem interrupted_run_is_front {p : Program} {start : Machine} {signals : Nat → Bool} {n : Nat}
    (calm : start.interrupted = false) (interrupt : FirstComes signals n) :
    (∀ before step m, Begins p start before step m → before.size = n →
      m.interrupted = false ∧ ∃ fuel, start.run p signals fuel =
        some ⟨m, some (Fault.interrupted.report.atLine step.instruction.line), before⟩) ∧
    ((¬∃ before step m, Begins p start before step m ∧ before.size = n) →
      ∃ fuel r, start.run p (fun _ => false) fuel = some r ∧ r.steps.size ≤ n) ∧
    ∀ fuel r, start.run p (fun _ => false) fuel = some r → r.steps.size ≤ n →
      (∃ fuel, start.run p signals fuel =
        some ⟨r.machine.signal (r.steps.size = n), r.failure?, r.steps⟩) ∧
      (r.steps.size = n → 0 < p.size → ∀ later, ∃ i fuel, p.at? 0 = some i ∧
        (r.machine.signal true).run p later fuel =
          some ⟨r.machine, some (Fault.interrupted.report.atLine i.line), #[]⟩) := by
  refine ⟨?_, fun last => ?_, fun fuel r ended le => ?_⟩
  · rintro before step m begins rfl
    exact ⟨begins.running.calm calm, begins.stops interrupt calm⟩
  · rcases exists_running_or_ends p start calm n with
      ⟨steps, pc, m, running, size⟩ | ⟨steps, pc, m, r, running, stops, le⟩
    · -- The run has begun `n` instructions, and there is none behind them.
      cases found : p.at? pc with
      | none =>
        obtain ⟨fuel, ended⟩ := run_ends_iff.mpr ⟨_, _, _, running, .off found⟩
        exact ⟨fuel, _, ended, size.le⟩
      | some i => exact absurd ⟨steps, ⟨pc, i⟩, m, ⟨running, found⟩, size⟩ last
    · obtain ⟨fuel, ended⟩ := run_ends_iff.mpr ⟨_, _, _, running, stops⟩
      exact ⟨fuel, r, ended, le⟩
  · obtain ⟨steps, pc, m, running, stops⟩ := run_ends_iff.mp ⟨fuel, ended⟩
    refine ⟨stops.signalled interrupt calm running le, fun _ nonempty later => ?_⟩
    have found : p.at? 0 = some p.instructions[0] := Array.getElem?_eq_getElem nonempty
    obtain ⟨fuel, stopped⟩ := run_of_pending found (stops.calm calm running) later
    exact ⟨_, fuel, found, stopped⟩

private def inPlaceThenEnd : Program where
  instructions := #[
    ⟨1, .branch (.comparison .equal (.literal (.integer 1)) (.literal (.integer 1))) "say"⟩,
    ⟨2, .stop⟩, ⟨3, .print [.literal (.string "x")]⟩]
  labels := [("say", 2)]
  data := []

private def inPlaceThenEndStart : Machine := .initial inPlaceThenEnd (.ofSeed 0) (.ofBytes [])

/-- An interrupt during an IF lets what is in its place be printed and stops the run before the END.
One during the END stops the next run. -/
theorem interrupted_run_is_front_of_if :
    (∃ before step m, Begins inPlaceThenEnd inPlaceThenEndStart before step m ∧ before.size = 1 ∧
      m.output = #["x"] ∧ ∃ fuel, inPlaceThenEndStart.run inPlaceThenEnd (· == 1) fuel =
        some ⟨m, some (Fault.interrupted.report.atLine 2), before⟩) ∧
    ∃ r fuel, inPlaceThenEndStart.run inPlaceThenEnd (fun _ => false) fuel = some r ∧
      r.steps.size = 2 ∧ ∀ later, ∃ fuel, (r.machine.signal true).run inPlaceThenEnd later fuel =
        some ⟨r.machine, some (Fault.interrupted.report.atLine 1), #[]⟩ := by
  have running : Running inPlaceThenEnd (fun _ => false) inPlaceThenEndStart #[] 0 _ := .start
  have after := running.turn rfl rfl rfl
  have first : FirstComes (· == 1) 1 := ⟨rfl, by decide⟩
  have second : FirstComes (· == 2) 2 := ⟨rfl, by decide⟩
  constructor
  · have begins : Begins inPlaceThenEnd inPlaceThenEndStart _ ⟨1, ⟨2, .stop⟩⟩ _ := ⟨after, rfl⟩
    obtain ⟨_, stopped⟩ := (interrupted_run_is_front rfl first).1 _ _ _ begins rfl
    exact ⟨_, _, _, begins, rfl, rfl, stopped⟩
  · have ended : inPlaceThenEndStart.run inPlaceThenEnd (fun _ => false) 2 = some _ := rfl
    obtain ⟨_, next⟩ := (interrupted_run_is_front rfl second).2.2 2 _ ended (Nat.le_refl 2)
    refine ⟨_, 2, ended, rfl, fun later => ?_⟩
    obtain ⟨i, fuel, first, stopped⟩ := next rfl (by decide) later
    cases first
    exact ⟨fuel, stopped⟩

end LabelBasic
