import LabelBasic.Proofs.Mirroring
import LabelBasic.Proofs.ReadInput
import LabelBasic.Proofs.Runs

/-!
# DATA may stand anywhere

Main result: a program whose DATA without labels is moved elsewhere runs as before, as long as the
first DATA is the same. Both programs run like the one without that DATA, which takes the same turns
but those that pass over the DATA.
-/
namespace LabelBasic

/-! ### What is seen of a run -/

/-- What has been printed, how a run has ended, and what is left to a further run. -/
structure Visible where
  output : Array String
  failure? : Option Report
  store : Store
  data : List Value
  generator : Generator
  reader : Reader

/-- How a turn ends a run, if it does. -/
def Turn.end? : Turn → Option (Option Fault)
  | .goOn _ => none
  | .halted => some none
  | .failed f => some (some f)

theorem Turn.Leads.end?_eq {n : Nat} {turn turn' : Turn} (leads : Leads n turn turn') :
    turn'.end? = turn.end? := by
  cases leads <;> rfl

namespace Machine

def visible (m : Machine) (failure? : Option Report) : Visible :=
  ⟨m.output, failure?, m.store, m.data, m.generator, m.reader⟩

/-- A run that nothing interrupts ends, and this is seen of it. -/
def EndsWith (p : Program) (m : Machine) (seen : Visible) : Prop :=
  ∃ fuel r, m.run p (fun _ => false) fuel = some r ∧ r.machine.visible r.failure? = seen

/-- A run that nothing interrupts has printed this before one of its turns. -/
def Prints (p : Program) (m : Machine) (output : Array String) : Prop :=
  ∃ steps pc m', Running p (fun _ => false) m steps pc m' ∧ m'.output = output

variable {p p' : Program} {n pc pc' : Nat} {start start' m m' : Machine} {steps steps' : Array Step}

theorem Corresponds.visible_eq (corresponds : Corresponds n m m') (failure? : Option Report) :
    m'.visible failure? = m.visible failure? := by
  rw [← corresponds.same]
  rfl

/-! ### Where runs stop -/

theorem Stops.exists_of_end? {i : Instruction} {fault? : Option Fault}
    (found : p.at? pc = some i) (calm : m.interrupted = false)
    (ends : (perform p pc i m).1.end? = some fault?) (steps : Array Step) :
    ∃ r, Stops p (fun _ => false) steps pc m r ∧ r.machine = (perform p pc i m).2 ∧
      r.failure? = fault?.map fun f => f.report.atLine i.line := by
  generalize performed : perform p pc i m = ended at ends
  obtain ⟨turn, m₁⟩ := ended
  cases turn with
  | goOn => cases ends
  | halted =>
    cases ends
    exact ⟨_, .halted found calm performed, rfl, rfl⟩
  | failed f =>
    cases ends
    exact ⟨_, .failed found calm performed, rfl, rfl⟩

/-- Where one machine stops, another one stops that has the same before it and makes the same of
it. -/
theorem Stops.transfer {r : Run} (at_eq : p'.at? pc' = p.at? pc)
    (interrupted : m'.interrupted = m.interrupted)
    (seen : ∀ failure?, m'.visible failure? = m.visible failure?)
    (ends : ∀ i, (perform p' pc' i m').1.end? = (perform p pc i m).1.end?)
    (leaves : ∀ i failure?, (perform p' pc' i m').2.visible failure? =
      (perform p pc i m).2.visible failure?)
    (stops : Stops p (fun _ => false) steps pc m r) (steps' : Array Step) :
    ∃ r', Stops p' (fun _ => false) steps' pc' m' r' ∧
      r'.machine.visible r'.failure? = r.machine.visible r.failure? := by
  cases stops with
  | off off => exact ⟨_, .off (at_eq.trans off), seen none⟩
  | interrupted found pending =>
    exact ⟨_, .interrupted (at_eq.trans found) (interrupted.trans pending), seen _⟩
  | halted found calm performed | failed found calm performed =>
    rw [signal_false] at performed
    have ended := congrArg (fun turned => turned.1.end?) performed
    obtain ⟨r', stops', machine, failure⟩ :=
      Stops.exists_of_end? (at_eq.trans found) (interrupted.trans calm) ((ends _).trans ended) steps'
    refine ⟨r', stops', ?_⟩
    rw [machine, failure, leaves, performed]
    rfl

/-- No run stops at a DATA. -/
theorem Stops.not_at_data {r : Run} {line : Nat} {items : List Expr}
    (stops : Stops p (fun _ => false) steps pc m r) (calm : m.interrupted = false) :
    p.at? pc ≠ some ⟨line, .data items⟩ := by
  intro here
  cases stops with
  | off off => cases here.symm.trans off
  | interrupted _ pending => cases calm.symm.trans pending
  | halted found _ performed | failed found _ performed =>
    cases here.symm.trans found
    cases performed

theorem Running.calm (start_calm : start.interrupted = false)
    (running : Running p (fun _ => false) start steps pc m) : m.interrupted = false := by
  induction running with
  | start => exact start_calm
  | turn running found calm performed ih =>
    rename_i pc _ m m' i
    have kept : (perform p pc i (m.signal false)).2.interrupted = _ := perform_keeps_interrupted
    rw [performed] at kept
    exact kept.trans calm

section

variable (inserted : Program.Inserted p p' n)

include inserted

/-! ### Turns of both programs -/

/-- The DATA is passed over. -/
theorem Running.aligned (leads : Leads n pc pc') (calm : m'.interrupted = false)
    (running : Running p' (fun _ => false) start' steps' pc' m') :
    ∃ steps', Running p' (fun _ => false) start' steps' (shifted n pc) m' := by
  cases leads with
  | shifted => exact ⟨_, running⟩
  | before =>
    obtain ⟨line, items, here⟩ := inserted.here
    rw [shifted_of_le (Nat.le_refl n)]
    exact ⟨_, running.turn here calm rfl⟩

/-- The longer program takes the turns of the shorter one. -/
theorem Running.mirrored (corresponds : Corresponds n start start')
    (calm : start.interrupted = false) (running : Running p (fun _ => false) start steps pc m) :
    ∃ steps' m', Running p' (fun _ => false) start' steps' (shifted n pc) m' ∧
      Corresponds n m m' := by
  have calm' := corresponds.interrupted.trans calm
  -- The DATA is passed over as soon as the longer program comes to it.
  induction running with
  | start =>
    obtain ⟨steps', aligned⟩ := Running.aligned inserted (.zero n) calm' .start
    exact ⟨steps', _, aligned, corresponds⟩
  | turn running found now performed ih =>
    rename_i i
    obtain ⟨steps', m', running', corresponds'⟩ := ih
    obtain ⟨turns, after⟩ := perform_mirrors inserted corresponds' _ i
    rw [signal_false] at performed
    rw [performed] at turns after
    generalize performed' : perform p' _ i m' = ended at turns after
    obtain ⟨turn', m₁'⟩ := ended
    cases turns with
    | goOn leads =>
      have next := running'.turn ((inserted.at_eq _).trans found)
        (corresponds'.interrupted.trans now) performed'
      obtain ⟨steps'', aligned⟩ := next.aligned inserted leads (next.calm calm')
      exact ⟨steps'', m₁', aligned, after⟩

/-- The shorter program takes the turns of the longer one but those that pass over the DATA. -/
theorem Running.mirroring (corresponds : Corresponds n start start')
    (running : Running p' (fun _ => false) start' steps' pc' m') :
    ∃ steps pc m, Running p (fun _ => false) start steps pc m ∧ Leads n pc pc' ∧
      Corresponds n m m' := by
  induction running with
  | start => exact ⟨_, 0, _, .start, .zero n, corresponds⟩
  | turn running' found now performed' ih =>
    rename_i i
    obtain ⟨steps, pc, m, running, leads, corresponds'⟩ := ih
    rw [signal_false] at performed'
    cases leads with
    | before =>
      -- The shorter program waits while the DATA is passed over.
      obtain ⟨line, items, here⟩ := inserted.here
      cases here.symm.trans found
      cases performed'
      have address := Leads.shifted (n := n) n
      rw [shifted_of_le (Nat.le_refl n)] at address
      exact ⟨steps, n, m, running, address, corresponds'⟩
    | shifted =>
      obtain ⟨turns, after⟩ := perform_mirrors inserted corresponds' pc i
      rw [performed'] at turns after
      generalize performed : perform p pc i m = ended at turns after
      obtain ⟨turn, m₁⟩ := ended
      cases turns with
      | goOn leads =>
        have next := running.turn ((inserted.at_eq pc).symm.trans found)
          (corresponds'.interrupted.symm.trans now) performed
        exact ⟨_, _, m₁, next, leads, after⟩

/-- Both programs print the same. -/
theorem prints_iff (corresponds : Corresponds n start start') (calm : start.interrupted = false)
    (output : Array String) : Prints p start output ↔ Prints p' start' output := by
  have same {m m' : Machine} (corresponds : Corresponds n m m') : m'.output = m.output :=
    congrArg Visible.output (corresponds.visible_eq none)
  constructor
  · rintro ⟨steps, pc, m, running, rfl⟩
    obtain ⟨steps', m', running', corresponds'⟩ := running.mirrored inserted corresponds calm
    exact ⟨steps', _, m', running', same corresponds'⟩
  · rintro ⟨steps', pc', m', running', rfl⟩
    obtain ⟨steps, pc, m, running, _, corresponds'⟩ := running'.mirroring inserted corresponds
    exact ⟨steps, pc, m, running, (same corresponds').symm⟩

/-- Runs of both programs end alike, or neither ends. -/
theorem endsWith_iff (corresponds : Corresponds n start start') (calm : start.interrupted = false)
    (seen : Visible) : EndsWith p start seen ↔ EndsWith p' start' seen := by
  constructor
  · rintro ⟨fuel, r, ended, rfl⟩
    obtain ⟨steps, pc, m, running, stops⟩ := run_ends_iff.mp ⟨fuel, ended⟩
    obtain ⟨steps', m', running', corresponds'⟩ := running.mirrored inserted corresponds calm
    have turns (i : Instruction) := perform_mirrors inserted corresponds' pc i
    obtain ⟨r', stops', seen⟩ := stops.transfer (inserted.at_eq pc) corresponds'.interrupted
      corresponds'.visible_eq (fun i => (turns i).1.end?_eq) (fun i => (turns i).2.visible_eq) steps'
    obtain ⟨fuel', ended'⟩ := run_ends_iff.mpr ⟨steps', _, m', running', stops'⟩
    exact ⟨fuel', r', ended', seen⟩
  · rintro ⟨fuel', r', ended', rfl⟩
    obtain ⟨steps', pc', m', running', stops'⟩ := run_ends_iff.mp ⟨fuel', ended'⟩
    obtain ⟨steps, pc, m, running, leads, corresponds'⟩ := running'.mirroring inserted corresponds
    cases leads with
    | before =>
      obtain ⟨line, items, here⟩ := inserted.here
      have calm' := running'.calm (corresponds.interrupted.trans calm)
      exact absurd here (stops'.not_at_data calm')
    | shifted =>
      have turns (i : Instruction) := perform_mirrors inserted corresponds' pc i
      obtain ⟨r, stops, seen⟩ := stops'.transfer (inserted.at_eq pc).symm
        corresponds'.interrupted.symm (fun failure? => (corresponds'.visible_eq failure?).symm)
        (fun i => (turns i).1.end?_eq.symm) (fun i failure? => ((turns i).2.visible_eq failure?).symm)
        steps
      obtain ⟨fuel, ended⟩ := run_ends_iff.mpr ⟨steps, pc, m, running, stops⟩
      exact ⟨fuel, r, ended, seen⟩

end

end Machine

/-! ### Programs -/

def Statement.isData (s : Statement) : Bool := s.instruction.command.data?.isSome

theorem findSome?_data (ss : List Statement) :
    (ss.findSome? fun s => s.instruction.command.data?) =
      (ss.find? Statement.isData).bind fun s => s.instruction.command.data? := by
  induction ss with
  | nil => rfl
  | cons s ss ih =>
    rw [List.findSome?_cons, List.find?_cons, Statement.isData]
    cases values : s.instruction.command.data? with
    | none => exact ih
    | some xs => exact values.symm

theorem Program.data_of_first {ss ss' : List Statement}
    (first : ss.find? Statement.isData = ss'.find? Statement.isData) :
    (ofStatements ss).data = (ofStatements ss').data := by
  simp only [ofStatements, findSome?_data, first]

/-- A fresh machine has kept no address. -/
theorem Machine.corresponds_initial (n : Nat) (p : Program) (generator : Generator)
    (reader : Reader) :
    Corresponds n (initial p generator reader) (initial p generator reader) := by
  constructor
  · exact under_self _
  · rfl
  · exact .nil
  · rfl

/-- The run does not tell where a DATA without labels stands that is moved, when the first DATA stays
the same. Nor does it tell what is printed on the way, also when the run does not end. -/
theorem data_may_stand_anywhere {above below above' below' : List Statement} {d : Statement}
    {items : List Expr} (isData : d.instruction.command = .data items) (unlabelled : d.labels = [])
    (others : above ++ below = above' ++ below')
    (first : (above ++ d :: below).find? Statement.isData =
      (above' ++ d :: below').find? Statement.isData)
    (generator : Generator) (reader : Reader) :
    (∀ seen, (Machine.initial (.ofStatements (above ++ d :: below)) generator reader).EndsWith
        (.ofStatements (above ++ d :: below)) seen ↔
      (Machine.initial (.ofStatements (above' ++ d :: below')) generator reader).EndsWith
        (.ofStatements (above' ++ d :: below')) seen) ∧
    ∀ output, (Machine.initial (.ofStatements (above ++ d :: below)) generator reader).Prints
        (.ofStatements (above ++ d :: below)) output ↔
      (Machine.initial (.ofStatements (above' ++ d :: below')) generator reader).Prints
        (.ofStatements (above' ++ d :: below')) output := by
  have inserted := Program.inserted_ofStatements above below unlabelled isData
  have inserted' := Program.inserted_ofStatements above' below' unlabelled isData
  rw [← others] at inserted'
  have fresh : Machine.initial (.ofStatements (above' ++ d :: below')) generator reader =
      Machine.initial (.ofStatements (above ++ d :: below)) generator reader := by
    simp only [Machine.initial, Program.data_of_first first]
  rw [fresh]
  have corresponds (n : Nat) := Machine.corresponds_initial n
    (.ofStatements (above ++ d :: below)) generator reader
  constructor
  · intro seen
    have shorter := Machine.endsWith_iff inserted (corresponds above.length) rfl seen
    have shorter' := Machine.endsWith_iff inserted' (corresponds above'.length) rfl seen
    exact shorter.symm.trans shorter'
  · intro output
    have shorter := Machine.prints_iff inserted (corresponds above.length) rfl output
    have shorter' := Machine.prints_iff inserted' (corresponds above'.length) rfl output
    exact shorter.symm.trans shorter'

private def takes : List Statement := [⟨[], ⟨1, .gosub "take"⟩⟩]

private def seven : Statement := ⟨[], ⟨2, .data [.literal (.integer 7)]⟩⟩

private def counts : List Statement :=
  [⟨[], ⟨3, .loop ⟨"i"⟩ (.literal (.integer 1)) (.literal (.integer 3)) (.literal (.integer 1))⟩⟩,
    ⟨[], ⟨4, .print [.variable ⟨"a"⟩]⟩⟩]

private def goesOnAndReads : List Statement :=
  [⟨[], ⟨5, .next none⟩⟩, ⟨[], ⟨6, .stop⟩⟩, ⟨[⟨"take", 7⟩], ⟨7, .read [⟨"a"⟩]⟩⟩, ⟨[], ⟨8, .ret⟩⟩]

/-- A DATA where a call returns to is moved to the end of a loop. -/
theorem data_may_stand_anywhere_in_a_loop :
    ∃ seen : Visible, seen.output = #["7\n", "7\n"] ∧ seen.failure? = none ∧ seen.data = [] ∧
      (Machine.initial (.ofStatements (takes ++ seven :: (counts ++ goesOnAndReads))) (.ofSeed 0)
        (.ofBytes [])).EndsWith
          (.ofStatements (takes ++ seven :: (counts ++ goesOnAndReads))) seen ∧
      (Machine.initial (.ofStatements ((takes ++ counts) ++ seven :: goesOnAndReads)) (.ofSeed 0)
        (.ofBytes [])).EndsWith
          (.ofStatements ((takes ++ counts) ++ seven :: goesOnAndReads)) seen := by
  have others : takes ++ (counts ++ goesOnAndReads) = (takes ++ counts) ++ goesOnAndReads := rfl
  have same := (data_may_stand_anywhere (d := seven) rfl rfl others rfl (.ofSeed 0) (.ofBytes [])).1
  let p := Program.ofStatements (takes ++ seven :: (counts ++ goesOnAndReads))
  let start := Machine.initial p (.ofSeed 0) (.ofBytes [])
  have ends : (start.run p (fun _ => false) 20).map
      (fun r => (r.machine.output, r.failure?.isNone, r.machine.data)) =
        some (#["7\n", "7\n"], true, []) := by
    decide +kernel
  obtain ⟨r, ended, seen⟩ := Option.map_eq_some_iff.mp ends
  simp only [Prod.mk.injEq, Option.isNone_iff_eq_none] at seen
  have here : start.EndsWith p (r.machine.visible r.failure?) := ⟨20, r, ended, rfl⟩
  exact ⟨_, seen.1, seen.2.1, seen.2.2, here, (same _).mp here⟩

end LabelBasic
