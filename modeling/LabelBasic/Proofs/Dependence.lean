import LabelBasic.Proofs.Moments

/-!
# What runs depend on

Main result: a run has nothing of its generator but the numbers it draws, and nothing of its input but
the answers it asks for. Runs whose sources give the same first answers go through the same moments up
to the first that asks for more, and come to the same if none does. In particular a program without
random numbers runs the same with every generator, and what has been printed when a word is asked for
depends neither on that word nor on any behind it.
-/
namespace LabelBasic

/-! ### Runs -/

namespace Machine

variable {p : Program} {signals : Nat → Bool} {b : Budget} {m m' : Machine} {pc : Nat}

/-- The moments of so many turns, from an address on and behind so many steps. -/
def momentsFrom (p : Program) (signals : Nat → Bool) : Nat → Nat → Nat → Machine → List Moment
  | 0, _, _, _ => []
  | turns + 1, pc, begun, m =>
    match p.at? pc with
    | none => []
    | some i =>
      if m.interrupted then []
      else
        let m := m.signal (signals (begun + 1))
        .begins ⟨pc, i⟩ m :: (i.command.moments p pc branchLimit m ++
          match perform p pc i m with
          | (.goOn next, m) => momentsFrom p signals turns next (begun + 1) m
          | _ => [])

/-- The moments of the first turns of a run. -/
def moments (p : Program) (signals : Nat → Bool) (turns : Nat) (m : Machine) : List Moment :=
  momentsFrom p signals turns 0 0 (m.signal (signals 0))

theorem Agree.signal (agree : m.Agree b m') (comes : Bool) :
    (m.signal comes).Agree b (m'.signal comes) := by
  obtain ⟨same, draws, words⟩ := agree
  cases comes with
  | false => exact ⟨same, draws, words⟩
  | true =>
    refine ⟨?_, draws, words⟩
    rw [Same, ← same]
    rfl

theorem Agree.calmed (agree : m.Agree b m') :
    Agree b { m with interrupted := false } { m' with interrupted := false } := by
  obtain ⟨same, draws, words⟩ := agree
  refine ⟨?_, draws, words⟩
  rw [Same, ← same]
  rfl

theorem tells_begins (step : Step) (m : Machine) (comes : Bool) :
    Tells [.begins step (m.signal comes)] m [step] (m.signal comes) := by
  cases comes <;> exact ⟨rfl, rfl, rfl⟩

theorem perform_tells (p : Program) (pc : Nat) (i : Instruction) (m : Machine) :
    Tells (i.command.moments p pc branchLimit m) m [] (perform p pc i m).2 := by
  rw [perform_machine]
  exact (Accords.execute p pc branchLimit i.command).tells m

theorem perform_agrees (p : Program) (pc : Nat) (i : Instruction) (agree : m.Agree b m')
    (covers : b.Covers (i.command.moments p pc branchLimit m)) :
    (perform p pc i m').1 = (perform p pc i m).1 ∧
      (perform p pc i m).2.Agree (b.left (i.command.moments p pc branchLimit m))
        (perform p pc i m').2 := by
  have coincide := (Accords.execute p pc branchLimit i.command).results agree covers
  simp only [perform]
  generalize execute p pc branchLimit i.command m = r at coincide
  generalize execute p pc branchLimit i.command m' = r' at coincide
  cases coincide with
  | ok flow agree => cases flow <;> exact ⟨rfl, agree⟩
  | error f agree => exact ⟨rfl, agree⟩

/-- The steps, the draws and the questions of a run are those of its moments. -/
theorem runFrom_tells {fuel : Nat} {steps : Array Step} {r : Run}
    (ended : runFrom p signals fuel pc steps m = some r) :
    ∃ more, r.steps.toList = steps.toList ++ more ∧
      Tells (momentsFrom p signals fuel pc steps.size m) m more r.machine := by
  induction fuel generalizing pc steps m with
  | zero => cases ended
  | succ fuel ih =>
    simp only [runFrom, Array.size_push] at ended
    simp only [momentsFrom]
    cases found : p.at? pc with
    | none =>
      rw [found] at ended
      cases ended
      exact ⟨[], (List.append_nil _).symm, .nil m⟩
    | some i =>
      rw [found] at ended
      cases pending : m.interrupted with
      | true =>
        simp only [pending, if_true] at ended ⊢
        cases ended
        exact ⟨[], (List.append_nil _).symm, rfl, rfl, rfl⟩
      | false =>
        simp only [pending, Bool.false_eq_true, if_false] at ended ⊢
        have begins := tells_begins ⟨pc, i⟩ m (signals (steps.size + 1))
        have inside := perform_tells p pc i (m.signal (signals (steps.size + 1)))
        generalize perform p pc i (m.signal (signals (steps.size + 1))) = turned at ended inside
        obtain ⟨turn, m'⟩ := turned
        have first := begins.append inside
        cases turn with
        | goOn next =>
          -- The steps are told from the one that this turn began.
          obtain ⟨more, steps_eq, rest⟩ := ih ended
          rw [Array.size_push] at rest
          refine ⟨⟨pc, i⟩ :: more, ?_, ?_⟩
          · rw [steps_eq, Array.toList_push, List.append_assoc]
            rfl
          · rw [← List.singleton_append, ← List.append_assoc]
            exact first.append rest
        | halted | failed =>
          cases ended
          refine ⟨[⟨pc, i⟩], Array.toList_push, ?_⟩
          rw [List.append_nil]
          exact first

end Machine

/-- The runs come to the same, in machines that agree. -/
structure Run.Alike (b : Budget) (r r' : Run) : Prop where
  machine : r.machine.Agree b r'.machine
  failure : r'.failure? = r.failure?
  steps : r'.steps = r.steps

namespace Machine

variable {p : Program} {signals : Nat → Bool} {b : Budget} {m m' : Machine} {pc : Nat}

/-- Runs of machines that agree go alongside, and come to the same if no moment asks for more. -/
theorem runFrom_alongside (agree : m.Agree b m') (fuel pc : Nat) (steps : Array Step) :
    Alongside b (momentsFrom p signals fuel pc steps.size m)
        (momentsFrom p signals fuel pc steps.size m') ∧
      (b.Covers (momentsFrom p signals fuel pc steps.size m) →
        Option.Rel (Run.Alike (b.left (momentsFrom p signals fuel pc steps.size m)))
          (runFrom p signals fuel pc steps m) (runFrom p signals fuel pc steps m')) := by
  induction fuel generalizing b pc steps m m' with
  | zero => exact ⟨.nil b, fun _ => .none⟩
  | succ fuel ih =>
    simp only [momentsFrom, runFrom, Array.size_push]
    cases found : p.at? pc with
    | none => exact ⟨.nil b, fun _ => .some ⟨agree, rfl, rfl⟩⟩
    | some i =>
      have flag : m'.interrupted = m.interrupted := by rw [← agree.same]; rfl
      rw [flag]
      cases pending : m.interrupted with
      | true =>
        simp only [if_true]
        exact ⟨.nil b, fun _ => .some ⟨agree.calmed, rfl, rfl⟩⟩
      | false =>
        simp only [Bool.false_eq_true, if_false]
        have agree := agree.signal (signals (steps.size + 1))
        generalize m.signal (signals (steps.size + 1)) = t at agree
        generalize m'.signal (signals (steps.size + 1)) = t' at agree
        have along := (Accords.execute p pc branchLimit i.command).along agree
        have begins : Moment.Same (.begins ⟨pc, i⟩ t) (.begins ⟨pc, i⟩ t') := .begins _ agree.same
        have performed := perform_agrees p pc i agree
        generalize perform p pc i t = turned at performed
        generalize perform p pc i t' = turned' at performed
        generalize i.command.moments p pc branchLimit t = qs at along performed
        by_cases covers : b.Covers qs
        · obtain ⟨same, agree⟩ := performed covers
          obtain ⟨turn, t⟩ := turned
          obtain ⟨turn', t'⟩ := turned'
          obtain rfl : turn' = turn := same
          cases turn' with
          | goOn next =>
            -- The turns that follow have what this one left of the budget.
            obtain ⟨rest, results⟩ := ih agree next (steps.push ⟨pc, i⟩)
            rw [Array.size_push] at rest results
            refine ⟨.cons begins (along.append fun _ => rest), fun all => ?_⟩
            rw [Budget.left_begins, Budget.left_append]
            exact results (Budget.covers_append.mp (Budget.covers_begins.mp all)).2
          | halted | failed =>
            refine ⟨.cons begins (along.append fun _ => .nil _), fun _ => ?_⟩
            rw [Budget.left_begins, List.append_nil]
            exact .some ⟨agree, rfl, rfl⟩
        · -- The instruction itself asks for more.
          refine ⟨.cons begins (along.append fun covered => absurd covered covers), fun all => ?_⟩
          exact absurd (Budget.covers_append.mp (Budget.covers_begins.mp all)).1 covers

theorem run_alongside (p : Program) (signals : Nat → Bool) (agree : m.Agree b m') (turns : Nat) :
    Alongside b (m.moments p signals turns) (m'.moments p signals turns) ∧
      (b.Covers (m.moments p signals turns) →
        Option.Rel (Run.Alike (b.left (m.moments p signals turns)))
          (m.run p signals turns) (m'.run p signals turns)) :=
  runFrom_alongside (agree.signal (signals 0)) turns 0 #[]

theorem run_tells {turns : Nat} {r : Run} (ended : m.run p signals turns = some r) :
    Tells (m.moments p signals turns) m r.steps.toList r.machine := by
  obtain ⟨more, steps, tells⟩ := runFrom_tells ended
  have generator : (m.signal (signals 0)).generator = m.generator := by cases signals 0 <;> rfl
  have draws := tells.draws
  rw [generator] at draws
  have words := tells.words
  rw [reader_signal] at words
  rw [steps]
  exact ⟨tells.steps, draws, words⟩

end Machine

/-! ### Programs without random numbers -/

/-- No expression of the program calls the function that draws. -/
def Program.WithoutRandom (p : Program) : Prop :=
  ∀ i ∈ p.instructions, ∀ e ∈ i.command.expressions, Builtin.random ∉ e.builtins

theorem carries_composes (change : Generator → Generator) : Composes (Carries change) :=
  ⟨.ofExcept, .bind⟩

theorem Builtin.call_carries {f : Builtin} (other : f ≠ .random) (change : Generator → Generator)
    (xs : List Value) : Carries change (f.call xs) := by
  cases f with
  | random => exact absurd rfl other
  | val | valFloat | left | right | mid | num => exact .ofExcept _

theorem Change.suits_of_calm {c : Change} {e : Expr} (calm : Builtin.random ∉ e.builtins) :
    c.Suits e := by
  have called : ∀ f ∈ e.builtins, ∀ xs, Carries c.generator (f.call xs) := fun f member =>
    f.call_carries (fun random => calm (random ▸ member)) c.generator
  exact ⟨fun store => (carries_composes _).evaluate store called,
    fun store => (carries_composes _).evaluateCondition store called⟩

namespace Machine

variable {p : Program}

theorem apply_signal (g : Generator) (m : Machine) (comes : Bool) :
    ((Change.ofGenerator g).apply m).signal comes =
      (Change.ofGenerator g).apply (m.signal comes) := by
  cases comes <;> rfl

/-- The generator of a program that draws nothing may as well be another one. -/
theorem runFrom_carries (calm : p.WithoutRandom) (signals : Nat → Bool) (g : Generator)
    (fuel pc : Nat) (steps : Array Step) (m : Machine) :
    runFrom p signals fuel pc steps ((Change.ofGenerator g).apply m) =
      (runFrom p signals fuel pc steps m).map fun r =>
        { r with machine := (Change.ofGenerator g).apply r.machine } := by
  induction fuel generalizing pc steps m with
  | zero => rfl
  | succ fuel ih =>
    simp only [runFrom, Array.size_push]
    cases found : p.at? pc with
    | none => rfl
    | some i =>
      have flag : ((Change.ofGenerator g).apply m).interrupted = m.interrupted := rfl
      rw [flag]
      cases pending : m.interrupted with
      | true => rfl
      | false =>
        have carried := perform_carries (c := .ofGenerator g) rfl
          (fun i member e there => Change.suits_of_calm (calm i member e there)) found
          (m.signal (signals (steps.size + 1)))
        simp only [Bool.false_eq_true, if_false, apply_signal, carried]
        obtain ⟨turn, m'⟩ := perform p pc i (m.signal (signals (steps.size + 1)))
        cases turn with
        | goOn next => exact ih next (steps.push ⟨pc, i⟩) m'
        | halted | failed => rfl

end Machine

open Machine

/-- Let the generators of two machines agree on their next `d` numbers and the readers on their next
`k` answers. A moment of the one run that is behind no more than these has its twin in the other, and
what was before has too. A run whose moments are all of that kind has its twin, and so have the runs
after it as far as the answers go. A program without random numbers runs the same with every generator,
and what has been printed when the next word is asked for does not depend on it. The moments are indeed
those of the run: all that is begun, drawn and asked for. -/
theorem runs_depend_on_answers {p : Program} {signals : Nat → Bool} {start start' : Machine}
    {d k : Nat} (agree : start.Agree ⟨d, k⟩ start') :
    (∀ turns before q rest, start.moments p signals turns = before ++ q :: rest →
      before.countP Moment.isDraw ≤ d → before.countP Moment.isAsk ≤ k →
      ∃ before' q' rest', start'.moments p signals turns = before' ++ q' :: rest' ∧
        List.Forall₂ Moment.Same before before' ∧ q.Same q') ∧
    (∀ turns r drawn asked, start.run p signals turns = some r →
      (start.moments p signals turns).countP Moment.isDraw = drawn → drawn ≤ d →
      (start.moments p signals turns).countP Moment.isAsk = asked → asked ≤ k →
      ∃ r', start'.run p signals turns = some r' ∧ r'.steps = r.steps ∧ r'.failure? = r.failure? ∧
        r.machine.Agree ⟨d - drawn, k - asked⟩ r'.machine) ∧
    (p.WithoutRandom → ∀ turns g, ({ start with generator := g } : Machine).run p signals turns =
      (start.run p signals turns).map fun r =>
        { r with machine := { r.machine with generator := g } }) ∧
    (start'.generator = start.generator → ∀ turns before m rest,
      start.moments p signals turns = before ++ .asks m :: rest →
      before.countP Moment.isAsk = k →
      ∃ before' m' rest', start'.moments p signals turns = before' ++ .asks m' :: rest' ∧
        before'.countP Moment.isAsk = k ∧ m'.output = m.output) ∧
    ∀ turns r, start.run p signals turns = some r →
      Tells (start.moments p signals turns) start r.steps.toList r.machine := by
  refine ⟨?_, ?_, ?_, ?_, fun turns r => run_tells⟩
  · intro turns before q rest eq draws asks
    have along := (run_alongside p signals agree turns).1
    rw [eq] at along
    exact along.twin ⟨draws, asks⟩
  · rintro turns r drawn asked ended rfl draws rfl asks
    have ends := (run_alongside p signals agree turns).2 ⟨draws, asks⟩
    rw [ended] at ends
    generalize start'.run p signals turns = ended' at ends
    cases ends with
    | some alike => exact ⟨_, rfl, alike.steps, alike.failure, alike.machine⟩
  · intro calm turns g
    have carried := runFrom_carries calm signals g turns 0 #[] (start.signal (signals 0))
    rw [← apply_signal] at carried
    exact carried
  · rintro generator turns before m rest eq rfl
    -- The numbers are the same, however many are drawn before the word is asked for.
    have agree : start.Agree ⟨before.countP Moment.isDraw, before.countP Moment.isAsk⟩ start' :=
      ⟨agree.same, by rw [generator], agree.words⟩
    have along := (run_alongside p signals agree turns).1
    rw [eq] at along
    obtain ⟨before', q', rest', eq', twins, twin⟩ := along.twin ⟨Nat.le_refl _, Nat.le_refl _⟩
    cases twin with
    | @asks _ m' same =>
      refine ⟨before', m', rest', eq', Moment.countP_isAsk_of_twins twins, ?_⟩
      rw [← same]
      rfl

private def drawsAndAsks : Program where
  instructions := #[⟨1, .print [.call .random []]⟩, ⟨2, .input [.variable ⟨"a"⟩]⟩]
  labels := []
  data := []

private def drawsAndAsksStart (seed : UInt64) (line : List UInt8) : Machine :=
  .initial drawsAndAsks (.ofSeed seed) (.ofBytes line)

/-- These seeds have their first number in common, and the lines `1 2` and `1 3` their first word. -/
theorem runs_depend_on_answers_of_seeds :
    (drawsAndAsksStart 5093 [49, 32, 50]).Agree ⟨1, 1⟩ (drawsAndAsksStart 115573 [49, 32, 51]) ∧
    ∃ r r', (drawsAndAsksStart 5093 [49, 32, 50]).run drawsAndAsks (fun _ => false) 3 = some r ∧
      (drawsAndAsksStart 115573 [49, 32, 51]).run drawsAndAsks (fun _ => false) 3 = some r' ∧
      r'.machine.output = r.machine.output ∧ r'.machine.store = r.machine.store := by
  have agree :
      (drawsAndAsksStart 5093 [49, 32, 50]).Agree ⟨1, 1⟩ (drawsAndAsksStart 115573 [49, 32, 51]) := by
    have first : (Reader.ofBytes [49, 32, 50]).Holds ["1", "2"] := by
      have words : (words "1 2".toList).map String.ofList = ["1", "2"] := by decide +kernel
      rw [← words]
      exact Reader.holds_ofBytes (by decide +kernel)
    have second : (Reader.ofBytes [49, 32, 51]).Holds ["1", "3"] := by
      have words : (words "1 3".toList).map String.ofList = ["1", "3"] := by decide +kernel
      rw [← words]
      exact Reader.holds_ofBytes (by decide +kernel)
    refine ⟨rfl, by decide +kernel, ?_⟩
    exact (Reader.answers_of_holds first 1).trans (Reader.answers_of_holds second 1).symm
  refine ⟨agree, ?_⟩
  have ended : ((drawsAndAsksStart 5093 [49, 32, 50]).run drawsAndAsks (fun _ => false) 3).isSome := by
    decide +kernel
  obtain ⟨r, ended⟩ := Option.isSome_iff_exists.mp ended
  have drawn : ((drawsAndAsksStart 5093 [49, 32, 50]).moments drawsAndAsks (fun _ => false) 3).countP
      Moment.isDraw ≤ 1 := by
    decide +kernel
  have asked : ((drawsAndAsksStart 5093 [49, 32, 50]).moments drawsAndAsks (fun _ => false) 3).countP
      Moment.isAsk ≤ 1 := by
    decide +kernel
  obtain ⟨r', ended', _, _, alike⟩ :=
    (runs_depend_on_answers agree).2.1 3 r _ _ ended rfl drawn rfl asked
  refine ⟨r, r', ended, ended', ?_, ?_⟩
  · rw [← alike.same]
    rfl
  · rw [← alike.same]
    rfl

end LabelBasic
