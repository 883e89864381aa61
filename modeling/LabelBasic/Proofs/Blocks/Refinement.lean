import LabelBasic.Proofs.Blocks.Steps

/-!
# Flat programs run as their blocks

A run of the instructions of a block ends just when the block does, and in the same way. Each
direction is an induction on the block; the rounds of a loop are an induction on the rounds in one
direction and on the fuel in the other.
-/
namespace LabelBasic

/-! ### From blocks to runs -/

/-- From an address the run comes to the ending of a block: through it to its end, with the loops
that were open before it, or to its own end, with whatever loops are open there. -/
def Reaches (p : Program) (pc : Nat) (m : Machine) (loops : Stack Frame) (stop : Nat) :
    Ending → Prop
  | .through m' => m'.interrupted = false ∧
    ∃ k, ∀ fuel, Machine.finish p (fuel + k) pc m = Machine.finish p fuel stop (m'.withLoops loops)
  | .ended m' => ∃ k open_, ∀ fuel, Machine.finish p (fuel + k) pc m = some (m'.withLoops open_, none)
  | .failed report m' =>
    ∃ k open_, ∀ fuel, Machine.finish p (fuel + k) pc m = some (m'.withLoops open_, some report)

namespace Reaches

variable {p : Program} {pc mid stop : Nat} {m m' : Machine} {loops inner : Stack Frame} {e : Ending}

theorem trans {k : Nat}
    (first : ∀ fuel, Machine.finish p (fuel + k) pc m = Machine.finish p fuel mid m')
    (second : Reaches p mid m' loops stop e) : Reaches p pc m loops stop e := by
  cases e with
  | through m'' =>
    obtain ⟨undisturbed, n, second⟩ := second
    refine ⟨undisturbed, n + k, fun fuel => ?_⟩
    rw [← Nat.add_assoc, first, second]
  | ended m'' =>
    obtain ⟨n, open_, second⟩ := second
    refine ⟨n + k, open_, fun fuel => ?_⟩
    rw [← Nat.add_assoc, first, second]
  | failed report m'' =>
    obtain ⟨n, open_, second⟩ := second
    refine ⟨n + k, open_, fun fuel => ?_⟩
    rw [← Nat.add_assoc, first, second]

/-- Where a block is left early does not matter. -/
theorem of_leaves (leaves : e.Leaves) (reaches : Reaches p pc m inner mid e) :
    Reaches p pc m loops stop e := by
  cases e with
  | through m' => exact leaves.elim
  | ended m' => exact reaches
  | failed report m' => exact reaches

end Reaches

namespace Block

variable {p : Program}

theorem reaches_of_rounds {h : Header} {body rest : Block} {line pc : Nat} {named again : Bool}
    {loops : Stack Frame} (at_ : (loop h body line named rest).At p pc loops)
    (inside : ∀ m e, m.interrupted = false → body.Means m e → Reaches p (pc + 1)
      (m.withLoops (loops.cons ⟨h.v, pc⟩)) (loops.cons ⟨h.v, pc⟩) (pc + 1 + body.flatten.length) e)
    {m : Machine} {e : Ending} (undisturbed : m.interrupted = false)
    (rounds : Rounds h body.Means again m e) :
    Reaches p pc (m.withLoops (h.frames pc loops again)) loops
      (pc + 1 + body.flatten.length + 1) e := by
  induction rounds with
  | fails failed =>
    exact ⟨1, _, fun fuel =>
      Machine.finish_failed at_.header undisturbed (at_.stands.perform_error failed)⟩
  | finished tested =>
    refine ⟨((h.test_oblivious _).interrupted_eq tested).trans undisturbed, 1, fun fuel => ?_⟩
    exact Machine.finish_goOn at_.header undisturbed (at_.stands.perform_over tested)
  -- The body is left early, and the loop with it.
  | left tested body leaves =>
    have undisturbed' := ((h.test_oblivious _).interrupted_eq tested).trans undisturbed
    refine .trans (k := 1) (fun fuel => ?_) ((inside _ _ undisturbed' body).of_leaves leaves)
    exact Machine.finish_goOn at_.header undisturbed (at_.stands.perform_inside tested)
  | round tested body more ih =>
    have undisturbed' := ((h.test_oblivious _).interrupted_eq tested).trans undisturbed
    -- A round: FOR into the body, the body to its NEXT, NEXT back to FOR, and the further rounds.
    obtain ⟨undisturbed'', k, through⟩ := inside _ _ undisturbed' body
    refine .trans (k := 1) (fun fuel => Machine.finish_goOn at_.header undisturbed
      (at_.stands.perform_inside tested)) ?_
    refine .trans through (.trans (k := 1) (fun fuel => ?_) (ih undisturbed''))
    exact Machine.finish_goOn (Program.at?_of_prefix at_.closing) undisturbed'' Header.perform_closing

theorem reaches_of_means {b : Block} {pc : Nat} {loops : Stack Frame} (at_ : b.At p pc loops)
    {m : Machine} {e : Ending} (undisturbed : m.interrupted = false) (means : b.Means m e) :
    Reaches p pc (m.withLoops loops) loops (pc + b.flatten.length) e := by
  induction b generalizing pc loops m e with
  | done =>
    subst means
    exact ⟨undisturbed, 0, fun fuel => rfl⟩
  | plain line c rest ih =>
    obtain ⟨found, more⟩ := at_.plain
    rw [Means] at means
    cases ran : c.effect m with
    | ok _ m' =>
      rw [ran] at means
      have undisturbed' := (c.effect_oblivious.interrupted_eq ran).trans undisturbed
      have reaches := ih more undisturbed' means
      rw [flatten, List.length_cons, Nat.add_comm rest.flatten.length, ← Nat.add_assoc]
      refine .trans (k := 1) (fun fuel => ?_) reaches
      exact Machine.finish_goOn found undisturbed (Plain.perform_ok ran loops)
    | error f m' =>
      rw [ran] at means
      subst means
      exact ⟨1, loops, fun fuel =>
        Machine.finish_failed found undisturbed (Plain.perform_error ran loops)⟩
  | stop line rest ih =>
    subst means
    exact ⟨1, loops, fun fuel => Machine.finish_halted at_.stop undisturbed rfl⟩
  | loop h body line named rest ihBody ihRest =>
    -- The body stands inside of one more open loop, what is behind the loop in those around it.
    have inside := fun m e undisturbed means => ihBody at_.inside (m := m) (e := e) undisturbed means
    have length : pc + (loop h body line named rest).flatten.length =
        pc + 1 + body.flatten.length + 1 + rest.flatten.length := by
      simp only [flatten, List.length_cons, List.length_append]
      omega
    rw [length]
    obtain ⟨m', rounds, after⟩ | ⟨rounds, leaves⟩ := means
    · obtain ⟨undisturbed', k, through⟩ := reaches_of_rounds at_ inside undisturbed rounds
      exact .trans through (ihRest at_.behind undisturbed' after)
    · exact (reaches_of_rounds at_ inside undisturbed rounds).of_leaves leaves

end Block

/-! ### From runs to blocks -/

/-- The ending of a block accounts for the result of a run: behind the block the run has so much fuel
left at most, and where the block is left early the run is over. -/
def Explains (p : Program) (fuel : Nat) (result : Machine × Option Report) (loops : Stack Frame)
    (stop : Nat) : Ending → Prop
  | .through m => m.interrupted = false ∧
    ∃ left ≤ fuel, Machine.finish p left stop (m.withLoops loops) = some result
  | .ended m => ∃ open_, result = (m.withLoops open_, none)
  | .failed report m => ∃ open_, result = (m.withLoops open_, some report)

namespace Explains

variable {p : Program} {fuel more stop mid : Nat} {result : Machine × Option Report}
  {loops inner : Stack Frame} {e : Ending}

theorem mono (explains : Explains p fuel result loops stop e) (le : fuel ≤ more) :
    Explains p more result loops stop e := by
  cases e with
  | through m =>
    obtain ⟨undisturbed, left, bound, finished⟩ := explains
    exact ⟨undisturbed, left, bound.trans le, finished⟩
  | ended m => exact explains
  | failed report m => exact explains

theorem of_leaves (leaves : e.Leaves) (explains : Explains p fuel result inner mid e) :
    Explains p fuel result loops stop e := by
  cases e with
  | through m => exact leaves.elim
  | ended m => exact explains
  | failed report m => exact explains

end Explains

namespace Block

variable {p : Program} {result : Machine × Option Report}

theorem rounds_of_finish {h : Header} {body rest : Block} {line pc : Nat} {named : Bool}
    {loops : Stack Frame} (at_ : (loop h body line named rest).At p pc loops)
    (inside : ∀ fuel m, m.interrupted = false →
      Machine.finish p fuel (pc + 1) (m.withLoops (loops.cons ⟨h.v, pc⟩)) = some result →
      ∃ e, body.Means m e ∧
        Explains p fuel result (loops.cons ⟨h.v, pc⟩) (pc + 1 + body.flatten.length) e)
    {fuel : Nat} {again : Bool} {m : Machine} (undisturbed : m.interrupted = false)
    (finished : Machine.finish p fuel pc (m.withLoops (h.frames pc loops again)) = some result) :
    ∃ e, Rounds h body.Means again m e ∧
      Explains p fuel result loops (pc + 1 + body.flatten.length + 1) e := by
  -- A round and its NEXT take fuel, so the next round has less.
  induction fuel using Nat.strongRecOn generalizing again m with
  | _ fuel ih =>
    cases fuel with
    | zero => cases finished
    | succ fuel =>
      cases tested : h.test again m with
      | error f m' =>
        rw [Machine.finish_failed at_.header undisturbed (at_.stands.perform_error tested)]
          at finished
        exact ⟨_, .fails tested, _, (Option.some.inj finished).symm⟩
      | ok done m' =>
        have undisturbed' := ((h.test_oblivious _).interrupted_eq tested).trans undisturbed
        cases done with
        | true =>
          rw [Machine.finish_goOn at_.header undisturbed (at_.stands.perform_over tested)]
            at finished
          exact ⟨_, .finished tested, undisturbed', fuel, Nat.le_succ fuel, finished⟩
        | false =>
          rw [Machine.finish_goOn at_.header undisturbed (at_.stands.perform_inside tested)]
            at finished
          obtain ⟨e, means, explains⟩ := inside fuel m' undisturbed' finished
          by_cases leaves : e.Leaves
          · exact ⟨e, .left tested means leaves,
              (explains.of_leaves leaves).mono (Nat.le_succ fuel)⟩
          · cases e with
            | ended m'' => exact absurd trivial leaves
            | failed report m'' => exact absurd trivial leaves
            | through m'' =>
              obtain ⟨undisturbed'', left, bound, finished⟩ := explains
              cases left with
              | zero => cases finished
              | succ left =>
                rw [Machine.finish_goOn (Program.at?_of_prefix at_.closing) undisturbed''
                  Header.perform_closing] at finished
                -- NEXT has come back to FOR, with the loop still open.
                have reopened : Machine.finish p left pc
                    (m''.withLoops (h.frames pc loops true)) = some result := finished
                obtain ⟨e, rounds, explains⟩ := ih left (by omega) undisturbed'' reopened
                exact ⟨e, .round tested means rounds, explains.mono (by omega)⟩

theorem means_of_finish {b : Block} {fuel pc : Nat} {loops : Stack Frame} (at_ : b.At p pc loops)
    {m : Machine} (undisturbed : m.interrupted = false)
    (finished : Machine.finish p fuel pc (m.withLoops loops) = some result) :
    ∃ e, b.Means m e ∧ Explains p fuel result loops (pc + b.flatten.length) e := by
  induction b generalizing fuel pc loops m with
  | done => exact ⟨_, rfl, undisturbed, fuel, le_refl fuel, finished⟩
  | plain line c rest ih =>
    obtain ⟨found, more⟩ := at_.plain
    cases fuel with
    | zero => cases finished
    | succ fuel =>
      cases ran : c.effect m with
      | ok _ m' =>
        have undisturbed' := (c.effect_oblivious.interrupted_eq ran).trans undisturbed
        rw [Machine.finish_goOn found undisturbed (Plain.perform_ok ran loops)] at finished
        obtain ⟨e, means, explains⟩ := ih more undisturbed' finished
        refine ⟨e, ?_, ?_⟩
        · simpa only [Means, ran] using means
        · rw [flatten, List.length_cons, Nat.add_comm rest.flatten.length, ← Nat.add_assoc]
          exact explains.mono (Nat.le_succ fuel)
      | error f m' =>
        rw [Machine.finish_failed found undisturbed (Plain.perform_error ran loops)] at finished
        refine ⟨.failed (f.report.atLine line) m', ?_, loops, (Option.some.inj finished).symm⟩
        simp only [Means, ran]
  | stop line rest ih =>
    cases fuel with
    | zero => cases finished
    | succ fuel =>
      rw [Machine.finish_halted at_.stop undisturbed rfl] at finished
      exact ⟨.ended m, rfl, loops, (Option.some.inj finished).symm⟩
  | loop h body line named rest ihBody ihRest =>
    have inside : ∀ fuel m, m.interrupted = false →
        Machine.finish p fuel (pc + 1) (m.withLoops (loops.cons ⟨h.v, pc⟩)) = some result →
        ∃ e, body.Means m e ∧
          Explains p fuel result (loops.cons ⟨h.v, pc⟩) (pc + 1 + body.flatten.length) e :=
      fun _ _ undisturbed finished => ihBody at_.inside undisturbed finished
    have length : pc + (loop h body line named rest).flatten.length =
        pc + 1 + body.flatten.length + 1 + rest.flatten.length := by
      simp only [flatten, List.length_cons, List.length_append]
      omega
    rw [length]
    -- At first the loop is not among the open ones.
    have entered : Machine.finish p fuel pc (m.withLoops (h.frames pc loops false)) =
        some result := finished
    obtain ⟨e, rounds, explains⟩ := rounds_of_finish at_ inside undisturbed entered
    by_cases leaves : e.Leaves
    · exact ⟨e, .inr ⟨rounds, leaves⟩, explains.of_leaves leaves⟩
    · cases e with
      | ended m' => exact absurd trivial leaves
      | failed report m' => exact absurd trivial leaves
      | through m' =>
        obtain ⟨undisturbed', left, bound, finished⟩ := explains
        obtain ⟨e, means, explains⟩ := ihRest at_.behind undisturbed' finished
        exact ⟨e, .inl ⟨m', rounds, means⟩, explains.mono bound⟩

end Block

/-! ### Whole programs -/

namespace Ending

/-- A run ends as the block does, with the same machine but for the loops, none of which is left open
when the block was gone through. -/
def Describes : Ending → Run → Prop
  | through m, r => r.failure? = none ∧ r.machine = { m with loops := .empty }
  | ended m, r => r.failure? = none ∧ ∃ loops, r.machine = { m with loops }
  | failed report m, r => r.failure? = some report ∧ ∃ loops, r.machine = { m with loops }

end Ending

namespace Block

variable {p : Program} {b : Block} (flat : p.instructions.toList = b.flatten)

include flat

theorem at_start (nested : b.Nested []) (few : b.loopCount ≤ Stack.capacity) :
    b.At p 0 .empty where
  here := by simp [flat]
  nested := nested
  above := by simp [Stack.empty]
  room := by simpa [Stack.empty] using few

theorem at?_behind : p.at? (0 + b.flatten.length) = none := by
  rw [Program.at?, Array.getElem?_eq_none_iff, ← Array.length_toList, flat]
  omega

theorem describes_of_explains {fuel : Nat} {r : Run} {e : Ending}
    (explains : Explains p fuel r.result .empty (0 + b.flatten.length) e) : e.Describes r := by
  cases e with
  | through m =>
    -- Behind the block there is no instruction, so the run is over.
    obtain ⟨_, left, _, finished⟩ := explains
    cases left with
    | zero => cases finished
    | succ left =>
      rw [Machine.finish_off (at?_behind flat)] at finished
      obtain ⟨machine, failure⟩ := Prod.mk.inj (Option.some.inj finished)
      exact ⟨failure.symm, machine.symm⟩
  | ended m =>
    obtain ⟨open_, same⟩ := explains
    obtain ⟨machine, failure⟩ := Prod.mk.inj same
    exact ⟨failure, open_, machine⟩
  | failed report m =>
    obtain ⟨open_, same⟩ := explains
    obtain ⟨machine, failure⟩ := Prod.mk.inj same
    exact ⟨failure, open_, machine⟩

theorem explains_of_reaches {m : Machine} {e : Ending}
    (reaches : Reaches p 0 m .empty (0 + b.flatten.length) e) :
    ∃ fuel result, Machine.finish p fuel 0 m = some result ∧
      Explains p fuel result .empty (0 + b.flatten.length) e := by
  cases e with
  | through m' =>
    obtain ⟨undisturbed, k, through⟩ := reaches
    have behind : Machine.finish p 1 (0 + b.flatten.length) (m'.withLoops .empty) =
        some (m'.withLoops .empty, none) := Machine.finish_off (at?_behind flat)
    exact ⟨1 + k, _, (through 1).trans behind, undisturbed, 1, by omega, behind⟩
  | ended m' =>
    obtain ⟨k, open_, ended⟩ := reaches
    exact ⟨0 + k, _, ended 0, open_, rfl⟩
  | failed report m' =>
    obtain ⟨k, open_, failed⟩ := reaches
    exact ⟨0 + k, _, failed 0, open_, rfl⟩

end Block

/-- A flat program does what its block means, and a run of it ends just when the block does. -/
theorem run_refines_block {p : Program} {b : Block} (flat : p.instructions.toList = b.flatten)
    (nested : b.Nested []) (few : b.loopCount ≤ Stack.capacity) {m : Machine}
    (closed : m.loops = .empty) (undisturbed : m.interrupted = false) :
    (∀ e, b.Means m e → ∃ fuel r, m.run p (fun _ => false) fuel = some r ∧ e.Describes r) ∧
    ∀ fuel r, m.run p (fun _ => false) fuel = some r → ∃ e, b.Means m e ∧ e.Describes r := by
  have at_ := Block.at_start flat nested few
  -- The machine is as it starts, with no loop open.
  have start : m.withLoops .empty = m := by simp only [Machine.withLoops, ← closed]
  constructor
  · intro e means
    have reaches := Block.reaches_of_means at_ undisturbed means
    rw [start] at reaches
    obtain ⟨fuel, result, finished, explains⟩ := Block.explains_of_reaches flat reaches
    obtain ⟨r, ended, rfl⟩ := Option.map_eq_some_iff.mp finished
    exact ⟨fuel, r, ended, Block.describes_of_explains flat explains⟩
  · intro fuel r ended
    have finished : Machine.finish p fuel 0 (m.withLoops .empty) = some r.result := by
      rw [start, Machine.finish]
      exact congrArg (Option.map Run.result) ended
    obtain ⟨e, means, explains⟩ := Block.means_of_finish at_ undisturbed finished
    exact ⟨e, means, Block.describes_of_explains flat explains⟩

/-- A loop inside of a loop whose variable is its bound. -/
private def triangle : Block :=
  .loop ⟨1, ⟨"i"⟩, .literal (.integer 1), .literal (.integer 4), .literal (.integer 1)⟩
    (.loop ⟨2, ⟨"j"⟩, .literal (.integer 0), .variable ⟨"i"⟩, .literal (.integer 1)⟩
      (.plain 3 (.print [.variable ⟨"j"⟩]) .done) 4 false .done) 5 true .done

private def triangleProgram : Program := ⟨triangle.flatten.toArray, [], []⟩

private def triangleStart : Machine := .initial triangleProgram (.ofSeed 0) (.ofBytes [])

theorem run_refines_block_of_triangle :
    ∃ r e, triangleStart.run triangleProgram (fun _ => false) 40 = some r ∧
      r.machine.output.toList = ["0\n", "0\n", "1\n", "0\n", "1\n", "2\n"] ∧
      triangle.Means triangleStart e ∧ e.Describes r := by
  have printed : (triangleStart.run triangleProgram (fun _ => false) 40).map
      (fun r => r.machine.output.toList) = some ["0\n", "0\n", "1\n", "0\n", "1\n", "2\n"] := by
    decide +kernel
  obtain ⟨r, ended, output⟩ := Option.map_eq_some_iff.mp printed
  have nested : triangle.Nested [] := by
    simp only [triangle, Block.Nested]
    decide
  obtain ⟨e, means, describes⟩ :=
    (run_refines_block (p := triangleProgram) rfl nested (by decide) rfl rfl).2 40 r ended
  exact ⟨r, e, ended, output, means, describes⟩

end LabelBasic
