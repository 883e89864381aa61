import LabelBasic.Proofs.Carrying
import LabelBasic.Proofs.Draws
import LabelBasic.Proofs.InputWords
import Mathlib.Data.List.Forall2

/-!
# Moments of a run

A run begins instructions, and in the course of them it draws random numbers and asks for words of the
input. Machines that differ in their sources only go through the same moments, one by one, as long as
the sources give the same answers: up to the first moment that asks for more, and including it.
-/
namespace LabelBasic

/-! ### Moments -/

/-- What a run does at a time, with the machine as it is then. -/
inductive Moment where
  | begins (step : Step) (m : Machine)
  /-- A random number is drawn. -/
  | draws (m : Machine)
  /-- A word of the input is asked for. -/
  | asks (m : Machine)

namespace Moment

def isDraw : Moment → Bool
  | draws _ => true
  | _ => false

def isAsk : Moment → Bool
  | asks _ => true
  | _ => false

def step? : Moment → Option Step
  | begins step _ => some step
  | _ => none

end Moment

/-- The moments of a computation, and of what follows its result. -/
def thenMoments {α : Type} (first : List Moment) (result : EStateM.Result Fault Machine α)
    (next : α → Machine → List Moment) : List Moment :=
  first ++ match result with
    | .ok a m => next a m
    | .error .. => []

/-- The moments of what is done for each of some items. -/
def inTurn {β : Type} (moments : β → Machine → List Moment) (x : β → Execution PUnit) :
    List β → Machine → List Moment
  | [], _ => []
  | b :: bs, m => thenMoments (moments b m) (x b m) fun _ => inTurn moments x bs

/-- So many numbers are drawn one after the other, and nothing else happens. -/
def drawings : Nat → Machine → List Moment
  | 0, _ => []
  | n + 1, m => .draws m :: drawings n { m with generator := m.generator.draw.2 }

/-- The moments of an evaluation, as many as there are numbers that it draws. -/
def drawnBy {α : Type} (x : Execution α) (m : Machine) : List Moment :=
  drawings ((x.after m).generator.drawn - m.generator.drawn) m

/-- The moments of an item of PRINT. -/
def Expr.printMoments : Expr → Machine → List Moment
  | .literal (.string _), _ => []
  | e, m => drawnBy (Machine.value e.kind e) m

/-- The moments of an item of INPUT. -/
def Expr.inputMoments : Expr → Machine → List Moment
  | .variable _, m => [.asks m]
  | _, _ => []

/-- The moments of the test of a FOR. The bound is evaluated behind the assignment. -/
def Header.moments (h : Header) (again : Bool) (m : Machine) : List Moment :=
  thenMoments (drawnBy (Machine.integer h.step) m) (Machine.integer h.step m) fun step m =>
    thenMoments (if again then [] else drawnBy (Machine.integer h.first) m) (h.value again step m)
      fun n m => thenMoments [] (Machine.assign h.v (.integer n) m) fun _ =>
        drawnBy (Machine.integer h.last)

/-- The moments of a command, and of the one that IF runs in its place. -/
def Command.moments (p : Program) (pc depth : Nat) : Command → Machine → List Moment
  | .assign v e => drawnBy (Machine.value v.kind e)
  | .print items => inTurn Expr.printMoments Machine.printItem items
  | .input items => inTurn Expr.inputMoments Machine.inputItem items
  | .loop v first last step => fun m =>
    if v.kind = .integer then Header.moments ⟨0, v, first, last, step⟩ (m.isOpen pc) m else []
  | .branch e name => fun m =>
    thenMoments (drawnBy (Machine.condition e) m) (Machine.condition e m) fun holds m =>
      if holds then
        match depth with
        | 0 => []
        | depth + 1 => thenMoments [] (Machine.branchTarget p name m) (moments p pc depth)
      else []
  | .data _ | .read _ | .gosub _ | .ret | .stop | .next _ | .whileLoop .. => fun _ => []

/-! ### Machines with other sources -/

/-- Asks for a word: there is one, there is none, or its line cannot be decoded. -/
def Reader.pull (r : Reader) : Except Fault (Option String) × Reader :=
  match next r with
  | .ok w? r' => (.ok w?, r')
  | .error f r' => (.error f, r')

/-- The machines differ in nothing but their sources. -/
def Machine.Same (m m' : Machine) : Prop := (Change.ofSources m').apply m = m'

/-- The same happens in machines that differ in nothing but their sources. -/
inductive Moment.Same : Moment → Moment → Prop
  | begins (step : Step) {m m' : Machine} (same : m.Same m') : Same (.begins step m) (.begins step m')
  | draws {m m' : Machine} (same : m.Same m') : Same (.draws m) (.draws m')
  | asks {m m' : Machine} (same : m.Same m') : Same (.asks m) (.asks m')

theorem Moment.countP_isAsk_of_twins {qs qs' : List Moment} (twins : List.Forall₂ Moment.Same qs qs') :
    qs'.countP isAsk = qs.countP isAsk := by
  induction twins with
  | nil => rfl
  | @cons q q' _ _ same _ ih =>
    have kind : isAsk q' = isAsk q := by cases same <;> rfl
    rw [List.countP_cons, List.countP_cons, kind, ih]

/-- How many random numbers and words are known to be the same. -/
structure Budget where
  draws : Nat
  words : Nat

namespace Budget

variable {b : Budget} {qs rs : List Moment}

/-- The moments draw and ask for no more than that. -/
structure Covers (b : Budget) (qs : List Moment) : Prop where
  draws : qs.countP Moment.isDraw ≤ b.draws
  words : qs.countP Moment.isAsk ≤ b.words

/-- What is left behind the moments. -/
def left (b : Budget) (qs : List Moment) : Budget :=
  ⟨b.draws - qs.countP Moment.isDraw, b.words - qs.countP Moment.isAsk⟩

theorem covers_append : b.Covers (qs ++ rs) ↔ b.Covers qs ∧ (b.left qs).Covers rs := by
  constructor
  · rintro ⟨draws, words⟩
    rw [List.countP_append] at draws words
    refine ⟨⟨by omega, by omega⟩, ⟨?_, ?_⟩⟩
    · exact Nat.le_sub_of_add_le' draws
    · exact Nat.le_sub_of_add_le' words
  · rintro ⟨first, later⟩
    constructor
    · rw [List.countP_append]
      exact Nat.add_le_of_le_sub' first.draws later.draws
    · rw [List.countP_append]
      exact Nat.add_le_of_le_sub' first.words later.words

/-- To begin an instruction takes nothing. -/
theorem covers_begins {step : Step} {m : Machine} : b.Covers (.begins step m :: qs) ↔ b.Covers qs :=
  ⟨fun covers => ⟨covers.draws, covers.words⟩, fun covers => ⟨covers.draws, covers.words⟩⟩

theorem left_begins (b : Budget) (step : Step) (m : Machine) (qs : List Moment) :
    b.left (.begins step m :: qs) = b.left qs := rfl

theorem left_append (b : Budget) (qs rs : List Moment) :
    b.left (qs ++ rs) = (b.left qs).left rs := by
  simp only [left, List.countP_append, Nat.sub_add_eq]

end Budget

/-- The same happens moment by moment, up to the first moment that asks for more, and including it. -/
inductive Alongside : Budget → List Moment → List Moment → Prop
  | nil (b : Budget) : Alongside b [] []
  | beyond {b : Budget} {q q' : Moment} {qs qs' : List Moment} (same : q.Same q')
      (exceeds : ¬b.Covers [q]) : Alongside b (q :: qs) (q' :: qs')
  | cons {b : Budget} {q q' : Moment} {qs qs' : List Moment} (same : q.Same q')
      (rest : Alongside (b.left [q]) qs qs') : Alongside b (q :: qs) (q' :: qs')

namespace Alongside

variable {b : Budget} {qs qs' rs rs' : List Moment}

theorem append (first : Alongside b qs qs')
    (second : b.Covers qs → Alongside (b.left qs) rs rs') : Alongside b (qs ++ rs) (qs' ++ rs') := by
  induction first with
  | nil b => exact second ⟨Nat.zero_le _, Nat.zero_le _⟩
  | beyond same exceeds => exact .beyond same exceeds
  | @cons b q _ qs _ same _ ih =>
    by_cases covers : b.Covers [q]
    · refine .cons same (ih fun rest => ?_)
      rw [← Budget.left_append]
      exact second (Budget.covers_append.mpr ⟨covers, rest⟩)
    · exact .beyond same covers

/-- A moment that the budget reaches has its twin, behind the twins of those before it. -/
theorem twin {before rest : List Moment} {q : Moment}
    (along : Alongside b (before ++ q :: rest) qs) (covers : b.Covers before) :
    ∃ before' q' rest', qs = before' ++ q' :: rest' ∧ List.Forall₂ Moment.Same before before' ∧
      q.Same q' := by
  induction before generalizing b qs with
  | nil =>
    cases along with
    | beyond same | cons same => exact ⟨[], _, _, rfl, .nil, same⟩
  | cons first before ih =>
    have covers : b.Covers ([first] ++ before) := covers
    obtain ⟨reached, later⟩ := Budget.covers_append.mp covers
    cases along with
    | beyond _ exceeds => exact absurd reached exceeds
    | cons same along =>
      obtain ⟨before', q', rest', rfl, twins, twin⟩ := ih along later
      exact ⟨_ :: before', q', rest', rfl, .cons same twins, twin⟩

end Alongside

/-- The machines differ in nothing but their sources, and these give the same as far as the budget
goes. -/
structure Machine.Agree (b : Budget) (m m' : Machine) : Prop where
  same : m.Same m'
  draws : answers Generator.draw b.draws m.generator = answers Generator.draw b.draws m'.generator
  words : answers Reader.pull b.words m.reader = answers Reader.pull b.words m'.reader

/-- The results are the same, in machines that agree. -/
inductive Coincide {α : Type} (b : Budget) :
    EStateM.Result Fault Machine α → EStateM.Result Fault Machine α → Prop
  | ok (a : α) {m m' : Machine} (agree : m.Agree b m') : Coincide b (.ok a m) (.ok a m')
  | error (f : Fault) {m m' : Machine} (agree : m.Agree b m') : Coincide b (.error f m) (.error f m')

/-- In these moments and no others the steps were begun, and the numbers drawn and the words asked for
that the sources are behind now. -/
structure Tells (qs : List Moment) (m : Machine) (steps : List Step) (m' : Machine) : Prop where
  steps : qs.filterMap Moment.step? = steps
  draws : m'.generator = behind Generator.draw (qs.countP Moment.isDraw) m.generator
  words : m'.reader = behind Reader.pull (qs.countP Moment.isAsk) m.reader

theorem Tells.nil (m : Machine) : Tells [] m [] m := ⟨rfl, rfl, rfl⟩

theorem Tells.append {qs rs : List Moment} {m m' m'' : Machine} {steps more : List Step}
    (first : Tells qs m steps m') (second : Tells rs m' more m'') :
    Tells (qs ++ rs) m (steps ++ more) m'' := by
  constructor
  · rw [List.filterMap_append, first.steps, second.steps]
  · rw [second.draws, first.draws, List.countP_append, behind_add]
  · rw [second.words, first.words, List.countP_append, behind_add]

/-- These are the moments of the computation. In machines that agree it goes alongside itself, and
comes to the same unless one of the moments asks for more. -/
structure Accords {α : Type} (moments : Machine → List Moment) (x : Execution α) : Prop where
  tells (m : Machine) : Tells (moments m) m [] (x.after m)
  along {b : Budget} {m m' : Machine} (agree : m.Agree b m') : Alongside b (moments m) (moments m')
  results {b : Budget} {m m' : Machine} (agree : m.Agree b m') (covers : b.Covers (moments m)) :
    Coincide (b.left (moments m)) (x m) (x m')

namespace Accords

open Machine

variable {α β : Type} {moments : Machine → List Moment} {x y : Execution α}

/-- What reads no source has no moments. -/
theorem of_carries (carries : ∀ m, Carries (Change.ofSources m).apply x) :
    Accords (fun _ => []) x := by
  -- The computation leaves the sources as they were.
  have kept (m : Machine) : (Change.ofSources m).apply (x.after m) = x.after m := by
    have own : x m = changedBy (Change.ofSources m).apply (x m) := carries m m
    cases eq : x m with
    | ok a t =>
      rw [eq] at own
      rw [Execution.after_of_ok eq]
      exact (EStateM.Result.ok.inj own).2.symm
    | error f t =>
      rw [eq] at own
      rw [Execution.after_of_error eq]
      exact (EStateM.Result.error.inj own).2.symm
  constructor
  · intro m
    refine ⟨rfl, ?_, ?_⟩
    · rw [← kept]; rfl
    · rw [← kept]; rfl
  · exact fun _ => .nil _
  · intro b m m' agree _
    have other := carries m' m
    rw [agree.same] at other
    have agrees : (x.after m).Agree b ((Change.ofSources m').apply (x.after m)) := by
      refine ⟨rfl, ?_, ?_⟩
      · rw [← kept]; exact agree.draws
      · rw [← kept]; exact agree.words
    rw [other]
    cases eq : x m with
    | ok a t =>
      rw [Execution.after_of_ok eq] at agrees
      exact .ok a agrees
    | error f t =>
      rw [Execution.after_of_error eq] at agrees
      exact .error f agrees

protected theorem bind {f : α → Execution β} {next : α → Machine → List Moment}
    (first : Accords moments x) (second : ∀ a, Accords (next a) (f a)) :
    Accords (fun m => thenMoments (moments m) (x m) next) (x >>= f) := by
  constructor
  · intro m
    have tells := first.tells m
    cases eq : x m with
    | ok a t =>
      rw [Execution.after_of_ok eq] at tells
      rw [Execution.after_bind_of_ok eq]
      exact tells.append ((second a).tells t)
    | error f t =>
      rw [Execution.after_of_error eq] at tells
      rw [Execution.after_bind_of_error eq]
      exact tells.append (.nil t)
  · intro b m m' agree
    refine (first.along agree).append fun covers => ?_
    -- Only here are the results of the first part known to be the same.
    have coincide := first.results agree covers
    generalize x m = r at coincide
    generalize x m' = r' at coincide
    cases coincide with
    | ok a agree => exact (second a).along agree
    | error f agree => exact .nil _
  · intro b m m' agree covers
    simp only [thenMoments, Budget.left_append] at covers ⊢
    obtain ⟨covered, rest⟩ := Budget.covers_append.mp covers
    have coincide := first.results agree covered
    generalize run : x m = r at coincide rest
    generalize run' : x m' = r' at coincide
    cases coincide with
    | ok a agree =>
      rw [bind_of_ok run, bind_of_ok run']
      exact (second a).results agree rest
    | error f agree =>
      rw [bind_of_error run, bind_of_error run']
      exact .error f agree

theorem thenMoments_nil (first : List Moment) (result : EStateM.Result Fault Machine α) :
    thenMoments first result (fun _ _ => []) = first := by
  cases result <;> exact List.append_nil first

/-- What follows reads no source. -/
theorem before {f : α → Execution β} (first : Accords moments x)
    (carries : ∀ a m, Carries (Change.ofSources m).apply (f a)) : Accords moments (x >>= f) := by
  have both := first.bind fun a => of_carries (carries a)
  simpa only [thenMoments_nil] using both

protected theorem pure (a : α) : Accords (fun _ => []) (pure a) := .of_carries fun _ => .pure a

protected theorem throw (f : Fault) : Accords (fun _ => []) (throw f : Execution α) :=
  .of_carries fun _ => .throw f

theorem forM {each : β → Machine → List Moment} {f : β → Execution PUnit} {bs : List β}
    (item : ∀ b ∈ bs, Accords (each b) (f b)) : Accords (inTurn each f bs) (bs.forM f) := by
  induction bs with
  | nil => exact .pure _
  | cons b bs ih =>
    obtain ⟨first, rest⟩ := List.forall_mem_cons.mp item
    exact first.bind fun _ => ih rest

end Accords

/-! ### Evaluation -/

section

variable {m m' : Machine} (same : m.Same m')

include same

theorem Machine.Same.withGenerator (g g' : Generator) :
    Same { m with generator := g } { m' with generator := g' } := by
  rw [Same, ← same]
  rfl

theorem Machine.Same.withReader (r r' : Reader) :
    Same { m with reader := r } { m' with reader := r' } := by
  rw [Same, ← same]
  rfl

end

/-- What numbers that are drawn lead to. -/
theorem drawings_tells (k : Nat) (m : Machine) :
    Tells (drawings k m) m [] { m with generator := behind Generator.draw k m.generator } := by
  induction k generalizing m with
  | zero => exact .nil m
  | succ k ih =>
    have drawn : Tells [.draws m] m [] { m with generator := m.generator.draw.2 } := ⟨rfl, rfl, rfl⟩
    exact drawn.append (ih _)

theorem countP_drawings (k : Nat) (m : Machine) :
    (drawings k m).countP Moment.isDraw = k ∧ (drawings k m).countP Moment.isAsk = 0 := by
  induction k generalizing m with
  | zero => exact ⟨rfl, rfl⟩
  | succ k ih =>
    obtain ⟨draws, asks⟩ := ih { m with generator := m.generator.draw.2 }
    constructor
    · rw [drawings, List.countP_cons_of_pos rfl, draws]
    · rw [drawings, List.countP_cons_of_neg Bool.false_ne_true, asks]

/-- As many numbers are drawn in both machines, or more than are known. -/
theorem drawings_alongside {b : Budget} {k k' : Nat} {m m' : Machine} (same : m.Same m')
    (counts : k' = k ∨ b.draws < k ∧ b.draws < k') :
    Alongside b (drawings k m) (drawings k' m') := by
  induction k generalizing b k' m m' with
  | zero =>
    obtain rfl : k' = 0 := by omega
    exact .nil b
  | succ k ih =>
    obtain ⟨k', rfl⟩ : ∃ n, k' = n + 1 := ⟨k' - 1, by omega⟩
    by_cases none : b.draws = 0
    · refine .beyond (.draws same) fun covers => ?_
      cases none ▸ covers.draws
    · have same' := same.withGenerator m.generator.draw.2 m'.generator.draw.2
      have left : (b.left [.draws m]).draws = b.draws - 1 := rfl
      exact .cons (.draws same) (ih same' (by omega))

/-- How many numbers an evaluation draws. -/
theorem drawnBy_eq {α : Type} {x : Execution α} {m : Machine} {k : Nat}
    (drawn : (x.after m).generator = behind Generator.draw k m.generator) :
    drawnBy x m = drawings k m := by
  rw [drawnBy, drawn, Generator.drawn_behind, Nat.add_sub_cancel_left]

theorem Machine.onGenerator_drawing {α : Type} (d : Drawing α) (m : Machine) :
    onGenerator d.run m = ofExcept (d.outcome m.generator)
      { m with generator := behind Generator.draw (d.count m.generator) m.generator } := by
  rw [onGenerator, onPart, d.run_eq]
  cases d.outcome m.generator <;> rfl

theorem Execution.after_of_ofExcept {α : Type} {x : Execution α} {r : Except Fault α}
    {m m' : Machine} (eq : x m = ofExcept r m') : x.after m = m' := by
  rw [after, eq]
  cases r <;> rfl

theorem Coincide.ofExcept {α : Type} {b : Budget} {m m' : Machine} (r : Except Fault α)
    (agree : m.Agree b m') :
    Coincide b (LabelBasic.ofExcept r m) (LabelBasic.ofExcept r m') := by
  cases r with
  | ok a => exact .ok a agree
  | error f => exact .error f agree

namespace Accords

open Machine

variable {α : Type}

/-- An evaluation that reads no source but the generator. -/
theorem evaluation {x : Execution α} {f : Machine → Evaluation α}
    (runs : ∀ m, x m = onGenerator (f m) m) (reads : ∀ {m m'}, m.Same m' → f m' = f m)
    (draws : ∀ m, Draws (f m)) : Accords (drawnBy x) x := by
  have ran {m : Machine} {d : Drawing α} (run : d.run = f m) : x m = ofExcept (d.outcome m.generator)
      { m with generator := behind Generator.draw (d.count m.generator) m.generator } := by
    rw [runs, ← run, onGenerator_drawing]
  have counted {m : Machine} {d : Drawing α} (run : d.run = f m) :
      drawnBy x m = drawings (d.count m.generator) m :=
    drawnBy_eq (by rw [Execution.after_of_ofExcept (ran run)])
  constructor
  · intro m
    obtain ⟨d, run⟩ := draws m
    rw [counted run, Execution.after_of_ofExcept (ran run)]
    exact drawings_tells _ m
  · intro b m m' agree
    obtain ⟨d, run⟩ := draws m
    rw [counted run, counted (run.trans (reads agree.same).symm)]
    refine drawings_alongside agree.same ?_
    -- Behind the known numbers the counts may differ, but both evaluations get that far.
    rcases Nat.lt_or_ge b.draws (d.count m.generator) with beyond | within
    · exact .inr ⟨beyond, Drawing.lt_count agree.draws beyond⟩
    · exact .inl (Drawing.eq_of_count_le agree.draws within).1
  · intro b m m' agree covers
    obtain ⟨d, run⟩ := draws m
    obtain ⟨drawn, asked⟩ := countP_drawings (d.count m.generator) m
    rw [counted run] at covers ⊢
    have within := drawn ▸ covers.draws
    obtain ⟨counts, outcomes⟩ := Drawing.eq_of_count_le agree.draws within
    rw [ran run, ran (run.trans (reads agree.same).symm), counts, outcomes]
    refine .ofExcept _ ⟨agree.same.withGenerator _ _, ?_, ?_⟩
    · simp only [Budget.left, drawn]
      exact answers_behind agree.draws within
    · simp only [Budget.left, asked]
      exact agree.words

theorem value (kind : Kind) (e : Expr) :
    Accords (drawnBy (Machine.value kind e)) (Machine.value kind e) :=
  .evaluation (fun _ => rfl) (fun same => same ▸ rfl) fun m =>
    draws_composes.evaluate m.store (fun f _ => f.call_draws) kind

theorem integer (e : Expr) : Accords (drawnBy (Machine.integer e)) (Machine.integer e) :=
  .evaluation (fun _ => rfl) (fun same => same ▸ rfl) fun m =>
    draws_composes.evaluateInteger m.store fun f _ => f.call_draws

theorem condition (e : Expr) : Accords (drawnBy (Machine.condition e)) (Machine.condition e) :=
  .evaluation (fun _ => rfl) (fun same => same ▸ rfl) fun m =>
    draws_composes.evaluateCondition m.store fun f _ => f.call_draws

end Accords

/-! ### Input -/

namespace Reader

/-- What an answer means to a variable. -/
def meant (kind : Kind) : Except Fault (Option String) → Except Fault Value
  | .error f => .error f
  | .ok none => .error .endOfInput
  | .ok (some w) =>
    match ofWord? kind w with
    | none => .error (.badInput kind w)
    | some x => .ok x

/-- A reader that holds words answers with one after the other, and then that there is none. -/
theorem answers_of_holds {r : Reader} {ws : List String} (holds : r.Holds ws) (n : Nat) :
    answers pull n r = (List.range n).map fun i => .ok ws[i]? := by
  induction n generalizing r ws with
  | zero => rfl
  | succ n ih =>
    obtain ⟨r', asked, left⟩ := next_of_holds holds
    have pulled : pull r = (.ok ws.head?, r') := by rw [pull, asked]
    rw [answers, pulled, ih left, List.range_succ_eq_map, List.map_cons, List.map_map,
      List.head?_eq_getElem?]
    simp only [Function.comp_def, List.getElem?_tail]

/-- A value is what the answer to one question means, and nothing else is asked for. -/
theorem value_eq (kind : Kind) (r : Reader) :
    value kind r = ofExcept (meant kind (pull r).1) (pull r).2 := by
  cases asked : next r with
  | ok w? r' =>
    rw [value_of_next asked, pull, asked]
    cases w? with
    | none => rfl
    | some w =>
      simp only [take, meant]
      cases ofWord? kind w <;> rfl
  | error f r' =>
    have failed : word r = .error f r' := bind_of_error asked
    rw [value, bind_of_error failed, pull, asked]
    rfl

end Reader

theorem Machine.onReader_value (kind : Kind) (m : Machine) :
    onReader (Reader.value kind) m =
      ofExcept (Reader.meant kind m.reader.pull.1) { m with reader := m.reader.pull.2 } := by
  rw [onReader, onPart, Reader.value_eq]
  cases Reader.meant kind m.reader.pull.1 <;> rfl

namespace Accords

open Machine

theorem reading (kind : Kind) :
    Accords (fun m => [.asks m]) (onReader (Reader.value kind)) := by
  constructor
  · intro m
    rw [Execution.after_of_ofExcept (onReader_value kind m)]
    exact ⟨rfl, rfl, rfl⟩
  · intro b m m' agree
    exact .cons (.asks agree.same) (.nil _)
  · intro b m m' agree covers
    obtain ⟨n, some⟩ := Nat.exists_eq_add_one_of_ne_zero (Nat.ne_of_gt covers.words)
    have words := agree.words
    rw [some] at words
    obtain ⟨answer, rest⟩ := List.cons.inj words
    rw [onReader_value, onReader_value, ← answer]
    refine .ofExcept _ ⟨agree.same.withReader _ _, agree.draws, ?_⟩
    simp only [Budget.left, some]
    exact rest

/-! ### Commands -/

theorem printItem (e : Expr) : Accords e.printMoments (Machine.printItem e) := by
  -- A string is printed as it stands, and every other item is evaluated.
  have each : Accords (drawnBy (Machine.value e.kind e))
      (Machine.value e.kind e >>= fun x => emit (x.text ++ "\n")) :=
    (value e.kind e).before fun x _ => emit_carries _
  cases e with
  | literal x =>
    cases x with
    | string s => exact .of_carries fun _ => emit_carries s
    | integer n => exact each
    | float x => exact each
  | _ => exact each

theorem inputItem : (e : Expr) → Accords e.inputMoments (Machine.inputItem e)
  | .literal (.string s) => .of_carries fun _ => emit_carries s
  | .variable v => (reading v.kind).before fun x _ => assign_carries v x
  | .literal (.integer _) | .literal (.float _) => .throw _
  | .call .. | .arithmetic .. | .comparison .. => .throw _

/-- A computation that goes by something that it reads off the machine. -/
theorem depending {α ρ : Type} {read : Machine → ρ} {moments : ρ → Machine → List Moment}
    {x : ρ → Execution α} {y : Execution α} (runs : ∀ m, y m = x (read m) m)
    (reads : ∀ {m m'}, m.Same m' → read m' = read m) (each : ∀ a, Accords (moments a) (x a)) :
    Accords (fun m => moments (read m) m) y := by
  constructor
  · intro m
    rw [Execution.after, runs]
    exact (each _).tells m
  · intro b m m' agree
    rw [reads agree.same]
    exact (each _).along agree
  · intro b m m' agree covers
    rw [runs, runs, reads agree.same]
    exact (each _).results agree covers

theorem test (h : Header) (again : Bool) : Accords (h.moments again) (h.test again) := by
  refine (integer h.step).bind fun step => ?_
  have value : Accords (fun m => if again then [] else drawnBy (Machine.integer h.first) m)
      (h.value again step) := by
    cases again with
    | true => exact .of_carries fun _ => h.further_carries step
    | false => exact integer h.first
  refine value.bind fun n => ?_
  have assigned : Accords (fun _ => []) (assign h.v (.integer n)) :=
    .of_carries fun _ => assign_carries h.v _
  exact assigned.bind fun _ => (integer h.last).before fun _ _ => .pure _

/-- FOR has the moments of its test. -/
theorem loop (p : Program) (pc depth : Nat) (v : Ident) (first last step : Expr) :
    Accords (Command.moments p pc depth (.loop v first last step))
      (Machine.loop p pc v first last step) := by
  let h : Header := ⟨0, v, first, last, step⟩
  simp only [Command.moments]
  by_cases integer : v.kind = .integer
  · simp only [integer, if_true]
    have runs (m : Machine) : Machine.loop p pc v first last step m =
        (h.test (m.isOpen pc) >>= fun done => h.settle p pc (m.isOpen pc) done) m :=
      h.loop_eq integer rfl
    have opened {m m' : Machine} (same : m.Same m') : m'.isOpen pc = m.isOpen pc := same ▸ rfl
    have tested (again : Bool) : Accords (h.moments again)
        (h.test again >>= fun done => h.settle p pc again done) :=
      (test h again).before fun done _ => h.settle_carries p pc again done
    exact depending (x := fun again => h.test again >>= fun done => h.settle p pc again done)
      runs opened tested
  · have refused : Machine.loop p pc v first last step = throw .loopVariableKind := by
      simp only [Machine.loop, ne_eq, integer, not_false_eq_true, if_true]
      rfl
    simp only [integer, if_false, refused]
    exact .throw _

/-- A command has the moments of what it evaluates and asks for, up to where it fails. -/
theorem execute (p : Program) (pc depth : Nat) (c : Command) :
    Accords (c.moments p pc depth) (Machine.execute p pc depth c) := by
  -- The command that IF runs has one IF less before it.
  induction depth using Nat.strongRecOn generalizing c with
  | ind depth ih =>
    cases c with
    | assign v e =>
      simp only [Command.moments, Machine.execute]
      exact (value v.kind e).before fun x _ => (assign_carries v x).bind fun _ => .pure _
    | print items =>
      simp only [Command.moments, Machine.execute]
      exact (forM fun e _ => printItem e).before fun _ _ => .pure _
    | input items =>
      simp only [Command.moments, Machine.execute]
      exact (forM fun e _ => inputItem e).before fun _ _ => .pure _
    | loop v first last step =>
      simp only [Machine.execute]
      exact loop p pc depth v first last step
    | branch e name =>
      unfold Command.moments Machine.execute
      refine (condition e).bind fun holds => ?_
      cases holds with
      | false => exact .pure _
      | true =>
        cases depth with
        | zero => exact .throw _
        | succ depth =>
          exact (of_carries fun _ => branchTarget_carries p name).bind fun c =>
            ih depth (Nat.lt_succ_self depth) c
    | read targets =>
      simp only [Command.moments, Machine.execute]
      exact .of_carries fun _ => (read_carries targets).bind fun _ => .pure _
    | gosub name =>
      simp only [Command.moments, Machine.execute]
      exact .of_carries fun _ => gosub_carries p pc name
    | ret =>
      simp only [Command.moments, Machine.execute]
      exact .of_carries fun _ => ret_carries
    | next v =>
      simp only [Command.moments, Machine.execute]
      exact .of_carries fun _ => next_carries v
    | data | stop =>
      simp only [Command.moments, Machine.execute]
      exact .pure _
    | whileLoop =>
      simp only [Command.moments, Machine.execute]
      exact .throw _

end Accords

end LabelBasic
