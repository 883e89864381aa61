import LabelBasic.Proofs.Exactness
import LabelBasic.Proofs.OpenLoops
import LabelBasic.Proofs.Runs

/-!
# NEXT and the loop it continues

NEXT finds its loop on the stack of open loops: the innermost one, or the innermost one on the
variable that it names. The FOR it goes back to finds its own loop on top of that stack, so it takes
its variable one step further and never starts anew.
-/
namespace LabelBasic

/-- NEXT may continue this loop: it names the variable of the loop, or none. -/
def Frame.Suits (frame : Frame) (w : Option Ident) : Prop := w = none ∨ w = some frame.v

instance (frame : Frame) (w : Option Ident) : Decidable (frame.Suits w) :=
  inferInstanceAs (Decidable (_ ∨ _))

theorem Frame.suits_bare (frame : Frame) : frame.Suits none := .inl rfl

theorem Frame.suits_named {frame : Frame} {v : Ident} : frame.Suits (some v) ↔ frame.v = v := by
  constructor
  · rintro (absent | same)
    · cases absent
    · exact (Option.some.inj same).symm
  · rintro rfl
    exact .inr rfl

namespace Machine

variable {p : Program} {pc line : Nat} {w : Option Ident} {frame : Frame} {inner outer : List Frame}
  {m m' : Machine}

/-! ### NEXT -/

theorem continueLoop_of_cons (items : m.loops.items = frame :: outer) :
    continueLoop m = .ok (.jump frame.header) m := by
  have top : m.loops.top? = some frame := by rw [Stack.top?, items, List.head?_cons]
  rw [continueLoop, bind_of_ok (x := get) rfl, top]
  rfl

/-- With a variable, NEXT gives up the loops that are not on it, and looks at what is left. -/
theorem next_named (v : Ident) (m : Machine) :
    next (some v) m = (do
      if (← get).loops.top?.isNone then throw (.nextWithoutFor (some v))
      continueLoop : Execution Flow)
        { m with loops := m.loops.dropUntil fun frame => frame.v == v } := rfl

/-- NEXT goes back to the first loop from the top that suits it, and closes those above. -/
theorem next_of_suits (items : m.loops.items = inner ++ frame :: outer)
    (others : ∀ f ∈ inner, ¬f.Suits w) (suits : frame.Suits w) :
    next w m = .ok (.jump frame.header) { m with loops := .ofList (frame :: outer) } := by
  cases w with
  | none =>
    -- Every loop suits, so there is none above the one that NEXT goes back to.
    obtain rfl : inner = [] := List.eq_nil_iff_forall_not_mem.mpr fun f member =>
      others f member f.suits_bare
    have same : m.loops = .ofList (frame :: outer) := Stack.ext_items items
    rw [← same]
    exact continueLoop_of_cons items
  | some v =>
    have dropped : m.loops.dropUntil (fun f => f.v == v) = .ofList (frame :: outer) := by
      apply Stack.ext_items
      have apart : ∀ f ∈ inner, (!(f.v == v)) = true := by
        intro f member
        simpa [Frame.suits_named] using others f member
      rw [Stack.dropUntil, items, List.dropWhile_append_of_pos apart]
      simp [Frame.suits_named.mp suits]
    rw [next_named, dropped]
    exact continueLoop_of_cons (m := { m with loops := .ofList (frame :: outer) }) rfl

/-- Without a loop that suits it, NEXT fails, and closes all of them. -/
theorem next_of_none_suits (none : ∀ f ∈ m.loops.items, ¬f.Suits w) :
    next w m = .error (.nextWithoutFor w) { m with loops := .empty } := by
  cases w with
  | none =>
    have closed : m.loops.items = [] := List.eq_nil_iff_forall_not_mem.mpr fun f member =>
      none f member f.suits_bare
    obtain ⟨store, data, calls, loops, generator, reader, interrupted, output⟩ := m
    obtain rfl : loops = .empty := Stack.ext_items closed
    rfl
  | some v =>
    have dropped : m.loops.dropUntil (fun f => f.v == v) = .empty := by
      apply Stack.ext_items
      refine List.dropWhile_eq_nil_iff.mpr fun f member => ?_
      simpa [Frame.suits_named] using none f member
    rw [next_named, dropped]
    rfl

theorem perform_next_of_suits (items : m.loops.items = inner ++ frame :: outer)
    (others : ∀ f ∈ inner, ¬f.Suits w) (suits : frame.Suits w) :
    perform p pc ⟨line, .next w⟩ m =
      (.goOn frame.header, { m with loops := .ofList (frame :: outer) }) := by
  simp only [perform, execute, next_of_suits items others suits]

theorem perform_next_of_none_suits (none : ∀ f ∈ m.loops.items, ¬f.Suits w) :
    perform p pc ⟨line, .next w⟩ m = (.failed (.nextWithoutFor w), { m with loops := .empty }) := by
  simp only [perform, execute, next_of_none_suits none]

/-- There is no loop that suits NEXT, or a first one from the top. -/
theorem exists_suits_or_none (w : Option Ident) (loops : List Frame) :
    (∀ f ∈ loops, ¬f.Suits w) ∨ ∃ inner frame outer, loops = inner ++ frame :: outer ∧
      (∀ f ∈ inner, ¬f.Suits w) ∧ frame.Suits w := by
  cases found : loops.find? (decide <| ·.Suits w) with
  | none => exact .inl fun f member => by simpa using List.find?_eq_none.mp found f member
  | some frame =>
    obtain ⟨suits, inner, outer, eq, others⟩ := List.find?_eq_some_iff_append.mp found
    refine .inr ⟨inner, frame, outer, eq, fun f member => ?_, by simpa using suits⟩
    simpa using others f member

/-! ### FOR that NEXT comes back to -/

theorem assign_of_room {v : Ident} {x : Value} (fits : x.kind = v.kind)
    (room : m.store.contains v = true ∨ m.store.size < Store.capacity) :
    assign v x m = .ok () { m with store := m.store.insert v x fits } := by
  simp only [assign, Store.store_of_room fits room]

theorem assign_of_get? {v : Ident} {x y : Value} (current : m.store.get? v = some y)
    (fits : x.kind = v.kind) :
    assign v x m = .ok () { m with store := m.store.insert v x fits } :=
  assign_of_room fits (.inl (Store.contains_of_get? current))

/-- FOR does not look at the first value of its loop when NEXT has come back to it. -/
theorem perform_header_first_irrelevant {h : Header} (integer : h.v.kind = .integer)
    (reentry : m.isOpen pc = true) (first : Expr) :
    perform p pc { h with first }.instruction m = perform p pc h.instruction m := by
  have unread : { h with first }.test true = h.test true := rfl
  simp only [perform, Header.instruction, execute,
    Header.loop_eq (h := { h with first }) integer reentry, Header.loop_eq integer reentry, unread]
  rfl

end Machine

namespace Header

open Machine

variable {h : Header} {p : Program} {pc : Nat} {m m' : Machine} {x s : Int32}

theorem further_eq (current : m.store.get? h.v = some (.integer x)) :
    h.further s m = (ofExcept (checked (x.toInt + s.toInt)) : Execution Int32) m := by
  have fetched : fetch h.v m = .ok (.integer x) m := by simp only [fetch, Store.fetch, current]
  have whole : (ofExcept (Value.integer x).toInteger : Execution Int32) m = .ok x m := rfl
  rw [further, bind_of_ok fetched, bind_of_ok whole]

theorem further_of_inRange (current : m.store.get? h.v = some (.integer x))
    (fits : InRange (x.toInt + s.toInt)) :
    h.further s m = .ok (.ofInt (x.toInt + s.toInt)) m := by
  rw [further_eq current, checked_of_inRange fits]
  rfl

/-- Whether the bound has a value or not, the variable has been taken one step further. -/
theorem get?_after_loop (integer : h.v.kind = .integer) (reentry : m.isOpen pc = true)
    (stepped : Machine.integer h.step m = .ok s m') (current : m.store.get? h.v = some (.integer x))
    (fits : InRange (x.toInt + s.toInt)) :
    ((loop p pc h.v h.first h.last h.step).after m).store.get? h.v =
      some (.integer (.ofInt (x.toInt + s.toInt))) := by
  have kept : m'.store = m.store := (integer_keeps_store h.step).of_ok stepped
  rw [← kept] at current
  have value : h.value true s m' = .ok (.ofInt (x.toInt + s.toInt)) m' :=
    further_of_inRange current fits
  have fitting : (Value.integer (.ofInt (x.toInt + s.toInt))).kind = h.v.kind := integer.symm
  have stored := assign_of_get? current fitting
  -- Neither the bound nor what the test means for the loop changes a variable.
  rw [after_loop_of_integer integer, reentry, Keeps.after_bind (settle_keeps_store true), test,
    Execution.after_bind_of_ok stepped, Execution.after_bind_of_ok value,
    Execution.after_bind_of_ok stored]
  refine (congrArg (Store.get? · h.v) ?_).trans (get?_of_assign stored)
  exact (integer_keeps_store h.last).bind (fun _ _ _ _ => .pure _) _

end Header

namespace Machine

variable {p : Program} {start : Machine} {past : List Visit} {pc : Nat} {frame : Frame}
  {m : Machine}

/-- A machine that has come back to the FOR of its innermost loop. Whatever becomes of the loop, its
variable goes on from the value it has. -/
structure ComesBack (p : Program) (frame : Frame) (h : Header) (x : Int32) (m : Machine) :
    Prop where
  header : p.at? frame.header = some h.instruction
  same : h.v = frame.v
  top : m.loops.top? = some frame
  reentry : m.isOpen frame.header = true
  current : m.store.get? h.v = some (.integer x)
  further : ∀ comes s m', integer h.step (m.signal comes) = .ok s m' →
    InRange (x.toInt + s.toInt) → ∃ n : Int32, n.toInt = x.toInt + s.toInt ∧
      (perform p frame.header h.instruction (m.signal comes)).2.store.get? h.v = some (.integer n)
  first_irrelevant : ∀ comes first,
    perform p frame.header { h with first }.instruction (m.signal comes) =
      perform p frame.header h.instruction (m.signal comes)

theorem Reached.comesBack (closed : start.loops = .empty) (reached : Reached p start past pc m)
    (top : m.loops.top? = some frame) : ∃ h x, ComesBack p frame h x m := by
  obtain ⟨⟨h, header, same⟩, integer, assigned⟩ :=
    (reached.loopsInOrder closed).opened frame (List.mem_of_mem_head? top)
  obtain ⟨v, current⟩ := Option.isSome_iff_exists.mp assigned
  obtain ⟨x, rfl⟩ := exists_integer ((Store.kind_of_get? current).trans integer)
  rw [← same] at integer current
  have reentry : m.isOpen frame.header = true := isOpen_iff.mpr ⟨frame, top, rfl⟩
  have reentry' : ∀ comes, (m.signal comes).isOpen frame.header = true := by
    intro comes
    rw [isOpen, loops_signal]
    exact reentry
  refine ⟨h, x, header, same, top, reentry, current, ?_, ?_⟩
  · intro comes s m' stepped fits
    rw [← store_signal m comes] at current
    rw [perform_machine]
    simp only [Header.instruction, execute]
    refine ⟨.ofInt (x.toInt + s.toInt), toInt_ofInt_of_inRange fits, ?_⟩
    exact Header.get?_after_loop integer (reentry' comes) stepped current fits
  · exact fun comes => perform_header_first_irrelevant integer (reentry' comes)

end Machine

open Machine

/-- Wherever a program is, NEXT goes on just when a loop is open that suits it, and fails for want of
a FOR otherwise. It closes the loops above the first that suits it and changes nothing else. The run
goes on with the FOR of that loop, which goes on from the value that its variable has. -/
theorem next_continues_its_loop {p : Program} {start m : Machine} {past : List Visit}
    {pc line : Nat} {w : Option Ident} (closed : start.loops = .empty)
    (reached : Reached p start past pc m) (found : p.at? pc = some ⟨line, .next w⟩)
    (calm : m.interrupted = false) (comes : Bool) :
    ((∃ address m', perform p pc ⟨line, .next w⟩ (m.signal comes) = (.goOn address, m')) ↔
      ∃ frame ∈ m.loops.items, frame.Suits w) ∧
    ∀ turn m', perform p pc ⟨line, .next w⟩ (m.signal comes) = (turn, m') →
      turn = .failed (.nextWithoutFor w) ∨
      ∃ inner frame outer h x, m.loops.items = inner ++ frame :: outer ∧
        (∀ f ∈ inner, ¬f.Suits w) ∧ frame.Suits w ∧ turn = .goOn frame.header ∧
        m' = { m.signal comes with loops := .ofList (frame :: outer) } ∧
        (w = none → m' = m.signal comes) ∧ ComesBack p frame h x m' ∧
        ∀ signals steps fuel, signals (steps.size + 1) = comes →
          runFrom p signals (fuel + 1) pc steps m =
            runFrom p signals fuel frame.header (steps.push ⟨pc, ⟨line, .next w⟩⟩) m' := by
  have same : (m.signal comes).loops.items = m.loops.items := by rw [loops_signal]
  rcases exists_suits_or_none w m.loops.items with
    none | ⟨inner, frame, outer, items, others, suits⟩
  · have failed : perform p pc ⟨line, .next w⟩ (m.signal comes) = _ :=
      perform_next_of_none_suits fun f member => none f (same ▸ member)
    constructor
    · constructor
      · rintro ⟨address, m', performed⟩
        cases failed.symm.trans performed
      · rintro ⟨frame, member, suits⟩
        exact absurd suits (none frame member)
    · intro turn m' performed
      cases failed.symm.trans performed
      exact .inl rfl
  · have goes : perform p pc ⟨line, .next w⟩ (m.signal comes) = _ :=
      perform_next_of_suits (same.trans items) others suits
    constructor
    · refine ⟨fun _ => ⟨frame, ?_, suits⟩, fun _ => ⟨_, _, goes⟩⟩
      simp [items]
    · intro turn m' performed
      cases goes.symm.trans performed
      -- Where the loop comes back to is reached too, with its own frame on top.
      have next : Reached p start (⟨pc, m.signal comes⟩ :: past) frame.header _ :=
        reached.turn comes found calm goes
      obtain ⟨h, x, back⟩ := next.comesBack closed rfl
      refine .inr ⟨inner, frame, outer, h, x, items, others, suits, rfl, rfl, ?_, back, ?_⟩
      · rintro rfl
        obtain rfl : inner = [] := List.eq_nil_iff_forall_not_mem.mpr fun f member =>
          others f member f.suits_bare
        have whole : (m.signal comes).loops = .ofList (frame :: outer) :=
          Stack.ext_items (same.trans items)
        rw [← whole]
      · rintro signals steps fuel rfl
        exact runFrom_goOn found calm goes fuel

private def outerLoop : Header :=
  ⟨1, ⟨"i"⟩, .literal (.integer 1), .literal (.integer 9), .literal (.integer 2)⟩

private def innerLoop : Header :=
  ⟨2, ⟨"j"⟩, .literal (.integer 1), .literal (.integer 9), .literal (.integer 1)⟩

private def nextOuter : Instruction := ⟨3, .next (some ⟨"i"⟩)⟩

private def twoLoops : Program :=
  ⟨#[outerLoop.instruction, innerLoop.instruction, nextOuter], [], []⟩

private def twoLoopsStart : Machine := .initial twoLoops (.ofSeed 0) (.ofBytes [])

/-- NEXT names the outer one of two loops, which goes on from one to three. -/
theorem next_continues_its_loop_of_outer :
    ∃ past m m', Reached twoLoops twoLoopsStart past 2 m ∧
      m.loops.items = [⟨⟨"j"⟩, 1⟩, ⟨⟨"i"⟩, 0⟩] ∧ perform twoLoops 2 nextOuter m = (.goOn 0, m') ∧
      m'.loops.items = [⟨⟨"i"⟩, 0⟩] ∧ ComesBack twoLoops ⟨⟨"i"⟩, 0⟩ outerLoop 1 m' ∧
      (perform twoLoops 0 outerLoop.instruction m').2.store.get? ⟨"i"⟩ = some (.integer 3) := by
  have begun : Reached twoLoops twoLoopsStart [] 0 twoLoopsStart := .start
  have entered := begun.goOn outerLoop.instruction 1 rfl rfl rfl
  have inside := entered.goOn innerLoop.instruction 2 rfl rfl rfl
  have found : twoLoops.at? 2 = some ⟨3, .next (some ⟨"i"⟩)⟩ := rfl
  obtain ⟨_, outcome⟩ := next_continues_its_loop rfl inside found rfl false
  refine ⟨_, _, _, inside, rfl, rfl, rfl, ?_⟩
  rcases outcome (.goOn 0) _ rfl with
    ⟨⟨⟩⟩ | ⟨inner, ⟨v, header⟩, outer, h, x, _, _, suits, goes, _, _, back, _⟩
  -- What the theorem says there is must be the outer loop and its value.
  obtain rfl := Frame.suits_named.mp suits
  cases goes
  obtain rfl := Header.instruction_injective (Option.some.inj back.header)
  obtain rfl : 1 = x := by
    have current := back.current
    injection current with current
    injection current
  refine ⟨back, ?_⟩
  obtain ⟨n, exact, given⟩ := back.further false 2 _ rfl (by decide)
  obtain rfl : n = 3 := Int32.toInt_inj.mp exact
  exact given

end LabelBasic
