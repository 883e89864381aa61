import LabelBasic.Proofs.Continuing
import Mathlib.Data.List.Dedup

/-!
# Values given to variables

Values are given to variables one after the other, and some are refused. What a variable holds is
the last value that it was given, and how many variables there are is how many were ever given one.
Main result: a value is refused for want of room just when all the room is taken by other variables,
or else for its kind, and then nothing changes. In the course of runs no variable loses its value or
gets one of another kind.
-/
namespace LabelBasic

namespace Store

variable {s : Store} {v : Ident} {x : Value} {past : List (Ident × Value)}

/-- The variables that have been given values. -/
def known (past : List (Ident × Value)) : List Ident := (past.map Prod.fst).dedup

theorem mem_known : v ∈ known past ↔ v ∈ past.map Prod.fst := List.mem_dedup

/-- The store holds the last of the values that its variables were given, the latest first. -/
structure Remembers (s : Store) (past : List (Ident × Value)) : Prop where
  get?_eq : ∀ v, s.get? v = past.lookup v
  size_eq : s.size = (known past).length
  size_le : s.size ≤ capacity

theorem contains_iff : s.contains v = true ↔ (s.get? v).isSome :=
  Std.TreeMap.mem_iff_isSome_getElem?

theorem size_insert (fits : x.kind = v.kind) :
    (s.insert v x fits).size = if s.contains v then s.size else s.size + 1 := by
  simp only [size, insert, contains, Std.TreeMap.size_insert, Std.TreeMap.contains_iff_mem]

namespace Remembers

theorem empty : Remembers .empty [] where
  get?_eq v := by simp [get?, Store.empty]
  size_eq := rfl
  size_le := Nat.zero_le _

theorem contains_iff (remembers : s.Remembers past) : s.contains v = true ↔ v ∈ known past := by
  rw [Store.contains_iff, remembers.get?_eq, mem_known, List.lookup_isSome_iff]
  simp

theorem room_iff (remembers : s.Remembers past) :
    (v ∈ known past ∨ (known past).length < capacity) ↔
      s.contains v = true ∨ s.size < capacity := by
  rw [remembers.contains_iff, remembers.size_eq]

/-- A value for a variable that is known, or for one that there is room for. -/
theorem insert (remembers : s.Remembers past) (fits : x.kind = v.kind)
    (room : v ∈ known past ∨ (known past).length < capacity) :
    (s.insert v x fits).Remembers ((v, x) :: past) := by
  have size_eq : (s.insert v x fits).size = (known ((v, x) :: past)).length := by
    rw [size_insert, known, List.map_cons]
    by_cases old : v ∈ known past
    · rw [if_pos (remembers.contains_iff.mpr old), List.dedup_cons_of_mem (mem_known.mp old)]
      exact remembers.size_eq
    · rw [if_neg (mt remembers.contains_iff.mp old),
        List.dedup_cons_of_notMem (mt mem_known.mpr old)]
      exact congrArg (· + 1) remembers.size_eq
  refine ⟨fun w => ?_, size_eq, ?_⟩
  · rw [get?_insert, remembers.get?_eq, List.lookup_cons]
    by_cases same : w = v
    · simp [same]
    · have apart : (w == v) = false := by simpa using same
      simp [apart, Ne.symm same]
  · rw [size_insert]
    split
    next => exact remembers.size_le
    next new =>
      have free := room.resolve_left (mt remembers.contains_iff.mpr new)
      exact Nat.succ_le_of_lt (remembers.size_eq ▸ free)

end Remembers

end Store

open Store

namespace Machine

/-- What becomes of a value that a variable is to be given. -/
inductive Assigning (past : List (Ident × Value)) (v : Ident) (x : Value) (m : Machine) :
    EStateM.Result Fault Machine Unit → Prop
  /-- All the room there is is taken by other variables. -/
  | full (new : v ∉ known past) (full : (known past).length = capacity) :
      Assigning past v x m (.error .tooManyVariables m)
  | unfit (room : v ∈ known past ∨ (known past).length < capacity) (unfit : x.kind ≠ v.kind) :
      Assigning past v x m (.error (.variableKind v x.kind) m)
  | given {store : Store} (room : v ∈ known past ∨ (known past).length < capacity)
      (fits : x.kind = v.kind) (own : store.fetch v = .ok x)
      (others : ∀ w, w ≠ v → store.fetch w = m.store.fetch w) :
      Assigning past v x m (.ok () { m with store })

/-- The machine that has tried to give variables values, the latest pair first. -/
def assignAll : List (Ident × Value) → Machine → Machine
  | [], m => m
  | (v, x) :: earlier, m => (assign v x).after (assignAll earlier m)

/-- Those pairs whose variable was given its value. -/
def accepted : List (Ident × Value) → Machine → List (Ident × Value)
  | [], _ => []
  | (v, x) :: earlier, m =>
    match assign v x (assignAll earlier m) with
    | .ok .. => (v, x) :: accepted earlier m
    | .error .. => accepted earlier m

variable {past : List (Ident × Value)} {m : Machine} {v : Ident} {x : Value}

theorem assign_of_unfit (unfit : x.kind ≠ v.kind)
    (room : m.store.contains v = true ∨ m.store.size < capacity) :
    assign v x m = .error (.variableKind v x.kind) m := by
  have fitting : ¬(!m.store.contains v && capacity ≤ m.store.size) = true := by
    rcases room with known | free
    · simp [known]
    · simp [Nat.not_le.mpr free]
  simp only [assign, Store.store, if_neg fitting, dif_neg unfit]

theorem assign_of_full (new : m.store.contains v = false) (full : capacity ≤ m.store.size) :
    assign v x m = .error .tooManyVariables m := by
  simp only [assign, Store.store, new, full, Bool.not_false, decide_true, Bool.and_true, if_true]

theorem fetch_insert_self (s : Store) (fits : x.kind = v.kind) :
    (s.insert v x fits).fetch v = .ok x := by
  simp only [Store.fetch, get?_insert, if_true]

theorem assigning (remembers : m.store.Remembers past) (v : Ident) (x : Value) :
    Assigning past v x m (assign v x m) := by
  by_cases room : v ∈ known past ∨ (known past).length < capacity
  · by_cases fits : x.kind = v.kind
    · rw [assign_of_room fits (remembers.room_iff.mp room)]
      refine .given room fits (fetch_insert_self _ fits) fun w other => ?_
      simp only [Store.fetch, get?_insert, if_neg (Ne.symm other)]
    · rw [assign_of_unfit fits (remembers.room_iff.mp room)]
      exact .unfit room fits
  · obtain ⟨new, full⟩ := not_or.mp room
    have taken : (known past).length = capacity :=
      Nat.le_antisymm (remembers.size_eq ▸ remembers.size_le) (Nat.not_lt.mp full)
    have absent := Bool.eq_false_iff.mpr (mt remembers.contains_iff.mp new)
    rw [assign_of_full absent (remembers.size_eq.trans taken).ge]
    exact .full new taken

theorem assignAll_cons_of_ok {earlier : List (Ident × Value)} {m' : Machine}
    (done : assign v x (assignAll earlier m) = .ok () m') :
    assignAll ((v, x) :: earlier) m = m' ∧
      accepted ((v, x) :: earlier) m = (v, x) :: accepted earlier m := by
  simp only [assignAll, Execution.after, accepted, done, and_self]

theorem assignAll_cons_of_error {earlier : List (Ident × Value)} {f : Fault} {m' : Machine}
    (refused : assign v x (assignAll earlier m) = .error f m') :
    assignAll ((v, x) :: earlier) m = m' ∧ accepted ((v, x) :: earlier) m = accepted earlier m := by
  simp only [assignAll, Execution.after, accepted, refused, and_self]

/-- The store holds the values that were given, and no others. -/
theorem assignAll_remembers (fresh : m.store = .empty) (pairs : List (Ident × Value)) :
    (assignAll pairs m).store.Remembers (accepted pairs m) := by
  induction pairs with
  | nil => exact fresh ▸ Remembers.empty
  | cons pair earlier ih =>
    obtain ⟨v, x⟩ := pair
    have ends := assigning ih v x
    cases outcome : assign v x (assignAll earlier m) with
    | ok u m' =>
      obtain ⟨machine, pairs⟩ := assignAll_cons_of_ok outcome
      rw [machine, pairs]
      rw [outcome] at ends
      cases ends with
      | given room fits =>
        cases (assign_of_room fits (ih.room_iff.mp room)).symm.trans outcome
        exact ih.insert fits room
    | error f m' =>
      rw [outcome] at ends
      obtain ⟨machine, pairs⟩ := assignAll_cons_of_error outcome
      rw [machine, pairs]
      cases ends <;> exact ih

theorem fetch_eq (v : Ident) (m : Machine) :
    fetch v m = match m.store.get? v with
      | some x => .ok x m
      | none => .error (.undefinedVariable v) m := by
  simp only [fetch, Store.fetch]
  cases m.store.get? v <;> rfl

/-! ### In every run -/

/-- A variable that has a value when an instruction is begun still has one later, also when runs
have ended and others have been begun. -/
theorem Reached.keeps_assigned {p : Program} {start : Machine} {visits : List Visit} {pc : Nat}
    (reached : Reached p start visits pc m) :
    ∀ visit ∈ visits, ∀ v, (visit.machine.store.get? v).isSome → (m.store.get? v).isSome := by
  induction reached with
  | start => nofun
  | signalled comes _ ih =>
    intro visit before v assigned
    rw [store_signal]
    exact ih visit before v assigned
  | turn comes reached found calm performed ih =>
    rename_i m m' i _
    obtain rfl : (perform p _ i (m.signal comes)).2 = m' := congrArg Prod.snd performed
    intro visit before v assigned
    apply assigned_of_perform
    rcases List.mem_cons.mp before with rfl | before
    · exact assigned
    · rw [store_signal]
      exact ih visit before v assigned
  | interrupted _ _ _ ih => exact ih
  | through _ _ ih => exact ih

end Machine

open Machine

/-- Variables are a map with room for so many of them. A value is refused just when the variable is
new and there is no room, or else when its kind is not that of the variable; what is refused changes
nothing, and what is not changes one variable. The value of a variable is the last one that it was
given, and there are as many variables as ever were given one. In the course of runs, whichever way
they end, a variable that has a value keeps having one, and of the same kind. -/
theorem variables_are_a_bounded_map {start : Machine} (fresh : start.store = .empty) :
    (∀ pairs,
      (∀ v x, Assigning (accepted pairs start) v x (assignAll pairs start)
        (assign v x (assignAll pairs start))) ∧
      (∀ v, fetch v (assignAll pairs start) = match (accepted pairs start).lookup v with
        | some x => .ok x (assignAll pairs start)
        | none => .error (.undefinedVariable v) (assignAll pairs start)) ∧
      (∀ v, fetch v (assignAll pairs start) =
        .error (.undefinedVariable v) (assignAll pairs start) ↔ v ∉ known (accepted pairs start)) ∧
      (assignAll pairs start).store.size = (known (accepted pairs start)).length ∧
      (assignAll pairs start).store.size ≤ 65536) ∧
    (∀ v kind, Fault.tooManyVariables.code = .outOfMemory ∧
      (Fault.variableKind v kind).code = .typeMismatch ∧
      (Fault.undefinedVariable v).code = .undefinedVariable) ∧
    ∀ p visits pc m, Reached p start visits pc m → ∀ visit ∈ visits, ∀ v x,
      visit.machine.store.get? v = some x → ∃ y, m.store.get? v = some y ∧ y.kind = x.kind := by
  refine ⟨fun pairs => ?_, fun _ _ => ⟨rfl, rfl, rfl⟩, ?_⟩
  · have remembers := assignAll_remembers fresh pairs
    refine ⟨assigning remembers, fun v => ?_, fun v => ?_, remembers.size_eq, remembers.size_le⟩
    · rw [fetch_eq, remembers.get?_eq]
    · rw [← remembers.contains_iff, Store.contains_iff, fetch_eq]
      cases (assignAll pairs start).store.get? v <;> simp
  · intro p visits pc m reached visit before v x found
    have assigned := reached.keeps_assigned visit before v (Option.isSome_of_eq_some found)
    obtain ⟨y, found'⟩ := Option.isSome_iff_exists.mp assigned
    exact ⟨y, found', (kind_of_get? found').trans (kind_of_get? found).symm⟩

private def climbing : Header :=
  ⟨1, ⟨"i"⟩, .literal (.integer 1), .literal (.integer 3), .literal (.integer 1)⟩

private def climbingProgram : Program := ⟨#[climbing.instruction, ⟨2, .next none⟩], [], []⟩

private def climbingStart : Machine := .initial climbingProgram (.ofSeed 0) (.ofBytes [])

private def offered : List (Ident × Value) :=
  [(⟨"a$"⟩, .integer 3), (⟨"a"⟩, .integer 2), (⟨"b"⟩, .integer 7), (⟨"a"⟩, .integer 1)]

/-- A value is replaced, one of another kind is refused, and a loop variable stays an integer. -/
theorem variables_are_a_bounded_map_of_a_counter :
    accepted offered climbingStart =
        [(⟨"a"⟩, .integer 2), (⟨"b"⟩, .integer 7), (⟨"a"⟩, .integer 1)] ∧
      fetch ⟨"a"⟩ (assignAll offered climbingStart) =
        .ok (.integer 2) (assignAll offered climbingStart) ∧
      (assignAll offered climbingStart).store.size = 2 ∧
      ∃ visits m y, Reached climbingProgram climbingStart visits 0 m ∧
        m.store.get? ⟨"i"⟩ = some y ∧ y.kind = .integer := by
  have begun : Reached climbingProgram climbingStart [] 0 climbingStart := .start
  have entered := begun.goOn climbing.instruction 1 rfl rfl rfl
  have back := entered.goOn ⟨2, .next none⟩ 0 rfl rfl rfl
  have fresh : climbingStart.store = .empty := rfl
  obtain ⟨memory, _, runs⟩ := variables_are_a_bounded_map fresh
  obtain ⟨_, fetched, _, size, _⟩ := memory offered
  obtain ⟨y, found, kind⟩ := runs _ _ _ _ back _ List.mem_cons_self ⟨"i"⟩ (.integer 1) rfl
  exact ⟨rfl, fetched ⟨"a"⟩, size, _, _, y, back, found, kind⟩

end LabelBasic
