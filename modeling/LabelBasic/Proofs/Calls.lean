import LabelBasic.Proofs.Branches
import LabelBasic.Proofs.Reentry

/-!
# Calls and returns

GOSUB and RETURN match like brackets. Whatever runs a machine has been through, the addresses it has
kept to return to are those behind the GOSUBs that no RETURN has matched, in the order in which they
were run. RETURN goes back to the latest of them.
-/
namespace LabelBasic

/-! ### Brackets -/

/-- A GOSUB, with the address behind it, or a RETURN. -/
inductive Bracket where
  | call (back : Nat)
  | ret
  deriving DecidableEq, Repr

namespace Bracket

/-- Each GOSUB has its RETURN, and each RETURN its GOSUB. -/
inductive Balanced : List Bracket → Prop
  | nil : Balanced []
  | pair {inner rest : List Bracket} (back : Nat) (inside : Balanced inner)
      (behind : Balanced rest) : Balanced (.call back :: (inner ++ .ret :: rest))

/-- One of these RETURNs matches a GOSUB right before them. -/
def Answers (later : List Bracket) : Prop :=
  ∃ inner rest, Balanced inner ∧ later = inner ++ .ret :: rest

/-- Looks for the RETURN that matches a GOSUB, with `depth` GOSUBs behind it still to be matched. -/
def closes : Nat → List Bracket → Bool
  | _, [] => false
  | depth, .call _ :: later => closes (depth + 1) later
  | 0, .ret :: _ => true
  | depth + 1, .ret :: later => closes depth later

theorem closes_balanced {inner : List Bracket} (balanced : Balanced inner) (depth : Nat)
    (later : List Bracket) : closes depth (inner ++ later) = closes depth later := by
  induction balanced generalizing depth later with
  | nil => rfl
  | pair back _ _ ihInside ihBehind =>
    simp only [List.cons_append, List.append_assoc, closes, ihInside, ihBehind]

theorem exists_of_closes {depth : Nat} {later : List Bracket} (closed : closes depth later = true) :
    ∃ inner rest, Balanced inner ∧ later = inner ++ .ret :: rest ∧
      ∀ less, depth = less + 1 → closes less rest = true := by
  -- Behind a GOSUB the search comes to its RETURN first, and goes on from there.
  induction n : later.length using Nat.strongRecOn generalizing depth later with
  | ind n ih =>
    subst n
    cases later with
    | nil => cases closed
    | cons bracket later =>
      cases bracket with
      | call back =>
        have deeper : closes (depth + 1) later = true := closed
        obtain ⟨inner, later', inside, rfl, behind⟩ :=
          ih later.length (Nat.lt_succ_self _) deeper rfl
        obtain ⟨between, rest, level, rfl, more⟩ :=
          ih later'.length (by simp; omega) (behind depth rfl) rfl
        refine ⟨.call back :: (inner ++ .ret :: between), rest, .pair back inside level, ?_, more⟩
        simp
      | ret =>
        refine ⟨[], later, .nil, rfl, ?_⟩
        rintro less rfl
        exact closed

theorem closes_iff_answers {later : List Bracket} : closes 0 later = true ↔ Answers later := by
  constructor
  · intro closed
    obtain ⟨inner, rest, balanced, eq, _⟩ := exists_of_closes closed
    exact ⟨inner, rest, balanced, eq⟩
  · rintro ⟨inner, rest, balanced, rfl⟩
    rw [closes_balanced balanced]
    rfl

instance (later : List Bracket) : Decidable (Answers later) :=
  decidable_of_iff _ closes_iff_answers

/-- The addresses behind the GOSUBs that no RETURN matches, in order. -/
def unmatched : List Bracket → List Nat
  | [] => []
  | .call back :: later => if Answers later then unmatched later else back :: unmatched later
  | .ret :: later => unmatched later

theorem unmatched_balanced {inner : List Bracket} (balanced : Balanced inner)
    (later : List Bracket) : unmatched (inner ++ later) = unmatched later := by
  induction balanced generalizing later with
  | nil => rfl
  | @pair inner rest back inside _ ihInside ihBehind =>
    have answered : Answers (inner ++ .ret :: (rest ++ later)) :=
      ⟨inner, rest ++ later, inside, rfl⟩
    simp only [List.cons_append, List.append_assoc, unmatched, if_pos answered, ihInside, ihBehind]

theorem not_answers_nil : ¬Answers [] := by
  rintro ⟨inner, rest, _, eq⟩
  exact List.append_ne_nil_of_right_ne_nil inner (List.cons_ne_nil _ _) eq.symm

/-- What comes after a RETURN that answers makes no difference. -/
theorem Answers.append {later : List Bracket} (answered : Answers later) (more : List Bracket) :
    Answers (later ++ more) := by
  obtain ⟨inner, rest, balanced, rfl⟩ := answered
  exact ⟨inner, rest ++ more, balanced, by simp⟩

/-- The RETURN that answers is the last bracket, or it comes before that one. -/
theorem answers_concat {later : List Bracket} {last : Bracket}
    (answered : Answers (later ++ [last])) :
    Answers later ∨ last = .ret ∧ Balanced later := by
  obtain ⟨inner, rest, balanced, eq⟩ := answered
  rcases List.eq_nil_or_concat rest with rfl | ⟨rest, end_, rfl⟩
  · obtain ⟨rfl, same⟩ := List.append_inj' eq rfl
    cases same
    exact .inr ⟨rfl, balanced⟩
  · rw [List.concat_eq_append, ← List.cons_append, ← List.append_assoc] at eq
    exact .inl ⟨inner, rest, balanced, (List.append_inj' eq rfl).1⟩

theorem balanced_of_unmatched_nil {es : List Bracket} (none : unmatched es = [])
    (stillOpen : ¬Answers es) : Balanced es := by
  -- The first bracket is a GOSUB and has its RETURN; what is behind that is shorter.
  induction n : es.length using Nat.strongRecOn generalizing es with
  | ind n ih =>
    subst n
    cases es with
    | nil => exact .nil
    | cons bracket es =>
      cases bracket with
      | ret => exact absurd ⟨[], es, .nil, rfl⟩ stillOpen
      | call back =>
        by_cases answered : Answers es
        · simp only [unmatched, if_pos answered] at none
          obtain ⟨inner, rest, inside, rfl⟩ := answered
          rw [unmatched_balanced inside] at none
          refine .pair back inside (ih rest.length (by simp; omega) none ?_ rfl)
          rintro ⟨between, more, level, rfl⟩
          exact stillOpen ⟨_, more, .pair back inside level, by simp⟩
        · simp only [unmatched, if_neg answered] at none
          cases none

theorem unmatched_call (es : List Bracket) (back : Nat) :
    unmatched (es ++ [.call back]) = unmatched es ++ [back] := by
  induction es with
  | nil => exact if_neg not_answers_nil
  | cons bracket es ih =>
    cases bracket with
    | ret => exact ih
    | call first =>
      have same : Answers (es ++ [.call back]) ↔ Answers es := by
        refine ⟨fun answered => ?_, fun answered => answered.append _⟩
        exact (answers_concat answered).resolve_right fun last => nomatch last.1
      simp only [List.cons_append, unmatched, same, ih]
      split <;> rfl

/-- RETURN matches the latest GOSUB that none has matched. -/
theorem unmatched_ret (es : List Bracket) :
    unmatched (es ++ [.ret]) = (unmatched es).dropLast := by
  induction es with
  | nil => rfl
  | cons bracket es ih =>
    cases bracket with
    | ret => exact ih
    | call first =>
      simp only [List.cons_append, unmatched, ih]
      by_cases answered : Answers es
      · rw [if_pos answered, if_pos (answered.append _)]
      · rw [if_neg answered]
        cases eq : unmatched es with
        | nil => exact if_pos ⟨es, [], balanced_of_unmatched_nil eq answered, rfl⟩
        | cons back more =>
          have still : ¬Answers (es ++ [.ret]) := by
            intro answered'
            obtain ⟨_, balanced⟩ := (answers_concat answered').resolve_left answered
            have none := unmatched_balanced balanced []
            rw [List.append_nil, eq] at none
            cases none
          rw [if_neg still]
          rfl

example : unmatched [.ret, .call 3, .call 5, .ret, .call 8] = [3, 8] := by decide

theorem mem_of_unmatched {es : List Bracket} {back : Nat} (member : back ∈ unmatched es) :
    .call back ∈ es := by
  induction es with
  | nil => cases member
  | cons bracket es ih =>
    cases bracket with
    | ret => exact List.mem_cons_of_mem _ (ih member)
    | call first =>
      simp only [unmatched] at member
      split at member
      · exact List.mem_cons_of_mem _ (ih member)
      · rcases List.mem_cons.mp member with rfl | later
        · exact List.mem_cons_self
        · exact List.mem_cons_of_mem _ (ih later)

/-- What a bracket does to the addresses RETURN goes to. -/
def shift : Option Bracket → Stack Nat → Stack Nat
  | some (call back), calls => calls.cons back
  | some ret, calls => calls.tail
  | none, calls => calls

/-- The stack holds what is unmatched. -/
theorem fromBottom_shift {calls : Stack Nat} {es : List Bracket} (b : Option Bracket)
    (matched : calls.fromBottom = unmatched es) :
    (shift b calls).fromBottom = unmatched (es ++ b.toList) := by
  match b with
  | none => simpa [shift] using matched
  | some (call back) =>
    rw [Option.toList_some, unmatched_call, ← matched]
    exact List.reverse_cons
  | some ret =>
    rw [Option.toList_some, unmatched_ret, ← matched]
    exact List.dropLast_reverse.symm

end Bracket

/-! ### GOSUB and RETURN -/

/-- A command as a bracket. GOSUB is none if its label is not defined. -/
def Command.bracket? (p : Program) (pc : Nat) : Command → Option Bracket
  | .gosub name => (p.label? name).map fun _ => .call (pc + 1)
  | .ret => some .ret
  | _ => none

theorem Command.back_of_bracket? {p : Program} {pc back : Nat} {c : Command}
    (eq : c.bracket? p pc = some (.call back)) : back = pc + 1 := by
  cases c with
  | gosub name =>
    obtain ⟨_, _, same⟩ := Option.map_eq_some_iff.mp eq
    cases same
    rfl
  | _ => cases eq

namespace Stack

theorem tail_eq_self {α : Type} {s : Stack α} (empty : s.top? = none) : s.tail = s := by
  apply ext_items
  rw [items_tail, List.head?_eq_none_iff.mp empty]
  rfl

end Stack

namespace Machine

variable {p : Program} {pc depth : Nat} {m : Machine}

theorem gosub_calls (name : String) :
    ((gosub p pc name).after m).calls =
      Bracket.shift ((Command.gosub name).bracket? p pc) m.calls := by
  cases found : p.label? name with
  | none =>
    have missing : label p name m = .error (.undefinedLabel name) m := by
      simp only [label, found]
      rfl
    simp only [gosub, Command.bracket?, found]
    rw [Execution.after_bind_of_error missing]
    rfl
  | some target =>
    have known : label p name m = .ok target m := by
      simp only [label, found]
      rfl
    simp only [gosub, Command.bracket?, found]
    rw [Execution.after_bind_of_ok known, Execution.after_bind_pure, onCalls, Execution.after_push]
    rfl

theorem ret_of_top {back : Nat} (top : m.calls.top? = some back) :
    ret m = .ok (.jump back) { m with calls := m.calls.tail } := by
  have popped : onCalls (Stack.pop .returnWithoutGosub) m =
      .ok back { m with calls := m.calls.tail } := by
    simp only [onCalls, onPart, Stack.pop, top]
  exact bind_of_ok popped

theorem ret_of_empty (empty : m.calls.top? = none) : ret m = .error .returnWithoutGosub m := by
  have failed : onCalls (Stack.pop .returnWithoutGosub) m = .error .returnWithoutGosub m := by
    simp only [onCalls, onPart, Stack.pop, empty]
  exact bind_of_error failed

theorem ret_calls : (ret.after m).calls = m.calls.tail := by
  cases top : m.calls.top? with
  | none => rw [Execution.after_of_error (ret_of_empty top), Stack.tail_eq_self top]
  | some back => rw [Execution.after_of_ok (ret_of_top top)]

theorem loop_keeps_calls (h : Header) : Keeps calls (loop p pc h.v h.first h.last h.step) :=
  h.loop_keeps (fun _ _ => rfl) fun again =>
    .control_of_oblivious (fun _ _ => rfl) (h.test_oblivious again)

theorem execute_calls (p : Program) (pc depth : Nat) {c : Command} (other : ¬c.IsBranch)
    (m : Machine) :
    ((execute p pc depth c).after m).calls = Bracket.shift (c.bracket? p pc) m.calls := by
  cases c with
  | gosub name =>
    simp only [execute]
    exact gosub_calls name
  | ret =>
    simp only [execute]
    exact ret_calls
  | loop v first last step =>
    simp only [execute]
    exact loop_keeps_calls ⟨0, v, first, last, step⟩ m
  | next v =>
    simp only [execute]
    exact next_keeps (fun _ _ => rfl) v m
  | branch => exact absurd trivial other
  | assign | print | data | read | input | stop | whileLoop =>
    refine Keeps.control_of_oblivious (fun _ _ => rfl) (execute_oblivious p pc depth ?_) m
    exact not_false

/-- The bracket that is run when a command is performed: the command, or the one in its place. -/
def bracket? (p : Program) (pc : Nat) (c : Command) (m : Machine) : Option Bracket :=
  (comesTo? p branchLimit c m).bind fun last => last.1.bracket? p pc

theorem calls_of_besides {m' : Machine} (same : m'.besidesGenerator = m.besidesGenerator) :
    m'.calls = m.calls :=
  part_of_besides (fun _ _ => rfl) same

theorem perform_calls (i : Instruction) :
    (perform p pc i m).2.calls = Bracket.shift (bracket? p pc i.command m) m.calls := by
  rw [perform_machine]
  rcases execute_cases p pc branchLimit i.command m with
    ⟨c, m', left, comes, other, same, eq⟩ | ⟨nowhere, same⟩
  · simp only [bracket?, comes, Option.bind_some, Execution.after, eq]
    rw [← calls_of_besides same]
    exact execute_calls p pc left other m'
  · simp only [bracket?, nowhere, Option.bind_none]
    exact calls_of_besides same

/-- RETURN goes to the address on top, at its own address or in the place of an IF. -/
theorem perform_ret {i : Instruction} {m₁ : Machine}
    (ends : comesTo? p branchLimit i.command m = some (.ret, m₁)) :
    perform p pc i m =
      match m.calls.top? with
      | some back => (.goOn back, { m₁ with calls := m.calls.tail })
      | none => (.failed .returnWithoutGosub, m₁) := by
  rcases execute_cases p pc branchLimit i.command m with
    ⟨c, m', left, comes, _, same, eq⟩ | ⟨nowhere, _⟩
  · cases comes.symm.trans ends
    have calls := calls_of_besides same
    have run : execute p pc branchLimit i.command m = ret m₁ := by rw [eq]; simp only [execute]
    rw [← calls]
    cases top : m₁.calls.top? with
    | some back => simp only [perform, run, ret_of_top top]
    | none => simp only [perform, run, ret_of_empty top]
  · cases nowhere.symm.trans ends

end Machine

/-! ### In every run -/

def Visit.bracket? (p : Program) (visit : Visit) : Option Bracket :=
  (p.at? visit.address).bind fun i => visit.machine.bracket? p visit.address i.command

/-- The GOSUBs and RETURNs that were run, in order. -/
def brackets (p : Program) (past : List Visit) : List Bracket :=
  (past.filterMap (Visit.bracket? p)).reverse

theorem brackets_cons (p : Program) (visit : Visit) (past : List Visit) :
    brackets p (visit :: past) = brackets p past ++ (visit.bracket? p).toList := by
  cases eq : visit.bracket? p <;> simp [brackets, eq]

theorem address_of_brackets {p : Program} {past : List Visit} {back : Nat}
    (member : .call back ∈ brackets p past) : 1 ≤ back ∧ back ≤ p.size := by
  obtain ⟨visit, _, eq⟩ := List.mem_filterMap.mp (List.mem_reverse.mp member)
  obtain ⟨i, found, eq⟩ := Option.bind_eq_some_iff.mp eq
  obtain ⟨last, _, eq⟩ := Option.bind_eq_some_iff.mp eq
  obtain rfl := Command.back_of_bracket? eq
  have inside : visit.address < p.size := (Array.getElem?_eq_some_iff.mp found).1
  omega

namespace Machine.Reached

variable {p : Program} {start : Machine} {past : List Visit} {pc : Nat} {m : Machine}

theorem calls (closed : start.calls = .empty) (reached : Reached p start past pc m) :
    m.calls.fromBottom = Bracket.unmatched (brackets p past) := by
  induction reached with
  | start => exact closed ▸ rfl
  | signalled comes _ ih => rwa [calls_signal]
  | turn comes reached found calm performed ih =>
    rename_i past pc m m' i _
    obtain rfl : (perform p pc i (m.signal comes)).2 = m' := congrArg Prod.snd performed
    rw [perform_calls, brackets_cons]
    have here : Visit.bracket? p ⟨pc, m.signal comes⟩ =
        (m.signal comes).bracket? p pc i.command := by
      simp only [Visit.bracket?, found, Option.bind_some]
    rw [here]
    exact Bracket.fromBottom_shift _ (by rwa [calls_signal])
  | interrupted _ _ _ ih => exact ih
  | through _ _ ih => exact ih

end Machine.Reached

/-- In every machine that runs of a program come to, however they ended, the addresses to return to
are those behind the GOSUBs that no RETURN matches. RETURN goes back to the latest of them, also in
the place of an IF, and fails when there is none. -/
theorem calls_match_returns {p : Program} {start : Machine} {past : List Visit} {pc : Nat}
    {m : Machine} (closed : start.calls = .empty) (reached : Machine.Reached p start past pc m) :
    m.calls.fromBottom = Bracket.unmatched (brackets p past) ∧
      (∀ back ∈ m.calls.fromBottom, 1 ≤ back ∧ back ≤ p.size) ∧
      ∀ comes i m₁, p.at? pc = some i →
        Machine.comesTo? p Machine.branchLimit i.command (m.signal comes) = some (.ret, m₁) →
        (∀ earlier back, Bracket.unmatched (brackets p past) = earlier ++ [back] →
          ∃ m', Machine.perform p pc i (m.signal comes) = (.goOn back, m') ∧
            m'.calls.fromBottom = earlier) ∧
        ((Machine.perform p pc i (m.signal comes)).1 = .failed .returnWithoutGosub ↔
          Bracket.unmatched (brackets p past) = []) := by
  have matched := reached.calls closed
  refine ⟨matched, fun back member => ?_, fun comes i m₁ found ends => ?_⟩
  · rw [matched] at member
    exact address_of_brackets (Bracket.mem_of_unmatched member)
  · rw [Machine.perform_ret ends, Machine.calls_signal, ← matched]
    constructor
    · intro earlier back latest
      have items : m.calls.items = back :: earlier.reverse := by
        rw [← List.reverse_reverse m.calls.items]
        exact (congrArg List.reverse latest).trans List.reverse_concat
      have top : m.calls.top? = some back := by rw [Stack.top?, items]; rfl
      refine ⟨_, by rw [top], ?_⟩
      simp [Stack.fromBottom, items]
    · cases top : m.calls.top? with
      | none => simp [Stack.fromBottom, List.head?_eq_none_iff.mp top]
      | some back =>
        obtain ⟨others, items⟩ := List.head?_eq_some_iff.mp top
        simp [Stack.fromBottom, items]

private def inPlaceProgram : Program where
  instructions := #[
    ⟨1, .branch (.comparison .equal (.literal (.integer 1)) (.literal (.integer 1))) "call"⟩,
    ⟨2, .stop⟩, ⟨3, .gosub "sub"⟩, ⟨4, .stop⟩, ⟨5, .ret⟩]
  labels := [("call", 2), ("sub", 4)]
  data := []

private def inPlaceStart : Machine := .initial inPlaceProgram (.ofSeed 0) (.ofBytes [])

/-- A GOSUB in the place of an IF is returned from behind the IF. -/
theorem calls_match_returns_in_place :
    ∃ past m m', Machine.Reached inPlaceProgram inPlaceStart past 4 m ∧
      Bracket.unmatched (brackets inPlaceProgram past) = [1] ∧ m.calls.fromBottom = [1] ∧
      Machine.perform inPlaceProgram 4 ⟨5, .ret⟩ m = (.goOn 1, m') ∧ m'.calls.fromBottom = [] := by
  have begun : Machine.Reached inPlaceProgram inPlaceStart [] 0 inPlaceStart := .start
  have called := begun.goOn _ 4 rfl rfl rfl
  obtain ⟨matched, _, returns⟩ := calls_match_returns rfl called
  obtain ⟨latest, _⟩ := returns false _ _ rfl rfl
  obtain ⟨m', performed, left⟩ := latest [] 1 rfl
  exact ⟨_, _, m', called, rfl, matched, performed, left⟩

end LabelBasic
