import LabelBasic.Proofs.Exactness

/-!
# Parts of strings

`left$`, `right$` and `mid$` give the part of a string between two places, counted in characters from
its front. Main result: they are illegal just where there is no such part, what they give can be put
together again, and no difference and no place that they use is out of range.
-/
namespace LabelBasic

/-- The part of a string between two places. -/
inductive IsPart : String → Int → Int → String → Prop
  | intro (before part after : String) :
      IsPart (before ++ part ++ after) before.length (before.length + part.length) part

/-- The computation gives the part of the string between the places. If there is none, it is an illegal
function call. -/
inductive Cuts (s : String) (start stop : Int) : Evaluation Value → Prop
  | part {t : String} (part : IsPart s start stop t) : Cuts s start stop (pure (.string t))
  | illegal {f : Fault} (none : ¬∃ t, IsPart s start stop t) (code : f.code = .illegalFunctionCall) :
      Cuts s start stop (throw f)

namespace Builtin

/-- A call with a string and places in it. -/
def cut (f : Builtin) (s : String) (places : List Int32) : Evaluation Value :=
  f.call (.string s :: places.map .integer)

/-! ### Where the functions could leave their range

Here they are with differences and cuts that come to nothing where they would be out of range.
-/

/-- A difference that is not below zero. -/
def minus? (m n : Nat) : Option Nat := if n ≤ m then some (m - n) else none

/-- So many characters from the front, of no fewer. -/
def take? (n : Nat) (cs : List Char) : Option (List Char) :=
  if n ≤ cs.length then some (cs.take n) else none

/-- What is behind so many characters, of no fewer. -/
def drop? (n : Nat) (cs : List Char) : Option (List Char) :=
  if n ≤ cs.length then some (cs.drop n) else none

def leftOf? (s : String) (n : Int32) : Except Fault (Option String) := do
  let n ← place s n
  pure ((take? n s.toList).map String.ofList)

def rightOf? (s : String) (n : Int32) : Except Fault (Option String) := do
  let n ← place s n
  pure do
    let skipped ← minus? s.length n
    let cs ← drop? skipped s.toList
    some (String.ofList cs)

def midOf? (s : String) (start stop : Int32) : Except Fault (Option String) := do
  let start ← place s start
  let stop ← place s stop
  if stop < start then throw .endBeforeStart
  pure do
    let cs ← drop? start s.toList
    let width ← minus? stop start
    let cs ← take? width cs
    some (String.ofList cs)

end Builtin

/-- Two texts, joined. -/
def join (x y : Evaluation Value) : Evaluation Value := do
  let s ← x
  let t ← y
  ofExcept (Operator.add.apply s t)

/-! ### Parts -/

section

variable {s t u : String} {a b c : Int}

theorem isPart_iff : IsPart s a b t ↔
    ∃ i j : Nat, a = i ∧ b = j ∧ i ≤ j ∧ j ≤ s.length ∧
      t = String.ofList ((s.toList.drop i).take (j - i)) := by
  constructor
  · rintro ⟨before, _, after⟩
    refine ⟨before.length, before.length + t.length, rfl, rfl, Nat.le_add_right _ _, ?_, ?_⟩
    · simp only [String.length_append]
      omega
    · rw [String.toList_append, String.toList_append, List.append_assoc,
        ← String.length_toList, List.drop_left, Nat.add_sub_cancel_left, ← String.length_toList,
        List.take_left, String.ofList_toList]
  · rintro ⟨i, j, rfl, rfl, le, inside, rfl⟩
    -- The string is what comes before the part, the part, and what comes behind it.
    have whole : String.ofList (s.toList.take i) ++
        String.ofList ((s.toList.drop i).take (j - i)) ++ String.ofList (s.toList.drop j) = s := by
      rw [← String.toList_inj]
      simp only [String.toList_append, String.toList_ofList]
      rw [List.append_assoc, ← Nat.add_sub_cancel' le, ← List.drop_drop, Nat.add_sub_cancel_left,
        List.take_append_drop, List.take_append_drop]
    have before : (String.ofList (s.toList.take i)).length = i := by
      rw [String.length_ofList, List.length_take, String.length_toList]
      omega
    have part : (String.ofList ((s.toList.drop i).take (j - i))).length = j - i := by
      rw [String.length_ofList, List.length_take, List.length_drop, String.length_toList]
      omega
    have cut := IsPart.intro (String.ofList (s.toList.take i))
      (String.ofList ((s.toList.drop i).take (j - i))) (String.ofList (s.toList.drop j))
    have last : (i : Int) + (j - i : Nat) = j := by omega
    rwa [whole, before, part, last] at cut

theorem IsPart.unique (part : IsPart s a b t) (part' : IsPart s a b u) : u = t := by
  obtain ⟨i, j, rfl, rfl, _, _, rfl⟩ := isPart_iff.mp part
  obtain ⟨i', j', first, last, _, _, rfl⟩ := isPart_iff.mp part'
  cases Int.ofNat.inj first
  cases Int.ofNat.inj last
  rfl

theorem exists_isPart_iff : (∃ t, IsPart s a b t) ↔ 0 ≤ a ∧ a ≤ b ∧ b ≤ s.length := by
  constructor
  · rintro ⟨t, part⟩
    obtain ⟨i, j, rfl, rfl, _, _, _⟩ := isPart_iff.mp part
    omega
  · rintro ⟨first, le, last⟩
    exact ⟨_, isPart_iff.mpr ⟨a.toNat, b.toNat, by omega, by omega, by omega, by omega, rfl⟩⟩

theorem IsPart.length_eq (part : IsPart s a b t) : (t.length : Int) = b - a := by
  obtain ⟨before, _, after⟩ := part
  omega

theorem isPart_whole (s : String) : IsPart s 0 s.length s := by
  refine isPart_iff.mpr ⟨0, s.length, rfl, rfl, Nat.zero_le _, Nat.le_refl _, ?_⟩
  rw [List.drop_zero, Nat.sub_zero, ← String.length_toList, List.take_length, String.ofList_toList]

/-- Two parts side by side are a part. -/
theorem IsPart.append (part : IsPart s a b t) (next : IsPart s b c u) : IsPart s a c (t ++ u) := by
  obtain ⟨i, j, rfl, rfl, le, _, rfl⟩ := isPart_iff.mp part
  obtain ⟨j', k, same, rfl, le', inside, rfl⟩ := isPart_iff.mp next
  cases Int.ofNat.inj same
  refine isPart_iff.mpr ⟨i, k, rfl, rfl, Nat.le_trans le le', inside, ?_⟩
  have widths : k - i = (j - i) + (k - j) := by omega
  rw [widths, List.take_add, List.drop_drop, Nat.add_sub_cancel' le, String.ofList_append]

end

/-! ### The functions -/

namespace Cuts

variable {s t : String} {a b : Int} {x : Evaluation Value}

theorem eq_of_part (cuts : Cuts s a b x) (part : IsPart s a b t) : x = pure (.string t) := by
  cases cuts with
  | part part' => rw [part.unique part']
  | illegal none => exact absurd ⟨t, part⟩ none

theorem part_of_eq (cuts : Cuts s a b x) (eq : x = pure (.string t)) : IsPart s a b t := by
  have result := congrFun eq (.ofSeed 0)
  cases cuts with
  | part part =>
    cases result
    exact part
  | illegal => cases result

theorem succeeds_iff (cuts : Cuts s a b x) :
    (∃ t, x = pure (.string t)) ↔ 0 ≤ a ∧ a ≤ b ∧ b ≤ s.length := by
  rw [← exists_isPart_iff]
  exact exists_congr fun t => ⟨cuts.part_of_eq, cuts.eq_of_part⟩

end Cuts

namespace Builtin

variable {s : String} (n a b : Int32)

theorem place_cases (s : String) :
    (∃ k : Nat, n.toInt = k ∧ k ≤ s.length ∧ place s n = .ok k) ∨
      ¬(0 ≤ n.toInt ∧ n.toInt ≤ s.length) ∧ place s n = .error (.outOfRange n) := by
  by_cases inside : 0 ≤ n.toInt ∧ n.toInt ≤ s.length
  · exact .inl ⟨n.toInt.toNat, by omega, by omega, if_pos inside⟩
  · exact .inr ⟨inside, if_neg inside⟩

theorem then_ok {α β : Type} {r : Except Fault α} {f : α → Except Fault β} {x : α} (eq : r = .ok x) :
    (r >>= f) = f x := by
  rw [eq]
  rfl

theorem then_error {α β : Type} {r : Except Fault α} {f : α → Except Fault β} {fault : Fault}
    (eq : r = .error fault) : (r >>= f) = .error fault := by
  rw [eq]
  rfl

theorem cut_left (s : String) : left.cut s [n] = ofExcept ((leftOf s n).map .string) := by
  change ofExcept (leftOf s n >>= fun t => pure (Value.string t)) = _
  cases leftOf s n <;> rfl

theorem cut_right (s : String) : right.cut s [n] = ofExcept ((rightOf s n).map .string) := by
  change ofExcept (rightOf s n >>= fun t => pure (Value.string t)) = _
  cases rightOf s n <;> rfl

theorem cut_mid (s : String) : mid.cut s [a, b] = ofExcept ((midOf s a b).map .string) := by
  change ofExcept (midOf s a b >>= fun t => pure (Value.string t)) = _
  cases midOf s a b <;> rfl

/-- The function of places gives the part, and all its steps are in range. -/
structure IsCutting (s : String) (start stop : Int) (r : Except Fault String)
    (r? : Except Fault (Option String)) : Prop where
  cuts : Cuts s start stop (ofExcept (r.map .string))
  inRange : r? = r.map some

section

variable {start stop : Int} {r : Except Fault String} {r? : Except Fault (Option String)}

theorem IsCutting.of_ok {t : String} (part : IsPart s start stop t) (result : r = .ok t)
    (result? : r? = .ok (some t)) : IsCutting s start stop r r? := by
  subst result result?
  exact ⟨.part part, rfl⟩

theorem IsCutting.of_error {f : Fault} (result : r = .error f) (result? : r? = .error f)
    (code : f.code = .illegalFunctionCall) (none : ¬(0 ≤ start ∧ start ≤ stop ∧ stop ≤ s.length)) :
    IsCutting s start stop r r? := by
  subst result result?
  exact ⟨.illegal (mt exists_isPart_iff.mp none) code, rfl⟩

end

theorem leftOf_isCutting (s : String) : IsCutting s 0 n.toInt (leftOf s n) (leftOf? s n) := by
  rcases place_cases n s with ⟨k, value, inside, placed⟩ | ⟨outside, placed⟩
  · have front : take? k s.toList = some (s.toList.take k) :=
      if_pos (String.length_toList ▸ inside)
    rw [value]
    refine .of_ok (isPart_iff.mpr ⟨0, k, rfl, rfl, Nat.zero_le k, inside, rfl⟩) (then_ok placed) ?_
    refine (then_ok placed).trans ?_
    rw [front]
    rfl
  · exact .of_error (then_error placed) (then_error placed) rfl (by omega)

theorem rightOf_isCutting (s : String) :
    IsCutting s (s.length - n.toInt) s.length (rightOf s n) (rightOf? s n) := by
  rcases place_cases n s with ⟨k, value, inside, placed⟩ | ⟨outside, placed⟩
  · have part : IsPart s (s.length - k) s.length
        (String.ofList (s.toList.drop (s.length - k))) := by
      refine isPart_iff.mpr ⟨s.length - k, s.length, by omega, rfl, by omega, Nat.le_refl _, ?_⟩
      rw [List.take_of_length_le (Nat.le_of_eq (by rw [List.length_drop, String.length_toList]))]
    have skipped : minus? s.length k = some (s.length - k) := if_pos inside
    have behind : drop? (s.length - k) s.toList = some (s.toList.drop (s.length - k)) :=
      if_pos (String.length_toList ▸ Nat.sub_le _ _)
    rw [value]
    refine .of_ok part (then_ok placed) ((then_ok placed).trans ?_)
    simp only [skipped, behind, Option.bind_eq_bind, Option.bind_some]
    rfl
  · exact .of_error (then_error placed) (then_error placed) rfl (by omega)

theorem midOf_isCutting (s : String) :
    IsCutting s a.toInt b.toInt (midOf s a b) (midOf? s a b) := by
  rcases place_cases a s with ⟨i, first, inside, placed⟩ | ⟨outside, placed⟩
  · rcases place_cases b s with ⟨j, last, inside', placed'⟩ | ⟨outside, placed'⟩
    · by_cases before : j < i
      · exact .of_error ((then_ok placed).trans ((then_ok placed').trans (if_pos before)))
          ((then_ok placed).trans ((then_ok placed').trans (if_pos before))) rfl (by omega)
      · have le := Nat.not_lt.mp before
        have behind : drop? i s.toList = some (s.toList.drop i) :=
          if_pos (String.length_toList ▸ inside)
        have width : minus? j i = some (j - i) := if_pos le
        have front : take? (j - i) (s.toList.drop i) = some ((s.toList.drop i).take (j - i)) :=
          if_pos (by rw [List.length_drop, String.length_toList]; omega)
        rw [first, last]
        refine .of_ok (isPart_iff.mpr ⟨i, j, rfl, rfl, le, inside', rfl⟩)
          ((then_ok placed).trans ((then_ok placed').trans (if_neg before)))
          ((then_ok placed).trans ((then_ok placed').trans ((if_neg before).trans ?_)))
        simp only [behind, width, front, Option.bind_eq_bind, Option.bind_some]
        rfl
    · exact .of_error ((then_ok placed).trans (then_error placed'))
        ((then_ok placed).trans (then_error placed')) rfl (by omega)
  · exact .of_error (then_error placed) (then_error placed) rfl (by omega)

theorem left_cuts (s : String) : Cuts s 0 n.toInt (left.cut s [n]) := by
  rw [cut_left]
  exact (leftOf_isCutting n s).cuts

theorem right_cuts (s : String) : Cuts s (s.length - n.toInt) s.length (right.cut s [n]) := by
  rw [cut_right]
  exact (rightOf_isCutting n s).cuts

theorem mid_cuts (s : String) : Cuts s a.toInt b.toInt (mid.cut s [a, b]) := by
  rw [cut_mid]
  exact (midOf_isCutting a b s).cuts

/-! ### Parts that fit together -/

theorem left_eq_mid {n : Int32} (inside : 0 ≤ n.toInt ∧ n.toInt ≤ s.length) :
    left.cut s [n] = mid.cut s [0, n] := by
  have zero : (0 : Int32).toInt = 0 := rfl
  obtain ⟨t, part⟩ := exists_isPart_iff.mpr ⟨Int.le_refl 0, inside⟩
  rw [(left_cuts n s).eq_of_part part, (mid_cuts 0 n s).eq_of_part (zero ▸ part)]

theorem right_eq_mid {n rest all : Int32} (behind : rest.toInt = s.length - n.toInt)
    (length : all.toInt = s.length) (inside : 0 ≤ n.toInt ∧ n.toInt ≤ s.length) :
    right.cut s [n] = mid.cut s [rest, all] := by
  have cuts := mid_cuts rest all s
  rw [behind, length] at cuts
  obtain ⟨t, part⟩ : ∃ t, IsPart s (s.length - n.toInt) s.length t :=
    exists_isPart_iff.mpr ⟨by omega, by omega, Int.le_refl _⟩
  rw [(right_cuts n s).eq_of_part part, cuts.eq_of_part part]

theorem mid_join_mid {a b c : Int32} (ordered : 0 ≤ a.toInt ∧ a.toInt ≤ b.toInt ∧ b.toInt ≤ c.toInt)
    (inside : c.toInt ≤ s.length) :
    join (mid.cut s [a, b]) (mid.cut s [b, c]) = mid.cut s [a, c] := by
  obtain ⟨t, part⟩ : ∃ t, IsPart s a.toInt b.toInt t := exists_isPart_iff.mpr (by omega)
  obtain ⟨u, next⟩ : ∃ u, IsPart s b.toInt c.toInt u := exists_isPart_iff.mpr (by omega)
  rw [(mid_cuts a b s).eq_of_part part, (mid_cuts b c s).eq_of_part next,
    (mid_cuts a c s).eq_of_part (part.append next)]
  rfl

theorem left_join_right {n rest : Int32} (behind : rest.toInt = s.length - n.toInt)
    (inside : 0 ≤ n.toInt ∧ n.toInt ≤ s.length) :
    join (left.cut s [n]) (right.cut s [rest]) = pure (.string s) := by
  have cuts := right_cuts rest s
  rw [behind, Int.sub_sub_self] at cuts
  obtain ⟨t, front⟩ := exists_isPart_iff.mpr ⟨Int.le_refl 0, inside⟩
  obtain ⟨u, back⟩ : ∃ u, IsPart s n.toInt s.length u := exists_isPart_iff.mpr (by omega)
  rw [(left_cuts n s).eq_of_part front, cuts.eq_of_part back,
    (front.append back).unique (isPart_whole s)]
  rfl

end Builtin

open Builtin

/-- The functions give the parts of a string between two of its places, counted in characters of any
script. They succeed just where there are such places, and are illegal calls otherwise; no difference
and no cut that they make is out of range. The parts fit together. -/
theorem substrings_fit_together {s : String} (short : s.length ≤ 2147483647) (n a b c : Int32) :
    (Cuts s 0 n.toInt (left.cut s [n]) ∧ Cuts s (s.length - n.toInt) s.length (right.cut s [n]) ∧
      Cuts s a.toInt b.toInt (mid.cut s [a, b])) ∧
    ((∃ t, left.cut s [n] = pure (.string t)) ↔ 0 ≤ n.toInt ∧ n.toInt ≤ s.length) ∧
    ((∃ t, right.cut s [n] = pure (.string t)) ↔ 0 ≤ n.toInt ∧ n.toInt ≤ s.length) ∧
    ((∃ t, mid.cut s [a, b] = pure (.string t)) ↔
      0 ≤ a.toInt ∧ a.toInt ≤ b.toInt ∧ b.toInt ≤ s.length) ∧
    (leftOf? s n = (leftOf s n).map some ∧ rightOf? s n = (rightOf s n).map some ∧
      midOf? s a b = (midOf s a b).map some) ∧
    (0 ≤ n.toInt ∧ n.toInt ≤ s.length →
      join (left.cut s [n]) (right.cut s [.ofInt (s.length - n.toInt)]) = pure (.string s) ∧
      left.cut s [n] = mid.cut s [0, n] ∧
      right.cut s [n] = mid.cut s [.ofInt (s.length - n.toInt), .ofInt s.length]) ∧
    (0 ≤ a.toInt ∧ a.toInt ≤ b.toInt ∧ b.toInt ≤ c.toInt ∧ c.toInt ≤ s.length →
      join (mid.cut s [a, b]) (mid.cut s [b, c]) = mid.cut s [a, c]) ∧
    ∀ t, mid.cut s [a, b] = pure (.string t) → (t.length : Int) = b.toInt - a.toInt := by
  have value {k : Int} (least : 0 ≤ k) (greatest : k ≤ s.length) : (Int32.ofInt k).toInt = k :=
    toInt_ofInt_of_inRange ⟨by omega, by omega⟩
  have left := left_cuts n s
  have right := right_cuts n s
  have mid := mid_cuts a b s
  refine ⟨⟨left, right, mid⟩, ?_, ?_, mid.succeeds_iff, ⟨(leftOf_isCutting n s).inRange,
    (rightOf_isCutting n s).inRange, (midOf_isCutting a b s).inRange⟩, fun inside => ?_,
    fun ordered => mid_join_mid (by omega) (by omega), fun t eq => (mid.part_of_eq eq).length_eq⟩
  · rw [left.succeeds_iff]
    omega
  · rw [right.succeeds_iff]
    omega
  · have behind := value (k := s.length - n.toInt) (by omega) (by omega)
    have length := value (k := s.length) (by omega) (by omega)
    exact ⟨left_join_right behind inside, left_eq_mid inside, right_eq_mid behind length inside⟩

/-- A letter of two bytes is one character. -/
theorem substrings_fit_together_of_an_umlaut :
    "größe".length ≤ 2147483647 ∧
      left.cut "größe" [3] = pure (.string "grö") ∧
      join (left.cut "größe" [3]) (right.cut "größe" [2]) = pure (.string "größe") ∧
      join (mid.cut "größe" [1, 3]) (mid.cut "größe" [3, 5]) = mid.cut "größe" [1, 5] ∧
      ¬∃ t, mid.cut "größe" [3, 1] = pure (.string t) := by
  have short : "größe".length ≤ 2147483647 := by decide
  obtain ⟨_, _, _, _, _, parts, pairs, _⟩ := substrings_fit_together short 3 1 3 5
  obtain ⟨_, _, _, backwards, _⟩ := substrings_fit_together short 0 3 1 0
  exact ⟨short, rfl, (parts (by decide)).1, pairs (by decide), mt backwards.mp (by decide)⟩

end LabelBasic
