import LabelBasic.Proofs.Conformance
import LabelBasic.Proofs.Grammar.Complete
import LabelBasic.Proofs.ReadInput
import Mathlib.Data.List.Basic

/-!
# What READ delivers

The DATA that is left is the end of what there was at first, however many runs there have been. READ
takes all that is left or is refused, and a value that does not fit ends it half way. So READ succeeds
at most once.
-/
namespace LabelBasic

namespace Machine

/-! ### READ -/

/-- READ of some variables has come to one of them and its value. Those before it have been given
theirs. -/
inductive Halfway (targets : List Ident) (m : Machine) (v : Ident) (x : Value) (left : List Value)
    (store : Store) : Prop
  | intro {before after : List Ident} {taken : List Value} (targets_eq : targets = before ++ v :: after)
      (data_eq : m.data = taken ++ x :: left) (aligned : before.length = taken.length)
      (same : targets.length = m.data.length) (given : m.store.Given (before.zip taken) store)

/-- How READ of some variables ends, and the machine that it leaves. -/
inductive Delivery (targets : List Ident) (m : Machine) : Option Fault → Machine → Prop
  /-- There are not as many values as variables. -/
  | refused (differ : targets.length ≠ m.data.length) :
      Delivery targets m (some (.outOfData targets.length m.data.length)) m
  /-- All variables have been given their values. -/
  | all {store : Store} (same : targets.length = m.data.length)
      (given : m.store.Given (targets.zip m.data) store) :
      Delivery targets m none { m with store, data := [] }
  /-- A value does not fit its variable. It is gone, with those before it. -/
  | unfit {v : Ident} {x : Value} {left : List Value} {store : Store}
      (halfway : Halfway targets m v x left store) (unfit : x.kind ≠ v.kind) :
      Delivery targets m (some (.cannotRead v x)) { m with store, data := left }
  /-- There is no room for a variable. -/
  | full {v : Ident} {x : Value} {left : List Value} {store : Store}
      (halfway : Halfway targets m v x left store) (fits : x.kind = v.kind)
      (full : Store.capacity ≤ store.size) :
      Delivery targets m (some .tooManyVariables) { m with store, data := left }

variable {targets : List Ident} {m m' : Machine} {v w : Ident} {x y : Value} {data left : List Value}
  {store store' : Store} {fault? : Option Fault}

theorem Halfway.suffix (halfway : Halfway targets m v x left store) : left <:+ m.data := by
  obtain ⟨_, data_eq, _, _, _⟩ := halfway
  rw [data_eq]
  exact (List.suffix_cons x left).trans (List.suffix_append _ _)

theorem Halfway.cons (data_eq : m.data = x :: data) (stored : m.store.store v x = .ok store)
    (halfway : Halfway targets { m with store, data } w y left store') :
    Halfway (v :: targets) m w y left store' := by
  obtain ⟨targets_eq, data_eq', aligned, same, given⟩ := halfway
  rename_i before after taken
  have targets_eq : v :: targets = (v :: before) ++ w :: after := congrArg (v :: ·) targets_eq
  have values : m.data = (x :: taken) ++ y :: left := data_eq.trans (congrArg (x :: ·) data_eq')
  refine .intro targets_eq values (congrArg (· + 1) aligned) ?_
    ((Store.Given.of_store stored).append given)
  rw [data_eq]
  exact congrArg (· + 1) same

/-- What is left is the end of what there was. -/
theorem Delivery.suffix (delivery : Delivery targets m fault? m') : m'.data <:+ m.data := by
  cases delivery with
  | refused => exact List.suffix_refl _
  | all => exact List.nil_suffix
  | unfit halfway | full halfway => exact halfway.suffix

/-- One more variable and its value, before those that are read. -/
theorem Delivery.cons (data_eq : m.data = x :: data) (same : targets.length = data.length)
    (stored : m.store.store v x = .ok store)
    (delivery : Delivery targets { m with store, data } fault? m') :
    Delivery (v :: targets) m fault? m' := by
  cases delivery with
  | refused differ => exact absurd same differ
  | all _ given =>
    apply Delivery.all
    · rw [data_eq]
      exact congrArg (· + 1) same
    · rw [data_eq]
      exact (Store.Given.of_store stored).append given
  | unfit halfway unfit => exact .unfit (halfway.cons data_eq stored) unfit
  | full halfway fits full => exact .full (halfway.cons data_eq stored) fits full

theorem readItem_cases (v : Ident) (x : Value) (m : Machine) :
    (x.kind ≠ v.kind ∧ readItem v x m = .error (.cannotRead v x) { m with data := m.data.tail }) ∨
      x.kind = v.kind ∧
        ((∃ store, m.store.store v x = .ok store ∧
          readItem v x m = .ok () { m with store, data := m.data.tail }) ∨
        Store.capacity ≤ m.store.size ∧
          readItem v x m = .error .tooManyVariables { m with data := m.data.tail }) := by
  have taken : (modify fun m => { m with data := m.data.tail } : Execution PUnit) m =
      .ok ⟨⟩ { m with data := m.data.tail } := rfl
  simp only [readItem]
  rw [bind_of_ok taken]
  by_cases fits : x.kind = v.kind
  · refine .inr ⟨fits, ?_⟩
    simp only [fits, ne_eq, not_true_eq_false, if_false, assign]
    cases stored : m.store.store v x with
    | ok store => exact .inl ⟨store, rfl, rfl⟩
    | error f =>
      obtain ⟨rfl, full⟩ := Store.fault_of_fitting fits stored
      exact .inr ⟨full, rfl⟩
  · refine .inl ⟨fits, ?_⟩
    simp only [ne_eq, fits, not_false_eq_true, if_true]
    rfl

/-- With a value for each variable, the variables are read in turn. -/
theorem readItems_delivery (targets : List Ident) (m : Machine)
    (same : targets.length = m.data.length) :
    EndsAs (Delivery targets m) (((targets.zip m.data).forM fun (v, x) => readItem v x :
      Execution PUnit) m) := by
  induction targets generalizing m with
  | nil =>
    have empty : m.data = [] := List.eq_nil_of_length_eq_zero same.symm
    have delivery := Delivery.all same (.nil m.store)
    rw [← empty] at delivery
    exact delivery
  | cons v targets ih =>
    obtain ⟨x, data, data_eq⟩ := List.exists_cons_of_length_eq_add_one same.symm
    have rest : m.data.tail = data := congrArg List.tail data_eq
    have same' : targets.length = data.length := by simpa [data_eq] using same
    have halfway : Halfway (v :: targets) m v x data m.store :=
      .intro (show v :: targets = [] ++ v :: targets from rfl)
        (show m.data = [] ++ x :: data from data_eq) rfl same (.nil m.store)
    have first : (((v :: targets).zip m.data).forM fun (v, x) => readItem v x : Execution PUnit) m =
        (readItem v x >>= fun _ => (targets.zip data).forM fun (v, x) => readItem v x) m := by
      rw [data_eq]
      rfl
    rw [first]
    rcases readItem_cases v x m with ⟨unfit, ended⟩ | ⟨fits, ⟨store, stored, ended⟩ | ⟨full, ended⟩⟩
    · rw [bind_of_error ended, rest]
      exact .unfit halfway unfit
    · rw [bind_of_ok ended, rest]
      exact (ih { m with store, data } same').mono fun _ _ => .cons data_eq same' stored
    · rw [bind_of_error ended, rest]
      exact .full halfway fits full

theorem read_delivery (targets : List Ident) (m : Machine) :
    EndsAs (Delivery targets m) (read targets m) := by
  by_cases same : targets.length = m.data.length
  · have items : read targets m =
        ((targets.zip m.data).forM fun (v, x) => readItem v x : Execution PUnit) m := by
      change (if targets.length ≠ m.data.length then _ else _ : Execution PUnit) m = _
      rw [if_neg (not_not_intro same)]
    rw [items]
    exact readItems_delivery targets m same
  · have refused : read targets m = .error (.outOfData targets.length m.data.length) m := by
      change (if targets.length ≠ m.data.length then _ else _ : Execution PUnit) m = _
      rw [if_pos same]
      rfl
    rw [refused]
    exact .refused same

variable {p : Program} {pc : Nat} {i : Instruction} {m₁ : Machine}

/-- READ delivers, at its own address or in the place of an IF. -/
theorem perform_read (comes : comesTo? p branchLimit i.command m = some (.read targets, m₁)) :
    ∃ fault? m', Delivery targets m₁ fault? m' ∧
      perform p pc i m = (Turn.ahead pc fault?, m') :=
  perform_of_endsAs comes (fun depth => by simp only [execute]) (read_delivery targets m₁)

/-- No instruction puts anything back. -/
theorem data_suffix_of_perform : (perform p pc i m).2.data <:+ m.data := by
  by_cases reads : ∃ targets m₁, comesTo? p branchLimit i.command m = some (.read targets, m₁)
  · obtain ⟨targets, m₁, comes⟩ := reads
    obtain ⟨fault?, m', delivery, performed⟩ := perform_read comes
    rw [performed, ← part_of_besides apart_data.generator (besides_of_comesTo? comes)]
    exact delivery.suffix
  · have kept : (perform p pc i m).2.data = m.data :=
      perform_keeps_data fun targets m₁ comes => reads ⟨targets, m₁, comes⟩
    exact ⟨[], kept⟩

end Machine

/-! ### In every run -/

namespace Program

/-- Each READ names a variable. -/
def ReadsSome (p : Program) : Prop :=
  ∀ n i, p.at? n = some i → ∀ targets, i.command = .read targets → targets ≠ []

theorem readsSome_ofStatements {tokens : List Token} {ss : List Statement}
    (parsed : (parse tokens).result = .ok ss) : (ofStatements ss).ReadsSome := by
  intro n i found targets reads
  obtain ⟨q, derived⟩ := exists_derivation_of_at? parsed found
  rw [reads] at derived
  cases derived with
  | read _ items => cases items <;> exact List.cons_ne_nil _ _

end Program

/-- READ was run, in the end, and succeeded. -/
def Visit.Delivers (p : Program) (visit : Visit) : Prop :=
  ∃ i targets m m', p.at? visit.address = some i ∧
    Machine.comesTo? p Machine.branchLimit i.command visit.machine = some (.read targets, m) ∧
    Machine.perform p visit.address i visit.machine = (.goOn (visit.address + 1), m')

namespace Visit.Delivers

variable {p : Program} {visit : Visit}

/-- There was a value for each of the variables, and none is left. -/
theorem exhausts (delivers : visit.Delivers p) (some : p.ReadsSome) :
    visit.machine.data ≠ [] ∧ ∀ i, p.at? visit.address = .some i →
      (Machine.perform p visit.address i visit.machine).2.data = [] := by
  obtain ⟨i, targets, m₁, m', found, comes, went⟩ := delivers
  obtain ⟨fault?, m'', delivery, performed⟩ := Machine.perform_read comes
  have named : targets ≠ [] := by
    rcases Machine.comesTo?_mem comes with same | ⟨n, j, there, same⟩
    · exact some _ i found targets same.symm
    · exact some n j there targets same
  have kept : m₁.data = visit.machine.data :=
    Machine.part_of_besides Machine.apart_data.generator (Machine.besides_of_comesTo? comes)
  cases delivery with
  | all same given =>
    constructor
    · rw [← kept, ← List.length_pos_iff, ← same, List.length_pos_iff]
      exact named
    · intro j there
      obtain rfl := Option.some.inj (found.symm.trans there)
      rw [performed]
  | refused | unfit | full => cases performed.symm.trans went

end Visit.Delivers

namespace Machine.Reached

variable {p : Program} {start m : Machine} {past : List Visit} {pc : Nat}

theorem data_suffix (reached : Reached p start past pc m) :
    m.data <:+ start.data ∧ ∀ visit ∈ past, m.data <:+ visit.machine.data := by
  induction reached with
  | start => exact ⟨List.suffix_refl _, nofun⟩
  | signalled comes _ ih => rwa [data_signal]
  | turn comes reached found calm performed ih =>
    rename_i pc m m' i _
    have shorter : (perform p pc i (m.signal comes)).2.data <:+ (m.signal comes).data :=
      data_suffix_of_perform
    rw [performed] at shorter
    rw [← data_signal m comes] at ih
    obtain ⟨whole, earlier⟩ := ih
    constructor
    · exact shorter.trans whole
    · exact List.forall_mem_cons.mpr ⟨shorter, fun visit member =>
        shorter.trans (earlier visit member)⟩
  | interrupted _ _ _ ih => exact ih
  | through _ _ ih => exact ih

/-- READ leaves no value to a later one. -/
theorem data_of_delivers (some : p.ReadsSome) (reached : Reached p start past pc m) :
    ∀ visit ∈ past, visit.Delivers p → m.data = [] := by
  induction reached with
  | start => exact nofun
  | signalled comes _ ih => rwa [data_signal]
  | turn comes reached found calm performed ih =>
    rename_i pc m m' i _
    have shorter : (perform p pc i (m.signal comes)).2.data <:+ (m.signal comes).data :=
      data_suffix_of_perform
    rw [performed] at shorter
    rw [← data_signal m comes] at ih
    refine List.forall_mem_cons.mpr ⟨fun delivers => ?_, fun visit member delivers => ?_⟩
    · have left := (delivers.exhausts some).2 i found
      rwa [performed] at left
    · rw [ih visit member delivers] at shorter
      exact List.suffix_nil.mp shorter
  | interrupted _ _ _ ih => exact ih
  | through _ _ ih => exact ih

/-- No two of the visits deliver. -/
theorem delivers_once (some : p.ReadsSome) (reached : Reached p start past pc m) :
    past.Pairwise fun later earlier => ¬(later.Delivers p ∧ earlier.Delivers p) := by
  induction reached with
  | start => exact .nil
  | signalled _ _ ih => exact ih
  | turn comes reached found calm performed ih =>
    rename_i m m' i _
    refine ih.cons fun visit member both => ?_
    have empty := reached.data_of_delivers some visit member both.2
    rw [← data_signal m comes] at empty
    exact (both.1.exhausts some).1 empty
  | interrupted _ _ _ ih => exact ih
  | through _ _ ih => exact ih

end Machine.Reached

/-- In every machine that runs of a program come to, however they ended, the DATA that is left is the
end of what the program has, and of what there was at any earlier time. Nothing but READ takes any, a
READ ends as `Delivery` says, also in the place of an IF, and no two have succeeded. -/
theorem data_delivered_in_order {tokens : List Token} {ss : List Statement}
    (parsed : (parse tokens).result = .ok ss) {generator : Generator} {reader : Reader}
    {past : List Visit} {pc : Nat} {m : Machine}
    (reached : Machine.Reached (.ofStatements ss) (.initial (.ofStatements ss) generator reader)
      past pc m) :
    m.data <:+ (Program.ofStatements ss).data ∧
      (∀ visit ∈ past, m.data <:+ visit.machine.data) ∧
      (∀ comes i,
        (∀ targets m₁, Machine.comesTo? (.ofStatements ss) Machine.branchLimit i.command
            (m.signal comes) = some (.read targets, m₁) →
          m₁.besidesGenerator = (m.signal comes).besidesGenerator ∧
            ∃ fault? m', Machine.Delivery targets m₁ fault? m' ∧
              Machine.perform (.ofStatements ss) pc i (m.signal comes) =
                (Turn.ahead pc fault?, m')) ∧
        ((∀ targets m₁, Machine.comesTo? (.ofStatements ss) Machine.branchLimit i.command
            (m.signal comes) ≠ some (.read targets, m₁)) →
          (Machine.perform (.ofStatements ss) pc i (m.signal comes)).2.data = m.data)) ∧
      past.Pairwise fun later earlier =>
        ¬(later.Delivers (.ofStatements ss) ∧ earlier.Delivers (.ofStatements ss)) := by
  obtain ⟨whole, earlier⟩ := reached.data_suffix
  refine ⟨whole, earlier, fun comes i => ⟨fun targets m₁ reads => ?_, fun other => ?_⟩,
    reached.delivers_once (Program.readsSome_ofStatements parsed)⟩
  · exact ⟨Machine.besides_of_comesTo? reads, Machine.perform_read reads⟩
  · rw [Machine.perform_keeps_data other, Machine.data_signal]

private def readsTwiceText : String :=
  "DATA 1, \"x\", 3\nFOR i = 1 TO 3\nIF i = 1 THEN three\nREAD d\nEND\nthree: READ a, b, c\nNEXT"

/-- The loop is still open in the second run, which reads elsewhere. -/
private def readsTwice : List Statement :=
  [⟨[], ⟨1, .data [.literal (.integer 1), .literal (.string "x"), .literal (.integer 3)]⟩⟩,
    ⟨[], ⟨2, .loop ⟨"i"⟩ (.literal (.integer 1)) (.literal (.integer 3)) (.literal (.integer 1))⟩⟩,
    ⟨[], ⟨3, .branch (.comparison .equal (.variable ⟨"i"⟩) (.literal (.integer 1))) "three"⟩⟩,
    ⟨[], ⟨4, .read [⟨"d"⟩]⟩⟩, ⟨[], ⟨5, .stop⟩⟩,
    ⟨[⟨"three", 6⟩], ⟨6, .read [⟨"a"⟩, ⟨"b"⟩, ⟨"c"⟩]⟩⟩, ⟨[], ⟨7, .next none⟩⟩]

private theorem parse_readsTwice :
    (parse (lex readsTwiceText).tokens).result = .ok readsTwice := by
  have tokens : (lex readsTwiceText).tokens =
      [⟨.keyword .DATA, none, ⟨1, 0⟩⟩, ⟨.number, some "1", ⟨1, 5⟩⟩,
        ⟨.symbol .comma, none, ⟨1, 6⟩⟩, ⟨.string, some "x", ⟨1, 8⟩⟩,
        ⟨.symbol .comma, none, ⟨1, 11⟩⟩, ⟨.number, some "3", ⟨1, 13⟩⟩, ⟨.endOfLine, none, ⟨1, 14⟩⟩,
        ⟨.keyword .FOR, none, ⟨2, 0⟩⟩, ⟨.word, some "i", ⟨2, 4⟩⟩,
        ⟨.symbol (.relation .equal), none, ⟨2, 6⟩⟩, ⟨.number, some "1", ⟨2, 8⟩⟩,
        ⟨.keyword .TO, none, ⟨2, 10⟩⟩, ⟨.number, some "3", ⟨2, 13⟩⟩, ⟨.endOfLine, none, ⟨2, 14⟩⟩,
        ⟨.keyword .IF, none, ⟨3, 0⟩⟩, ⟨.word, some "i", ⟨3, 3⟩⟩,
        ⟨.symbol (.relation .equal), none, ⟨3, 5⟩⟩, ⟨.number, some "1", ⟨3, 7⟩⟩,
        ⟨.keyword .THEN, none, ⟨3, 9⟩⟩, ⟨.word, some "three", ⟨3, 14⟩⟩, ⟨.endOfLine, none, ⟨3, 19⟩⟩,
        ⟨.keyword .READ, none, ⟨4, 0⟩⟩, ⟨.word, some "d", ⟨4, 5⟩⟩, ⟨.endOfLine, none, ⟨4, 6⟩⟩,
        ⟨.keyword .END, none, ⟨5, 0⟩⟩, ⟨.endOfLine, none, ⟨5, 3⟩⟩,
        ⟨.label, some "three", ⟨6, 0⟩⟩, ⟨.keyword .READ, none, ⟨6, 7⟩⟩, ⟨.word, some "a", ⟨6, 12⟩⟩,
        ⟨.symbol .comma, none, ⟨6, 13⟩⟩, ⟨.word, some "b", ⟨6, 15⟩⟩,
        ⟨.symbol .comma, none, ⟨6, 16⟩⟩, ⟨.word, some "c", ⟨6, 18⟩⟩, ⟨.endOfLine, none, ⟨6, 19⟩⟩,
        ⟨.keyword .NEXT, none, ⟨7, 0⟩⟩] := by decide +kernel
  have derived : Grammar.DerivesProgram (lex readsTwiceText).tokens readsTwice := by
    rw [tokens]
    refine .more (p := [_, _, _, _, _, _]) (.command (.data rfl
      (.more ⟨_, rfl, .inr ⟨rfl, by decide +kernel⟩⟩ rfl (.more ⟨_, rfl, .inl ⟨rfl, rfl⟩⟩ rfl
        (.one ⟨_, rfl, .inr ⟨rfl, by decide +kernel⟩⟩))))) rfl ?_
    refine .more (p := [_, _, _, _, _, _]) (.command (.loop (p := [_]) rfl rfl rfl
      (.sum (.product (.number rfl (by decide +kernel)))) rfl
      (.sum (.product (.number rfl (by decide +kernel)))))) rfl ?_
    refine .more (p := [_, _, _, _, _, _]) (.command (.branch (p := [_, _, _]) rfl
      (.intro (p := [_]) (.sum (.product (.variable rfl))) rfl
        (.sum (.product (.number rfl (by decide +kernel))))) rfl rfl)) rfl ?_
    refine .more (p := [_, _]) (.command (.read rfl (.one ⟨rfl, rfl⟩))) rfl ?_
    refine .more (p := [_]) (.command (.stop rfl)) rfl ?_
    exact .more (p := [_, _, _, _, _, _, _]) (.label rfl (.command (.read rfl
      (.more ⟨rfl, rfl⟩ rfl (.more ⟨rfl, rfl⟩ rfl (.one ⟨rfl, rfl⟩)))))) rfl
        (.last (.command (.next rfl)))
  rw [parse_complete derived]

/-- A READ that fails half way leaves one value to the second run, which another READ takes. -/
theorem data_delivered_in_order_after_a_failure :
    ∃ past m m', Machine.Reached (.ofStatements readsTwice)
        (.initial (.ofStatements readsTwice) (.ofSeed 0) (.ofBytes [])) past 3 m ∧
      (∃ visit ∈ past, (Machine.perform (.ofStatements readsTwice) visit.address
        ⟨3, .branch (.comparison .equal (.variable ⟨"i"⟩) (.literal (.integer 1))) "three"⟩
        visit.machine).1 = .failed (.cannotRead ⟨"b"⟩ (.string "x"))) ∧
      m.data = [.integer 3] ∧ m.data <:+ (Program.ofStatements readsTwice).data ∧
      Machine.Delivery [⟨"d"⟩] m none m' ∧
      Machine.perform (.ofStatements readsTwice) 3 ⟨4, .read [⟨"d"⟩]⟩ m = (.goOn 4, m') ∧
      past.Pairwise fun later earlier => ¬(later.Delivers (.ofStatements readsTwice) ∧
        earlier.Delivers (.ofStatements readsTwice)) := by
  have begun : Machine.Reached (.ofStatements readsTwice)
    (.initial (.ofStatements readsTwice) (.ofSeed 0) (.ofBytes [])) [] 0 _ := .start
  have first := (begun.goOn _ 1 rfl rfl rfl).goOn _ 2 rfl rfl rfl
  have failed := first.turn false rfl rfl rfl
  have again := ((failed.goOn _ 1 rfl rfl rfl).goOn _ 2 rfl rfl rfl).goOn _ 3 rfl rfl rfl
  obtain ⟨whole, _, reads, once⟩ := data_delivered_in_order parse_readsTwice again
  obtain ⟨_, fault?, m', delivery, performed⟩ := (reads false ⟨4, .read [⟨"d"⟩]⟩).1 _ _ rfl
  cases delivery with
  | all same given =>
    exact ⟨_, _, _, again, ⟨_, List.mem_of_getElem? (i := 3) rfl, rfl⟩, rfl, whole,
      .all same given, performed, once⟩
  | refused | unfit | full => cases performed.symm.trans rfl

end LabelBasic
