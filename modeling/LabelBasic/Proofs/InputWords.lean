import LabelBasic.Proofs.Conformance
import LabelBasic.Proofs.Decoding
import LabelBasic.Proofs.Grammar.Complete
import LabelBasic.Proofs.ReadInput

/-!
# The words that INPUT reads

Each variable that an INPUT comes to is offered the next word of the input, whatever lines, prompts,
instructions or runs lie between it and the one before. A word that is not read is gone all the same,
and behind the last word every further variable goes without.
-/
namespace LabelBasic

/-! ### Requests -/

/-- INPUT has come to a variable, in a machine that is to read a word for it. -/
structure Request where
  v : Ident
  machine : Machine

namespace Request

/-- The word that is offered. -/
def word? (q : Request) : Option String :=
  match q.machine.reader.next with
  | .ok w? _ => w?
  | .error _ _ => none

/-- What the word means to the variable. -/
def value? (q : Request) : Option Value := q.word?.bind (Reader.ofWord? q.v.kind)

theorem value?_of_word {q : Request} {w : String} (word : q.word? = some w) :
    q.value? = Reader.ofWord? q.v.kind w := by
  rw [value?, word, Option.bind_some]

end Request

/-- The variable, if the item is one. -/
def Expr.target? : Expr → Option Ident
  | .variable v => some v
  | _ => none

/-- The requests of an INPUT, up to where it fails. -/
def requests : List Expr → Machine → List Request
  | [], _ => []
  | e :: es, m =>
    (e.target?.map fun v => Request.mk v m).toList ++
      match Machine.inputItem e m with
      | .ok _ m' => requests es m'
      | .error _ _ => []

/-- The requests are offered the words, one each, and nothing when there are no more words. -/
def Offered (ws : List String) (asked : List Request) : Prop :=
  ∀ (k : Nat) (q : Request), asked[k]? = some q → q.word? = ws[k]?

theorem Offered.append {ws : List String} {asked later : List Request} (first : Offered ws asked)
    (second : Offered (ws.drop asked.length) later) : Offered ws (asked ++ later) := by
  intro k q there
  rw [List.getElem?_append] at there
  split at there
  · exact first k q there
  next behind =>
    rw [second _ q there, List.getElem?_drop]
    congr 1
    omega

theorem Offered.one {ws : List String} {q : Request} (word : q.word? = ws.head?) :
    Offered ws [q] := by
  intro k q' there
  cases k with
  | zero =>
    cases there
    rw [word, List.head?_eq_getElem?]
  | succ k => cases there

/-! ### One variable -/

theorem Reader.kind_of_ofWord? {kind : Kind} {w : String} {x : Value}
    (read : ofWord? kind w = some x) : x.kind = kind := by
  cases kind with
  | string =>
    cases read
    rfl
  | integer | float =>
    obtain ⟨_, _, rfl⟩ := Option.map_eq_some_iff.mp read
    rfl

/-- How a word is taken as a value, with the reader behind it. -/
def Reader.take (kind : Kind) (r : Reader) : Option String → EStateM.Result Fault Reader Value
  | none => .error .endOfInput r
  | some w =>
    match ofWord? kind w with
    | none => .error (.badInput kind w) r
    | some x => .ok x r

theorem Reader.value_of_next {kind : Kind} {r r' : Reader} {w? : Option String}
    (next : next r = .ok w? r') : value kind r = take kind r' w? := by
  cases w? with
  | none =>
    have failed : word r = .error .endOfInput r' := bind_of_ok next
    exact bind_of_error failed
  | some w =>
    have found : word r = .ok w r' := bind_of_ok next
    refine (bind_of_ok found).trans ?_
    dsimp only [take]
    cases ofWord? kind w <;> rfl

namespace Machine

variable {m m' : Machine} {v : Ident} {ws : List String} {asked : List Request}

/-- How the word for a variable is taken, and the reader goes on behind it. -/
inductive Supply (v : Ident) (m : Machine) (r : Reader) :
    Option String → EStateM.Result Fault Machine Unit → Prop
  | exhausted : Supply v m r none (.error .endOfInput { m with reader := r })
  | unfit {w : String} (unfit : Reader.ofWord? v.kind w = none) :
      Supply v m r (some w) (.error (.badInput v.kind w) { m with reader := r })
  | full {w : String} {x : Value} (read : Reader.ofWord? v.kind w = some x)
      (full : Store.capacity ≤ m.store.size) :
      Supply v m r (some w) (.error .tooManyVariables { m with reader := r })
  | stored {w : String} {x : Value} {store : Store} (read : Reader.ofWord? v.kind w = some x)
      (stored : m.store.store v x = .ok store) :
      Supply v m r (some w) (.ok () { m with reader := r, store })

theorem inputItem_supply (holds : m.reader.Holds ws) (v : Ident) :
    (Request.mk v m).word? = ws.head? ∧
      ∃ r, r.Holds ws.tail ∧ Supply v m r ws.head? (inputItem (.variable v) m) := by
  obtain ⟨r, next, rest⟩ := Reader.next_of_holds holds
  constructor
  · simp only [Request.word?, next]
  · refine ⟨r, rest, ?_⟩
    have value : Reader.value v.kind m.reader = Reader.take v.kind r ws.head? :=
      Reader.value_of_next next
    have item : inputItem (.variable v) = onReader (Reader.value v.kind) >>= assign v := rfl
    rw [item]
    -- The word is taken from the reader whatever becomes of it.
    cases word : ws.head? with
    | none =>
      have failed : onReader (Reader.value v.kind) m = .error .endOfInput { m with reader := r } := by
        simp only [onReader, onPart, value, word, Reader.take]
      rw [bind_of_error failed]
      exact .exhausted
    | some w =>
      cases read : Reader.ofWord? v.kind w with
      | none =>
        have failed : onReader (Reader.value v.kind) m =
            .error (.badInput v.kind w) { m with reader := r } := by
          simp only [onReader, onPart, value, word, Reader.take, read]
        rw [bind_of_error failed]
        exact .unfit read
      | some x =>
        have found : onReader (Reader.value v.kind) m = .ok x { m with reader := r } := by
          simp only [onReader, onPart, value, word, Reader.take, read]
        rw [bind_of_ok found, assign]
        cases stored : m.store.store v x with
        | ok store =>
          dsimp only
          exact .stored read stored
        | error f =>
          obtain ⟨rfl, full⟩ := Store.fault_of_fitting (Reader.kind_of_ofWord? read) stored
          dsimp only
          exact .full read full

/-! ### One INPUT -/

/-- The variables have been given what their words mean. -/
def Answered (s : Store) (asked : List Request) (t : Store) : Prop :=
  ∃ xs, asked.map Request.value? = xs.map some ∧ s.Given ((asked.map Request.v).zip xs) t

/-- How INPUT ends after some requests, and the machine that it leaves. -/
inductive Inquiry (items : List Expr) (s : Store) (asked : List Request) :
    Option Fault → Machine → Prop
  /-- All variables have been given values. -/
  | all {m' : Machine} (every : asked.map Request.v = items.filterMap Expr.target?)
      (answered : Answered s asked m'.store) : Inquiry items s asked none m'
  /-- There is no word for a variable. -/
  | exhausted {before : List Request} {q : Request} {m' : Machine} (last : asked = before ++ [q])
      (answered : Answered s before m'.store) (missing : q.word? = none) :
      Inquiry items s asked (some .endOfInput) m'
  /-- The word means nothing to its variable. -/
  | unfit {before : List Request} {q : Request} {w : String} {m' : Machine}
      (last : asked = before ++ [q]) (answered : Answered s before m'.store)
      (word : q.word? = some w) (unfit : Reader.ofWord? q.v.kind w = none) :
      Inquiry items s asked (some (.badInput q.v.kind w)) m'
  /-- There is no room for a variable. -/
  | full {before : List Request} {q : Request} {x : Value} {m' : Machine}
      (last : asked = before ++ [q]) (answered : Answered s before m'.store)
      (value : q.value? = some x) (full : Store.capacity ≤ m'.store.size) :
      Inquiry items s asked (some .tooManyVariables) m'

theorem Answered.nil (s : Store) : Answered s [] s := ⟨[], rfl, .nil s⟩

theorem Answered.cons {s t u : Store} {q : Request} {x : Value} (value : q.value? = some x)
    (stored : s.store q.v x = .ok t) (answered : Answered t asked u) : Answered s (q :: asked) u := by
  obtain ⟨xs, values, given⟩ := answered
  refine ⟨x :: xs, ?_, (Store.Given.of_store stored).append given⟩
  rw [List.map_cons, value, values, List.map_cons]

/-- A variable that has been given its value comes before the rest. -/
theorem Inquiry.cons {items : List Expr} {s t : Store} {q : Request} {x : Value}
    {fault? : Option Fault} (value : q.value? = some x) (stored : s.store q.v x = .ok t)
    (inquiry : Inquiry items t asked fault? m') :
    Inquiry (.variable q.v :: items) s (q :: asked) fault? m' := by
  cases inquiry with
  | all every answered => exact .all (congrArg (q.v :: ·) every) (answered.cons value stored)
  | exhausted last answered missing =>
    exact .exhausted (congrArg (q :: ·) last) (answered.cons value stored) missing
  | unfit last answered word unfit =>
    exact .unfit (congrArg (q :: ·) last) (answered.cons value stored) word unfit
  | full last answered value' full =>
    exact .full (congrArg (q :: ·) last) (answered.cons value stored) value' full

theorem Inquiry.prompt {items : List Expr} {s : Store} {fault? : Option Fault} (text : String)
    (inquiry : Inquiry items s asked fault? m') :
    Inquiry (.literal (.string text) :: items) s asked fault? m' := by
  cases inquiry with
  | all every answered => exact .all every answered
  | exhausted last answered missing => exact .exhausted last answered missing
  | unfit last answered word unfit => exact .unfit last answered word unfit
  | full last answered value full => exact .full last answered value full

/-- INPUT with these words left. -/
structure Served (items : List Expr) (ws : List String) (m : Machine) : Prop where
  offered : Offered ws (requests items m)
  ends : EndsAs (fun fault? m' => Inquiry items m.store (requests items m) fault? m' ∧
    m'.reader.Holds (ws.drop (requests items m).length))
    ((items.forM inputItem : Execution PUnit) m)

/-- INPUT ends at an item that fails. -/
theorem served_of_error {items : List Expr} {f : Fault} (word : (Request.mk v m).word? = ws.head?)
    (failed : inputItem (.variable v) m = .error f m') (rest : m'.reader.Holds ws.tail)
    (inquiry : Inquiry (.variable v :: items) m.store [⟨v, m⟩] (some f) m') :
    Served (.variable v :: items) ws m := by
  have asked : requests (.variable v :: items) m = [⟨v, m⟩] := by
    simp only [requests, failed]
    rfl
  have ended : ((Expr.variable v :: items).forM inputItem : Execution PUnit) m = .error f m' :=
    bind_of_error failed
  rw [← List.drop_one] at rest
  constructor
  · rw [asked]
    exact .one word
  · rw [asked, ended]
    exact ⟨inquiry, rest⟩

/-- INPUT goes on behind an item that is given a value. -/
theorem served_of_ok {items : List Expr} {x : Value} (word : (Request.mk v m).word? = ws.head?)
    (ran : inputItem (.variable v) m = .ok () m') (value : (Request.mk v m).value? = some x)
    (stored : m.store.store v x = .ok m'.store) (served : Served items ws.tail m') :
    Served (.variable v :: items) ws m := by
  have asked : requests (.variable v :: items) m = [⟨v, m⟩] ++ requests items m' := by
    simp only [requests, ran]
    rfl
  have goesOn : ((Expr.variable v :: items).forM inputItem : Execution PUnit) m =
      (items.forM inputItem : Execution PUnit) m' := bind_of_ok ran
  obtain ⟨offered, ends⟩ := served
  rw [← List.drop_one] at offered ends
  constructor
  · rw [asked]
    exact (Offered.one word).append offered
  · rw [asked, goesOn]
    refine ends.mono fun fault? m'' ⟨inquiry, behind⟩ => ⟨.cons value stored inquiry, ?_⟩
    rw [List.length_append, ← List.drop_drop]
    exact behind

theorem served {items : List Expr} (conform : ∀ e ∈ items, e.IsInputItem)
    (holds : m.reader.Holds ws) : Served items ws m := by
  induction items generalizing m ws with
  | nil =>
    constructor
    · exact nofun
    · exact ⟨.all rfl (.nil m.store), holds⟩
  | cons e items ih =>
    obtain ⟨first, others⟩ := List.forall_mem_cons.mp conform
    -- A prompt takes no word, a variable takes the next one.
    cases first with
    | prompt text =>
      have served : Served items ws { m with output := m.output.push text } := ih others holds
      constructor
      · exact served.offered
      · exact served.ends.mono fun _ _ => And.imp_left (.prompt text)
    | target v =>
      obtain ⟨word, r, rest, supply⟩ := inputItem_supply holds v
      generalize ran : inputItem (.variable v) m = result at supply
      generalize head : ws.head? = w? at supply
      have offered := word.trans head
      have alone : [Request.mk v m] = [] ++ [⟨v, m⟩] := rfl
      cases supply with
      | exhausted =>
        exact served_of_error word ran rest (.exhausted alone (.nil m.store) offered)
      | unfit unfit =>
        exact served_of_error word ran rest (.unfit alone (.nil m.store) offered unfit)
      | full read full =>
        have value := (Request.value?_of_word offered).trans read
        exact served_of_error word ran rest (.full alone (.nil m.store) value full)
      | stored read stored =>
        have value := (Request.value?_of_word offered).trans read
        exact served_of_ok word ran value stored (ih others rest)

end Machine

/-! ### In every run -/

/-- The requests that an instruction makes, where INPUT may be in the place of an IF. -/
def Instruction.requests (p : Program) (i : Instruction) (m : Machine) : List Request :=
  match Machine.comesTo? p Machine.branchLimit i.command m with
  | some (.input items, m') => LabelBasic.requests items m'
  | _ => []

def Visit.requests (p : Program) (visit : Visit) : List Request :=
  match p.at? visit.address with
  | some i => i.requests p visit.machine
  | none => []

/-- The requests that were made, in order. -/
def requested (p : Program) (past : List Visit) : List Request :=
  past.reverse.flatMap (Visit.requests p)

theorem requested_cons (p : Program) (visit : Visit) (past : List Visit) :
    requested p (visit :: past) = requested p past ++ visit.requests p := by
  simp [requested]

section

variable {tokens : List Token} {ss : List Statement} {pc : Nat} {i : Instruction} {m m₁ : Machine}
  {c : Command} {ws : List String}

theorem conforms_of_comesTo? (parsed : (parse tokens).result = .ok ss)
    (found : (Program.ofStatements ss).at? pc = some i)
    (comes : Machine.comesTo? (.ofStatements ss) Machine.branchLimit i.command m = some (c, m₁)) :
    c.Conforms := by
  have conforms (n : Nat) (j : Instruction) (there : (Program.ofStatements ss).at? n = some j) :
      j.command.Conforms := by
    obtain ⟨q, derived⟩ := exists_derivation_of_at? parsed there
    exact Grammar.command_conforms derived
  rcases Machine.comesTo?_mem comes with rfl | ⟨n, j, there, rfl⟩
  · exact conforms pc i found
  · exact conforms n j there

/-- INPUT makes its requests and takes their words, at its own address or in the place of an IF. -/
theorem Machine.perform_input {items : List Expr} (parsed : (parse tokens).result = .ok ss)
    (found : (Program.ofStatements ss).at? pc = some i)
    (comes : comesTo? (.ofStatements ss) branchLimit i.command m = some (.input items, m₁))
    (holds : m.reader.Holds ws) :
    Offered ws (LabelBasic.requests items m₁) ∧ ∃ fault? m',
      (Inquiry items m₁.store (LabelBasic.requests items m₁) fault? m' ∧
        m'.reader.Holds (ws.drop (LabelBasic.requests items m₁).length)) ∧
      perform (.ofStatements ss) pc i m = (Turn.ahead pc fault?, m') := by
  have same : m₁.reader = m.reader := part_of_besides apart_reader.generator (besides_of_comesTo? comes)
  rw [← same] at holds
  obtain ⟨offered, ends⟩ := served (conforms_of_comesTo? parsed found comes) holds
  exact ⟨offered, perform_of_endsAs comes (fun depth => by simp only [execute]) ends⟩

/-- Every instruction takes as many words as it makes requests. -/
theorem Machine.holds_of_perform_input (parsed : (parse tokens).result = .ok ss)
    (found : (Program.ofStatements ss).at? pc = some i) (holds : m.reader.Holds ws) :
    Offered ws (i.requests (.ofStatements ss) m) ∧
      (perform (.ofStatements ss) pc i m).2.reader.Holds
        (ws.drop (i.requests (.ofStatements ss) m).length) := by
  by_cases asks : ∃ items m₁,
      comesTo? (.ofStatements ss) branchLimit i.command m = some (.input items, m₁)
  · obtain ⟨items, m₁, comes⟩ := asks
    obtain ⟨offered, fault?, m', ⟨_, behind⟩, performed⟩ := perform_input parsed found comes holds
    simp only [Instruction.requests, comes, performed]
    exact ⟨offered, behind⟩
  · have none : i.requests (.ofStatements ss) m = [] := by
      unfold Instruction.requests
      split
      next items m₁ comes => exact absurd ⟨items, m₁, comes⟩ asks
      next => rfl
    rw [none, perform_keeps_reader fun items m₁ comes => asks ⟨items, m₁, comes⟩]
    exact ⟨nofun, holds⟩

theorem Machine.Reached.words_left {start : Machine} {past : List Visit}
    (parsed : (parse tokens).result = .ok ss) (holds : start.reader.Holds ws)
    (reached : Reached (.ofStatements ss) start past pc m) :
    Offered ws (requested (.ofStatements ss) past) ∧
      m.reader.Holds (ws.drop (requested (.ofStatements ss) past).length) := by
  induction reached with
  | start => exact ⟨nofun, holds⟩
  | signalled comes _ ih => rwa [reader_signal]
  | turn comes reached found calm performed ih =>
    rename_i past pc m m' i _
    obtain ⟨before, left⟩ := ih
    rw [← reader_signal m comes] at left
    obtain ⟨offered, behind⟩ := holds_of_perform_input parsed found left
    have here : Visit.requests (.ofStatements ss) ⟨pc, m.signal comes⟩ =
        i.requests (.ofStatements ss) (m.signal comes) := by
      simp only [Visit.requests, found]
    rw [performed, List.drop_drop, ← List.length_append, ← here, ← requested_cons] at behind
    rw [← here] at offered
    rw [requested_cons]
    exact ⟨before.append offered, requested_cons _ _ _ ▸ behind⟩
  | interrupted _ _ _ ih => exact ih
  | through _ _ ih => exact ih

end

/-- The requests that runs of a program make, however the runs end, are offered the words of the input
in order, one each, and nothing when there are no more words. An INPUT gives its variables what their
words mean, up to one whose word means nothing or for which there is none, and then fails. -/
theorem input_words_in_order {tokens : List Token} {ss : List Statement}
    (parsed : (parse tokens).result = .ok ss) {bytes : List UInt8} {text : String}
    (decoded : String.fromUTF8? bytes.toByteArray = some text) {generator : Generator}
    {past : List Visit} {pc : Nat} {m : Machine}
    (reached : Machine.Reached (.ofStatements ss)
      (.initial (.ofStatements ss) generator (.ofBytes bytes)) past pc m) :
    Offered ((words text.toList).map String.ofList) (requested (.ofStatements ss) past) ∧
      ∀ comes i items m₁, (Program.ofStatements ss).at? pc = some i →
        Machine.comesTo? (.ofStatements ss) Machine.branchLimit i.command (m.signal comes) =
          some (.input items, m₁) →
        m₁.besidesGenerator = (m.signal comes).besidesGenerator ∧
          Offered ((words text.toList).map String.ofList)
            (requested (.ofStatements ss) past ++ requests items m₁) ∧
          ∃ fault? m', Machine.Inquiry items m₁.store (requests items m₁) fault? m' ∧
            Machine.perform (.ofStatements ss) pc i (m.signal comes) =
              (Turn.ahead pc fault?, m') := by
  obtain ⟨before, left⟩ := reached.words_left parsed (Reader.holds_ofBytes decoded)
  refine ⟨before, fun comes i items m₁ found asks => ?_⟩
  rw [← Machine.reader_signal m comes] at left
  obtain ⟨offered, fault?, m', ⟨inquiry, _⟩, performed⟩ :=
    Machine.perform_input parsed found asks left
  exact ⟨Machine.besides_of_comesTo? asks, before.append offered, fault?, m', inquiry, performed⟩

private def asksTwice : List Statement :=
  [⟨[], ⟨1, .input [.literal (.string "n? "), .variable ⟨"n"⟩, .variable ⟨"t$"⟩]⟩⟩,
    ⟨[], ⟨2, .input [.variable ⟨"x"⟩]⟩⟩]

private theorem parse_asksTwice :
    (parse (lex "INPUT \"n? \", n, t$\nINPUT x").tokens).result = .ok asksTwice := by
  have tokens : (lex "INPUT \"n? \", n, t$\nINPUT x").tokens =
      [⟨.keyword .INPUT, none, ⟨1, 0⟩⟩, ⟨.string, some "n? ", ⟨1, 6⟩⟩,
        ⟨.symbol .comma, none, ⟨1, 11⟩⟩, ⟨.word, some "n", ⟨1, 13⟩⟩,
        ⟨.symbol .comma, none, ⟨1, 14⟩⟩, ⟨.word, some "t$", ⟨1, 16⟩⟩, ⟨.endOfLine, none, ⟨1, 18⟩⟩,
        ⟨.keyword .INPUT, none, ⟨2, 0⟩⟩, ⟨.word, some "x", ⟨2, 6⟩⟩] := by decide +kernel
  have derived : Grammar.DerivesProgram (lex "INPUT \"n? \", n, t$\nINPUT x").tokens asksTwice := by
    rw [tokens]
    refine .more (p := [_, _, _, _, _, _]) (.command (.promptedInput rfl rfl rfl
      (.more ⟨rfl, rfl⟩ rfl (.one ⟨rfl, rfl⟩)))) rfl ?_
    exact .last (.command (.input rfl (.one ⟨rfl, rfl⟩)))
  rw [parse_complete derived]

/-- Two lines with words, with one between them that has none. -/
private def twoLines : List UInt8 := [49, 32, 195, 169, 10, 97, 98, 10, 10, 32, 55, 32, 56, 10]

private def asksStart : Machine :=
  .initial (.ofStatements asksTwice) (.ofSeed 0) (.ofBytes twoLines)

/-- The word that the first run fails at is gone, and the second run comes to the end of the input. -/
theorem input_words_in_order_up_to_their_end :
    ∃ past m m', Machine.Reached (.ofStatements asksTwice) asksStart past 1 m ∧
      Offered ((words "1 é\nab\n\n 7 8\n".toList).map String.ofList)
        (requested (.ofStatements asksTwice) past) ∧
      (requested (.ofStatements asksTwice) past).map Request.word? =
        [some "1", some "é", some "ab", some "7", some "8"] ∧
      Machine.perform (.ofStatements asksTwice) 1 ⟨2, .input [.variable ⟨"x"⟩]⟩ m =
        (.failed .endOfInput, m') := by
  have decoded : String.fromUTF8? twoLines.toByteArray = some "1 é\nab\n\n 7 8\n" := by
    decide +kernel
  have begun : Machine.Reached (.ofStatements asksTwice) asksStart [] 0 _ := .start
  have first := begun.goOn _ 1 rfl rfl (by decide +kernel)
  have failed := first.goOn _ 0 rfl (by decide +kernel) (by decide +kernel)
  have again := failed.goOn _ 1 rfl (by decide +kernel) (by decide +kernel)
  obtain ⟨offered, asks⟩ := input_words_in_order parse_asksTwice decoded again
  obtain ⟨_, last, fault?, m', inquiry, performed⟩ := asks false _ _ _ rfl rfl
  refine ⟨_, _, m', again, offered, by decide +kernel, ?_⟩
  generalize asked_eq : requests _ _ = asked at inquiry
  have none_left : asked.map Request.word? = [none] := by
    rw [← asked_eq]
    decide +kernel
  obtain ⟨q, rfl, missing⟩ := List.map_eq_singleton_iff.mp none_left
  have nothing : q.value? = none := by rw [Request.value?, missing, Option.bind_none]
  cases inquiry with
  | exhausted => exact performed
  | all every answered =>
    obtain ⟨xs, values, _⟩ := answered
    rw [List.map_singleton, nothing] at values
    cases xs <;> cases values
  | unfit alone _ word =>
    cases (List.append_inj' (show [] ++ [q] = _ from alone) rfl).2
    cases missing.symm.trans word
  | full alone _ value =>
    cases (List.append_inj' (show [] ++ [q] = _ from alone) rfl).2
    cases nothing.symm.trans value

end LabelBasic
