import LabelBasic.Proofs.Lines.Programs

/-!
# How far the parser looks

The parser goes forward only, and what it makes of the tokens is settled by those that it uses and
the one behind them. That one is where an error is reported. Main result: no tokens behind the one
that an error is reported at could have prevented it, or else the tokens have all been used.
-/
namespace LabelBasic

variable {α β γ δ : Type}

/-! ### Settled by what is used -/

/-- What is made of the tokens depends on nothing but those that it uses and the one behind them. -/
structure Settled (used : β → Nat) (f : List Token → β) (s : List Token) : Prop where
  same : ∀ {s'}, s'.take (used (f s) + 1) = s.take (used (f s) + 1) → f s' = f s
  within : used (f s) ≤ s.length

theorem exists_cons_of_take {t : Token} {rest s' : List Token} {n : Nat}
    (same : s'.take (n + 1) = (t :: rest).take (n + 1)) :
    ∃ rest', s' = t :: rest' ∧ rest'.take n = rest.take n := by
  cases s' with
  | nil => cases same
  | cons t' rest' =>
    obtain ⟨rfl, rests⟩ := List.cons.inj same
    exact ⟨rest', rfl, rests⟩

theorem eq_nil_of_take {s' : List Token} {n : Nat} (same : s'.take (n + 1) = [].take (n + 1)) :
    s' = [] := by
  simpa using same

theorem take_eq_of_le {s s' : List Token} {m n : Nat} (same : s'.take n = s.take n) (le : m ≤ n) :
    s'.take m = s.take m := by
  have shorter := congrArg (List.take m) same
  rwa [List.take_take, List.take_take, Nat.min_eq_left le] at shorter

theorem take_drop_eq {s s' : List Token} {m n : Nat}
    (same : s'.take (n + m) = s.take (n + m)) : (s'.drop n).take m = (s.drop n).take m := by
  rw [List.take_drop, List.take_drop, same]

namespace Settled

variable {used : β → Nat} {used₁ : γ → Nat} {used₂ : δ → Nat} {f : List Token → β}
  {g : List Token → γ} {s rest : List Token} {t : Token}

theorem nil (unused : used (f []) = 0) : Settled used f [] :=
  ⟨fun same => by rw [eq_nil_of_take same], Nat.le_of_eq unused⟩

/-- The first token settles it, and is left where it is. -/
theorem first {b : β} (unused : used b = 0) (agree : ∀ rest, f (t :: rest) = b) :
    Settled used f (t :: rest) := by
  constructor
  · intro s' same
    obtain ⟨rest', rfl, _⟩ := exists_cons_of_take same
    rw [agree, agree]
  · rw [agree, unused]
    exact Nat.zero_le _

/-- The first token is used, and the others settle the rest. -/
theorem cons {h : γ → β} (agree : ∀ rest, f (t :: rest) = h (g rest))
    (count : used (h (g rest)) = 1 + used₁ (g rest)) (behind : Settled used₁ g rest) :
    Settled used f (t :: rest) := by
  constructor
  · intro s' same
    obtain ⟨rest', rfl, rests⟩ := exists_cons_of_take same
    rw [agree, count, Nat.add_comm 1] at rests
    rw [agree, agree, behind.same rests]
  · have within := behind.within
    rw [agree, count, List.length_cons]
    omega

/-- What is settled, with the first token, settles the whole. -/
theorem of_part (settled : Settled used₁ g s)
    (whole : ∀ s', s'.take 1 = s.take 1 → g s' = g s → f s' = f s)
    (count : used (f s) = used₁ (g s)) : Settled used f s := by
  refine ⟨fun same => ?_, count ▸ settled.within⟩
  rw [count] at same
  exact whole _ (take_eq_of_le same (Nat.le_add_left 1 _)) (settled.same same)

/-- One thing is made of the first tokens, and another of those that are left. -/
theorem seq {k : List Token → δ} {h : γ → δ → β} (settled : Settled used₁ g s)
    (behind : Settled used₂ k (s.drop (used₁ (g s))))
    (split : ∀ s', g s' = g s → f s' = h (g s) (k (s'.drop (used₁ (g s)))))
    (count : ∀ d, used (h (g s) d) = used₁ (g s) + used₂ d) : Settled used f s := by
  have here := split s rfl
  constructor
  · intro s' same
    rw [here, count, Nat.add_assoc] at same
    have first := settled.same (take_eq_of_le same (by omega))
    rw [split s' first, behind.same (take_drop_eq same), here]
  · have within := settled.within
    have left := behind.within
    rw [List.length_drop] at left
    rw [here, count]
    omega

end Settled

theorem Rule.LooksAhead.settled {rule : Rule α} {s : List Token} (looks : rule.LooksAhead s) :
    Settled Reply.used rule s :=
  ⟨fun same => looks.same (.of_take same),
    Nat.le_trans looks.inLine (Parse.firstLine_length_le s)⟩

namespace Parse

/-! ### Statements -/

theorem separators_settled (s : List Token) : Settled id separators s := by
  induction s with
  | nil => exact .nil rfl
  | cons t rest ih =>
    by_cases lineEnd : t.kind = .endOfLine
    · exact .cons (h := (· + 1)) (separators_cons lineEnd) (Nat.add_comm _ 1) ih
    · exact .first (b := 0) rfl (separators_cons_of_plain lineEnd)

theorem used_returnEnd (s : List Token) : (returnEnd s).used = separators s := by
  unfold returnEnd
  split
  next => rfl
  next none => exact (Decidable.not_not.mp (not_or.mp none).1).symm

theorem returnEnd_settled (s : List Token) : Settled Reply.used returnEnd s := by
  refine ⟨fun {s'} same => ?_, used_returnEnd s ▸ (separators_settled s).within⟩
  rw [used_returnEnd] at same
  have ends : separators s' = separators s := (separators_settled s).same same
  have empty : s' = [] ↔ s = [] := by
    have nothing := congrArg (· = []) same
    simpa using nothing
  simp only [returnEnd, ends, empty]

theorem startedCommand_settled (s : List Token) : Settled Reply.used startedCommand s := by
  cases s with
  | nil => exact .nil rfl
  | cons t rest =>
    by_cases lineEnd : t.kind = .endOfLine
    · refine .first (b := .absent) rfl fun rest => ?_
      simp only [startedCommand, command, lineEnd]
    by_cases ret : t.kind = .keyword .RETURN
    · refine .cons (h := Reply.after 1) (fun rest => ?_) rfl (returnEnd_settled rest)
      simp only [startedCommand, command, ret]
      rfl
    · exact (startedCommand_looksAhead lineEnd ret rest).settled

theorem statement_settled (s : List Token) : Settled Reply.used statement s := by
  induction s with
  | nil => exact .nil rfl
  | cons t rest ih =>
    by_cases label : t.kind = .label
    · refine .cons (h := fun r =>
        (r.map fun s => { s with labels := ⟨t.text, t.line⟩ :: s.labels }).after 1) ?_ ?_ ih
      · exact fun rest => by rw [statement, if_pos label]
      · simp only [Reply.after, Reply.used_map]
    · have command (rest : List Token) : statement (t :: rest) =
          (startedCommand (t :: rest)).map fun c => ⟨[], ⟨t.line, c⟩⟩ := by
        rw [statement, if_neg label]
        rfl
      refine .of_part (startedCommand_settled (t :: rest)) (fun s' first same => ?_) ?_
      · obtain ⟨rest', rfl, _⟩ := exists_cons_of_take first
        rw [command, command, same]
      · rw [command, Reply.used_map]

/-! ### Programs -/

theorem statements_eq (s : List Token) :
    statements s = .ofReply (statement s) (program (s.drop (statement s).used)) :=
  statements_of_ended rfl

theorem statements_settled {s : List Token}
    (behind : ∀ n, 0 < n → n ≤ s.length → Settled Progress.used program (s.drop n)) :
    Settled Progress.used statements s := by
  have first := statement_settled s
  cases outcome : (statement s).outcome with
  | found st =>
    have found : statement s = ⟨.found st, (statement s).used, (statement s).log⟩ := by
      rw [← outcome]
    have pos := statement_used_pos found
    refine .seq first (behind _ pos first.within) (h := Progress.ofReply) (fun s' same => ?_) ?_
    · rw [statements_eq, same]
    · exact fun more => by simp only [Progress.ofReply, outcome]
  | absent | failed =>
    refine .of_part first (fun s' _ same => ?_) ?_
    · simp only [statements_eq, Progress.ofReply, same, outcome]
    · simp only [statements_eq, Progress.ofReply, outcome]

theorem program_settled (s : List Token) : Settled Progress.used program s := by
  induction size : s.length using Nat.strongRecOn generalizing s with
  | ind n ih =>
    have statements : Settled Progress.used statements (s.drop (separators s)) := by
      refine statements_settled fun used pos within => ih _ ?_ _ rfl
      simp only [List.length_drop] at within ⊢
      omega
    refine .seq (separators_settled s) statements (h := Progress.behind) (fun s' same => ?_)
      fun _ => rfl
    rw [program, same]
    rfl

end Parse

/-! ### Where errors are reported -/

namespace Cursor

variable {ts : List Token} {n : Nat} {t : Token}

theorem place_of_token (found : ts[n]? = some t) :
    ((ofList ts).skip n).line = t.line ∧ ((ofList ts).skip n).columns = t.columns := by
  have head : (ts.drop n).head? = some t := by rw [List.head?_drop, found]
  obtain ⟨rest, behind⟩ := List.head?_eq_some_iff.mp head
  have ahead : ((ofList ts).skip n).ahead = t :: rest := behind
  rw [line, columns, ahead]
  exact ⟨rfl, rfl⟩

theorem place_of_end (last : ts.getLast? = some t) :
    ((ofList ts).skip ts.length).line = t.line ∧
      ((ofList ts).skip ts.length).columns = ⟨t.columns.stop, t.columns.stop⟩ := by
  have passed : (ofList ts).skip ts.length = ⟨some t, []⟩ := by
    simp only [ofList, skip, List.take_length, List.drop_length, last, Option.or_none]
  rw [passed]
  exact ⟨rfl, rfl⟩

end Cursor

open Parse

theorem parse_result_of_fault {ts : List Token} {f : SyntaxFault}
    (fault : (program ts).fault? = some f) :
    (parse ts).result = .error (f.report ((Cursor.ofList ts).skip (program ts).used)) := by
  rw [parse_eq, fault]

theorem fault_of_parse_error {ts : List Token} {report : Report}
    (failed : (parse ts).result = .error report) :
    ∃ f, (program ts).fault? = some f ∧
      report = f.report ((Cursor.ofList ts).skip (program ts).used) := by
  cases fault : (program ts).fault? with
  | none => simp [parse_eq, fault] at failed
  | some f =>
    rw [parse_result_of_fault fault] at failed
    exact ⟨f, rfl, (Except.error.inj failed).symm⟩

/-- A syntax error is settled by the tokens up to the one that it is reported at: whatever comes
behind that one, the same error is reported. Where there is no such token, all of them have been
used, and the error is reported at the end of the last one. -/
theorem syntax_error_settled {ts : List Token} {report : Report}
    (failed : (parse ts).result = .error report) :
    report.code = .syntaxError ∧
    ((∃ n t, n = (program ts).used ∧ ts[n]? = some t ∧
        report.line? = some t.line ∧ report.columns = t.columns ∧
        ∀ ts', ts'.take (n + 1) = ts.take (n + 1) → (parse ts').result = .error report) ∨
      (program ts).used = ts.length ∧ ∃ t, ts.getLast? = some t ∧
        report.line? = some t.line ∧ report.columns = ⟨t.columns.stop, t.columns.stop⟩) := by
  obtain ⟨f, fault, rfl⟩ := fault_of_parse_error failed
  have settled := program_settled ts
  refine ⟨rfl, ?_⟩
  rcases Nat.lt_or_eq_of_le settled.within with inside | all
  · have found : ts[(program ts).used]? = some ts[(program ts).used] :=
      List.getElem?_eq_getElem inside
    obtain ⟨line, columns⟩ := Cursor.place_of_token found
    refine .inl ⟨_, _, rfl, found, congrArg some line, columns, fun ts' same => ?_⟩
    have program_eq := settled.same same
    have found' : ts'[(program ts).used]? = some ts[(program ts).used] := by
      rw [← found, ← List.getElem?_take_of_lt (Nat.lt_succ_self _), same,
        List.getElem?_take_of_lt (Nat.lt_succ_self _)]
    obtain ⟨line', columns'⟩ := Cursor.place_of_token found'
    rw [parse_result_of_fault (program_eq ▸ fault), program_eq]
    simp only [SyntaxFault.report, line, columns, line', columns']
  · have nonempty : ts ≠ [] := by
      rintro rfl
      simp [program_nil] at fault
    have last := List.getLast?_eq_some_getLast nonempty
    obtain ⟨line, columns⟩ := Cursor.place_of_end last
    rw [← all] at line columns
    exact .inr ⟨all, _, last, congrArg some line, columns⟩

private def assigned : Token := ⟨.word, some "x", ⟨1, 0⟩⟩

private def misplaced : Token := ⟨.number, some "1", ⟨1, 2⟩⟩

/-- Where a number stands in the place of the sign of an assignment, what follows makes no
difference. -/
theorem syntax_error_settled_of_assignment :
    (parse [assigned, misplaced]).result = .error ⟨.syntaxError, some 1, ⟨2, 3⟩, "EXPECTED ="⟩ ∧
      (parse [assigned, misplaced, assigned, misplaced]).result =
        .error ⟨.syntaxError, some 1, ⟨2, 3⟩, "EXPECTED ="⟩ := by
  have unread : statements [assigned, misplaced] = ⟨[], some .expectedEquals, 1, []⟩ :=
    statements_of_failed rfl
  have given_up : program [assigned, misplaced] = ⟨[], some .expectedEquals, 1, []⟩ :=
    congrArg (Progress.behind 0) unread
  have failed : (parse [assigned, misplaced]).result =
      .error ⟨.syntaxError, some 1, ⟨2, 3⟩, "EXPECTED ="⟩ := by
    rw [parse_eq, given_up]
    rfl
  obtain ⟨_, ⟨n, _, used, _, _, _, settled⟩ | ⟨used, _⟩⟩ := syntax_error_settled failed
  · rw [given_up] at used
    subst used
    exact ⟨failed, settled _ rfl⟩
  · rw [given_up] at used
    cases used

end LabelBasic
