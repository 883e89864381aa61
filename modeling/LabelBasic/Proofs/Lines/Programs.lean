import LabelBasic.Proofs.Lines.Rules

/-!
# Programs one below the other

Parsing goes line by line: the tokens of two programs, one below the other, are parsed as the first
program and then the second one, if the first one ends with a line end and is used to its end.
-/
namespace LabelBasic

variable {α β : Type}

/-! ### Statements further down -/

def Label.lower (k : Nat) (l : Label) : Label := { l with line := l.line + k }

def Instruction.lower (k : Nat) (i : Instruction) : Instruction := { i with line := i.line + k }

/-- The same statement `k` lines further down. -/
def Statement.lower (k : Nat) (s : Statement) : Statement :=
  ⟨s.labels.map (Label.lower k), s.instruction.lower k⟩

theorem Statement.lower_zero (s : Statement) : s.lower 0 = s := by
  have labels : s.labels.map (Label.lower 0) = s.labels := List.map_id _
  rw [lower, labels]
  rfl

open Parse

namespace Reply

/-- The reply, with the line ends behind what was found. -/
def ended (r : Reply α) (s : List Token) : Reply α :=
  r.andThen fun a n => found a (separators (s.drop n))

theorem ended_after (r : Reply α) (t : Token) (s : List Token) :
    (r.after 1).ended (t :: s) = (r.ended s).after 1 := by
  obtain ⟨outcome, used, log⟩ := r
  cases outcome with
  | absent | failed => rfl
  | found a =>
    simp only [ended, after, andThen, found, Nat.add_comm 1 used, List.drop_succ_cons]
    congr 1
    omega

theorem ended_map (f : α → β) (r : Reply α) (s : List Token) :
    (r.map f).ended s = (r.ended s).map f := by
  obtain ⟨outcome, used, log⟩ := r
  cases outcome with
  | absent | failed => rfl
  | found a => simp [ended, map, andThen, found]

theorem map_map {γ : Type} (f : α → β) (g : β → γ) (r : Reply α) :
    (r.map f).map g = r.map (g ∘ f) := by
  obtain ⟨outcome, used, log⟩ := r
  cases outcome with
  | absent | failed => rfl
  | found a => simp [map, andThen, found]

theorem map_after (f : α → β) (n : Nat) (r : Reply α) : (r.after n).map f = (r.map f).after n := by
  obtain ⟨outcome, used, log⟩ := r
  cases outcome <;> rfl

theorem map_lower_zero (r : Reply Statement) : r.map (Statement.lower 0) = r := by
  obtain ⟨outcome, used, log⟩ := r
  cases outcome with
  | absent | failed => rfl
  | found st => simp [map, andThen, found, Statement.lower_zero]

theorem used_map (f : α → β) (r : Reply α) : (r.map f).used = r.used := by
  obtain ⟨outcome, used, log⟩ := r
  cases outcome <;> rfl

/-- The reply uses a part of the first line, and not nothing if it found something. -/
structure OfLine (r : Reply α) (s : List Token) : Prop where
  inLine : r.used ≤ (firstLine s).length
  pos : ∀ a, r.outcome = .found a → 0 < r.used

namespace OfLine

variable {r : Reply α} {s : List Token} {t : Token}

theorem absent : (absent : Reply α).OfLine s := ⟨Nat.zero_le _, nofun⟩

theorem after (plain : t.kind ≠ .endOfLine) (inLine : r.used ≤ (firstLine s).length) :
    (r.after 1).OfLine (t :: s) := by
  refine ⟨?_, fun _ _ => ?_⟩
  · rw [firstLine_cons plain, List.length_cons]
    simp only [Reply.after]
    omega
  · simp only [Reply.after]
    omega

theorem map {f : α → β} (ofLine : r.OfLine s) : (r.map f).OfLine s := by
  refine ⟨used_map f r ▸ ofLine.inLine, fun b found => ?_⟩
  obtain ⟨outcome, used, log⟩ := r
  cases outcome with
  | absent | failed => cases found
  | found a => exact ofLine.pos a rfl

end OfLine

end Reply

namespace Parse

theorem firstLine_eq_nil_iff {s : List Token} : firstLine s = [] ↔ separators s ≠ 0 ∨ s = [] := by
  cases s with
  | nil => simp [firstLine]
  | cons t s =>
    by_cases lineEnd : t.kind = .endOfLine
    · simp [firstLine_cons_of_end lineEnd, separators_cons lineEnd]
    · simp [firstLine_cons lineEnd, separators_cons_of_plain lineEnd]

/-- The line ends that RETURN takes are those it could leave to what follows. -/
theorem returnEnd_ended (s : List Token) :
    (returnEnd s).ended s =
      (if firstLine s = [] then Reply.found .ret 0 else Reply.absent).ended s := by
  rw [returnEnd]
  simp only [firstLine_eq_nil_iff]
  split
  · simp [Reply.ended, Reply.andThen, Reply.found, separators_drop (Nat.le_refl (separators s))]
  · rfl

/-- A command, with the token it starts with. -/
def startedCommand : Rule Command
  | t :: rest => command t rest
  | [] => .absent

theorem startedCommand_looksAhead {t : Token} (plain : t.kind ≠ .endOfLine)
    (other : t.kind ≠ .keyword .RETURN) (rest : List Token) :
    startedCommand.LooksAhead (t :: rest) := by
  obtain ⟨kind, text, place⟩ := t
  cases kind with
  | word =>
    have value := assignment_looksAhead ⟨Token.text ⟨.word, text, place⟩⟩ rest
    exact .after plain (fun _ _ _ => rfl) value
  | keyword k =>
    cases chosen : ofKeyword k with
    | some rule =>
      have behind := ofKeyword_looksAhead (by simpa using other) chosen rest
      refine .after plain (fun _ _ _ => ?_) behind
      simp only [startedCommand, command, Token.lower, chosen]
    | none =>
      refine .first (r := .absent) plain (Nat.zero_le 1) fun _ _ _ => ?_
      simp only [startedCommand, command, Token.lower, chosen]
  | number | string | label | endOfLine | symbol =>
    exact .first (r := .absent) plain (Nat.zero_le 1) fun _ _ _ => rfl

theorem command_used_pos {t : Token} {rest : List Token} {c : Command}
    (found : (command t rest).outcome = .found c) : 0 < (command t rest).used := by
  unfold command at found ⊢
  split
  next => simp only [Reply.after]; omega
  next =>
    split
    next => simp only [Reply.after]; omega
    next none => simp [*, Reply.absent] at found
  next => simp [*, Reply.absent] at found

theorem startedCommand_empty {s : List Token} (none : firstLine s = []) :
    startedCommand s = .absent := by
  cases s with
  | nil => rfl
  | cons t rest =>
    have lineEnd : t.kind = .endOfLine := kind_of_firstLine_nil none t rfl
    simp only [startedCommand, command, lineEnd]

/-- Below a line, the command it starts with is found with the same reply, but for line ends. -/
theorem startedCommand_line (s : List Token) :
    ∃ r : Reply Command, r.OfLine s ∧ ∀ k s', SameLine k s s' →
      (startedCommand s').ended s' = r.ended s' := by
  rcases firstLine_cases s with none | ⟨t, rest, rfl, plain⟩
  · refine ⟨.absent, .absent, fun k s' same => ?_⟩
    rw [startedCommand_empty (same.nil none)]
  · by_cases ret : t.kind = .keyword .RETURN
    · refine ⟨_, .after (r := if firstLine rest = [] then .found .ret 0 else .absent) plain ?_, ?_⟩
      · split <;> exact Nat.zero_le _
      · intro k s' same
        obtain ⟨rest', rfl, rests⟩ := same.cons plain
        have empty : firstLine rest' = [] ↔ firstLine rest = [] := by
          rw [rests, List.map_eq_nil_iff]
        have chosen : startedCommand (t.lower k :: rest') = (returnEnd rest').after 1 := by
          simp only [startedCommand, command, Token.lower, ret]
          rfl
        rw [chosen, Reply.ended_after, Reply.ended_after, returnEnd_ended]
        simp only [empty]
    · have keeps := (startedCommand_looksAhead plain ret rest).keepsToLine
      refine ⟨_, ⟨keeps.inLine, fun _ found => command_used_pos found⟩, fun k s' same => ?_⟩
      rw [keeps.same same]

theorem statement_empty {s : List Token} (none : firstLine s = []) : statement s = .absent := by
  cases s with
  | nil => rfl
  | cons t rest =>
    have lineEnd : t.kind = .endOfLine := kind_of_firstLine_nil none t rfl
    have unfound := startedCommand_empty none
    simp only [startedCommand] at unfound
    rw [statement, if_neg (by simp [lineEnd]), unfound]
    rfl

theorem statement_line (s : List Token) :
    ∃ r : Reply Statement, r.OfLine s ∧ ∀ k s', SameLine k s s' →
      (statement s').ended s' = (r.map (Statement.lower k)).ended s' := by
  induction s with
  | nil =>
    refine ⟨.absent, .absent, fun k s' same => ?_⟩
    rw [statement_empty (same.nil rfl)]
    rfl
  | cons t rest ih =>
    by_cases lineEnd : t.kind = .endOfLine
    · refine ⟨.absent, .absent, fun k s' same => ?_⟩
      rw [statement_empty (same.nil (firstLine_cons_of_end lineEnd rest))]
      rfl
    by_cases label : t.kind = .label
    · obtain ⟨r, ofLine, reads⟩ := ih
      refine ⟨_, .after (r := r.map fun s => { s with labels := ⟨t.text, t.line⟩ :: s.labels })
        lineEnd ofLine.map.inLine, fun k s' same => ?_⟩
      obtain ⟨rest', rfl, rests⟩ := same.cons lineEnd
      rw [statement, if_pos (by exact label), Reply.ended_after, Reply.ended_map,
        reads k rest' rests, Reply.map_after, Reply.ended_after, ← Reply.ended_map, Reply.map_map,
        Reply.map_map]
      rfl
    · obtain ⟨r, ofLine, reads⟩ := startedCommand_line (t :: rest)
      refine ⟨r.map fun c => ⟨[], ⟨t.line, c⟩⟩, ofLine.map, fun k s' same => ?_⟩
      have found := reads k s' same
      obtain ⟨rest', rfl, _⟩ := same.cons lineEnd
      simp only [startedCommand] at found
      rw [statement, if_neg (by exact label), Reply.ended_map, found, Reply.map_map,
        Reply.ended_map]
      rfl

/-! ### Programs -/

/-- The same progress behind `n` tokens. -/
def Progress.behind (n : Nat) (p : Progress) : Progress := { p with used := n + p.used }

/-- Line ends, and the statements behind them. -/
def program (s : List Token) : Progress :=
  (statements (s.drop (separators s))).behind (separators s)

/-- The progress of a reply in front of further progress. -/
def Progress.ofReply (r : Reply Statement) (more : Progress) : Progress :=
  match r.outcome with
  | .found st => ⟨st :: more.statements, more.fault?, r.used + more.used, r.log ++ more.log⟩
  | .absent => ⟨[], none, r.used, r.log⟩
  | .failed f => ⟨[], some f, r.used, r.log⟩

def Progress.lower (k : Nat) (p : Progress) : Progress :=
  { p with statements := p.statements.map (Statement.lower k) }

theorem statements_of_ended {s : List Token} {r : Reply Statement}
    (same : (statement s).ended s = r.ended s) :
    statements s = .ofReply r (program (s.drop r.used)) := by
  obtain ⟨outcome, used, log⟩ := r
  cases here : statement s with
  | mk outcome' used' log' =>
    rw [here] at same
    -- Both replies are of one sort, as the line ends behind them change neither.
    cases outcome' <;> cases outcome <;>
      simp only [Reply.ended, Reply.andThen, Reply.found, Reply.mk.injEq, reduceCtorEq, false_and,
        Outcome.found.injEq, Outcome.failed.injEq, List.append_nil, true_and] at same
    case absent.absent =>
      obtain ⟨rfl, rfl⟩ := same
      exact statements_of_absent here
    case failed.failed =>
      obtain ⟨rfl, rfl, rfl⟩ := same
      exact statements_of_failed here
    case found.found =>
      obtain ⟨rfl, passed, rfl⟩ := same
      rw [statements_of_found here]
      simp only [Progress.ofReply, program, Progress.behind, passed, List.drop_drop, Nat.add_assoc]

theorem statements_line (s : List Token) :
    ∃ r : Reply Statement, r.OfLine s ∧ ∀ k s', SameLine k s s' →
      statements s' = .ofReply (r.map (Statement.lower k)) (program (s'.drop r.used)) := by
  obtain ⟨r, ofLine, reads⟩ := statement_line s
  refine ⟨r, ofLine, fun k s' same => ?_⟩
  rw [statements_of_ended (reads k s' same), Reply.used_map]

theorem Progress.ofReply_lower {k : Nat} {r : Reply Statement} {more more' : Progress}
    (later : ∀ st, r.outcome = .found st → more' = more.lower k) :
    ofReply (r.map (Statement.lower k)) more' = (ofReply r more).lower k := by
  obtain ⟨outcome, used, log⟩ := r
  cases outcome with
  | absent | failed => rfl
  | found st => simp [ofReply, lower, Reply.map, Reply.andThen, Reply.found, later st rfl]

theorem separators_map_lower (k : Nat) (s : List Token) :
    separators (s.map (Token.lower k)) = separators s := by
  rw [separators, List.takeWhile_map, List.length_map]
  rfl

theorem program_lower (k : Nat) (s : List Token) :
    program (s.map (Token.lower k)) = (program s).lower k := by
  induction size : s.length using Nat.strongRecOn generalizing s with
  | ind n ih =>
    obtain ⟨r, ofLine, reads⟩ := statements_line (s.drop (separators s))
    have here := reads 0 _ (.refl _)
    have below := reads k _ (.map_lower k _)
    -- A statement that is found uses a token, so the induction hypothesis is about the rest.
    have later : ∀ st, r.outcome = .found st →
        program (((s.drop (separators s)).drop r.used).map (Token.lower k)) =
          (program ((s.drop (separators s)).drop r.used)).lower k := by
      intro st found
      have pos := ofLine.pos st found
      have bound := Nat.le_trans ofLine.inLine (firstLine_length_le _)
      rw [List.length_drop] at bound
      refine ih _ ?_ _ rfl
      simp only [List.length_drop]
      omega
    rw [Reply.map_lower_zero] at here
    rw [← List.map_drop, Progress.ofReply_lower later, ← here] at below
    simp only [program, separators_map_lower, ← List.map_drop, below]
    rfl

theorem separators_le (s : List Token) : separators s ≤ s.length :=
  (List.takeWhile_prefix _).length_le

theorem separators_append_of_full {s : List Token} (full : separators s = s.length)
    (us : List Token) : separators (s ++ us) = s.length + separators us := by
  simp only [separators] at full ⊢
  rw [List.takeWhile_append, if_pos full, List.length_append]

theorem separators_append {s : List Token} (part : separators s ≠ s.length) (us : List Token) :
    separators (s ++ us) = separators s := by
  simp only [separators] at part ⊢
  rw [List.takeWhile_append, if_neg part]

theorem firstLine_length_lt {s : List Token} (closed : ∃ t ∈ s, t.kind = .endOfLine) :
    (firstLine s).length < s.length := by
  obtain ⟨t, member, lineEnd⟩ := closed
  refine Nat.lt_of_le_of_ne (firstLine_length_le s) fun same => ?_
  -- If the line were all there is, the line end would belong to it.
  have all : firstLine s = s := (List.takeWhile_prefix _).eq_of_length same
  have plain := List.all_eq_true.mp List.all_takeWhile t (all.symm ▸ member : t ∈ firstLine s)
  simp [lineEnd] at plain

/-- The tokens are nothing, or their last one is a line end. -/
def Closed (s : List Token) : Prop := ∀ t ∈ s.getLast?, t.kind = .endOfLine

theorem Closed.drop {s : List Token} (closed : Closed s) (n : Nat) : Closed (s.drop n) := by
  intro t last
  rw [List.getLast?_drop] at last
  split at last
  next => cases last
  next => exact closed t last

theorem Closed.exists {s : List Token} (closed : Closed s) (nonempty : s ≠ []) :
    ∃ t ∈ s, t.kind = .endOfLine :=
  ⟨s.getLast nonempty, List.getLast_mem nonempty,
    closed _ (List.getLast?_eq_some_getLast nonempty)⟩

theorem program_nil : program [] = ⟨[], none, 0, []⟩ := by
  simp [program, separators, Progress.behind]

theorem program_append_of_full {s : List Token} (full : separators s = s.length)
    (us : List Token) : program (s ++ us) = (program us).behind s.length := by
  simp only [program, separators_append_of_full full, List.drop_length_add_append, Progress.behind,
    Nat.add_assoc]

/-- Whatever comes below closed lines, parsing takes the same first step. -/
theorem program_append_of_part {s : List Token} (closed : Closed s)
    (part : separators s ≠ s.length) :
    ∃ r : Reply Statement, separators s + r.used < s.length ∧
      (∀ st, r.outcome = .found st → 0 < r.used) ∧ ∀ us, program (s ++ us) =
        (Progress.ofReply r (program (s.drop (separators s + r.used) ++ us))).behind
          (separators s) := by
  have shorter : separators s < s.length := Nat.lt_of_le_of_ne (separators_le s) part
  have lineEnd := (closed.drop (separators s)).exists (by simpa using shorter)
  obtain ⟨r, ofLine, reads⟩ := statements_line (s.drop (separators s))
  have bound := Nat.lt_of_le_of_lt ofLine.inLine (firstLine_length_lt lineEnd)
  rw [List.length_drop] at bound
  refine ⟨r, by omega, ofLine.pos, fun us => ?_⟩
  have step := reads 0 _ (.append lineEnd us)
  rw [Reply.map_lower_zero, List.drop_append_of_le_length (by rw [List.length_drop]; omega),
    List.drop_drop] at step
  rw [program, separators_append part, List.drop_append_of_le_length (Nat.le_of_lt shorter), step]

theorem program_append {s : List Token} (closed : Closed s)
    (faultless : (program s).fault? = none) (all : s.drop (program s).used = [])
    (us : List Token) :
    program (s ++ us) =
      ⟨(program s).statements ++ (program us).statements, (program us).fault?,
        s.length + (program us).used, (program s).log ++ (program us).log⟩ := by
  induction size : s.length using Nat.strongRecOn generalizing s with
  | ind n ih =>
    by_cases full : separators s = s.length
    · have alone := program_append_of_full full []
      rw [List.append_nil, program_nil] at alone
      rw [program_append_of_full full, alone, size]
      rfl
    · obtain ⟨r, bound, pos, step⟩ := program_append_of_part closed full
      have alone := step []
      rw [List.append_nil] at alone
      rw [alone] at faultless all ⊢
      rw [step us]
      obtain ⟨outcome, used, log⟩ := r
      cases outcome with
      | absent =>
        -- The end of the line would be left.
        have beyond : s.length ≤ separators s + used := List.drop_eq_nil_iff.mp all
        dsimp only at bound
        omega
      | failed f => cases faultless
      | found st =>
        have some : 0 < used := pos st rfl
        rw [List.append_nil] at faultless all ⊢
        dsimp only at bound
        have left : (s.drop (separators s + used)).drop
            (program (s.drop (separators s + used))).used = [] := by
          rw [List.drop_drop, Nat.add_assoc]
          exact all
        have rest := ih (s.length - (separators s + used)) (by omega) (closed.drop _) faultless left
          (List.length_drop ..)
        rw [rest]
        simp only [Progress.behind, Progress.ofReply, Progress.mk.injEq, List.cons_append,
          List.append_assoc, true_and, and_true]
        omega

end Parse

/-! ### Reports further down -/

/-- The same report of an error `k` lines further down. -/
def Report.lower (k : Nat) (r : Report) : Report := { r with line? := r.line?.map (· + k) }

/-- What stands in front of the tokens moves a cursor among them down, and no more. -/
theorem Cursor.skip_append {us : List Token} (nonempty : us ≠ []) (s : List Token) (k n : Nat) :
    let below := (Cursor.ofList (s ++ us.map (Token.lower k))).skip (s.length + n)
    let alone := (Cursor.ofList us).skip n
    below.line = alone.line + k ∧ below.columns = alone.columns := by
  simp only [skip, ofList, Option.or_none, List.take_length_add_append,
    List.drop_length_add_append, ← List.map_take, ← List.map_drop]
  cases ahead : us.drop n with
  | cons t rest => exact ⟨rfl, rfl⟩
  | nil =>
    -- All tokens are passed, and there is a last one.
    have all : us.take n = us := List.take_of_length_le (List.drop_eq_nil_iff.mp ahead)
    obtain ⟨t, last⟩ : ∃ t, us.getLast? = some t :=
      ⟨_, List.getLast?_eq_some_getLast nonempty⟩
    simp only [all, List.getLast?_append, List.getLast?_map, last, Option.map_some, Option.some_or,
      List.map_nil, line, columns]
    exact ⟨rfl, rfl⟩

open Parse

theorem parse_eq (tokens : List Token) :
    parse tokens =
      match (program tokens).fault? with
      | some f =>
        ⟨.error (f.report ((Cursor.ofList tokens).skip (program tokens).used)),
          (program tokens).log⟩
      | none =>
        ⟨.ok (program tokens).statements, (program tokens).log ++
          (tokens.drop (program tokens).used).head?.toList.map .unparsed ++
          [.parsed (program tokens).statements.length]⟩ := rfl

/-- Below closed lines that are parsed to their end, tokens are parsed as they would be alone. -/
theorem parse_append {s : List Token} {above : List Statement} (closed : Closed s)
    (parsed : (parse s).result = .ok above) (all : ∀ t, Event.unparsed t ∉ (parse s).log)
    (k : Nat) (us : List Token) :
    (parse (s ++ us.map (Token.lower k))).result =
      match (parse us).result with
      | .ok below => .ok (above ++ below.map (Statement.lower k))
      | .error report => .error (report.lower k) := by
  have faultless : (program s).fault? = none := by
    cases fault : (program s).fault? with
    | none => rfl
    | some f => simp [parse_eq, fault] at parsed
  have found : (program s).statements = above := by
    simpa [parse_eq, faultless] using parsed
  have used : s.drop (program s).used = [] := by
    cases left : s.drop (program s).used with
    | nil => rfl
    | cons t rest => exact absurd (by simp [parse_eq, faultless, left]) (all t)
  have both := program_append closed faultless used (us.map (Token.lower k))
  rw [program_lower, found] at both
  rw [parse_eq, parse_eq, both]
  cases fault : (program us).fault? with
  | none => simp [Progress.lower, fault]
  | some f =>
    have nonempty : us ≠ [] := by
      rintro rfl
      simp [program_nil] at fault
    obtain ⟨line, columns⟩ := Cursor.skip_append nonempty s k (program us).used
    simp only [Progress.lower, fault, SyntaxFault.report, line, columns]
    rfl

end LabelBasic
