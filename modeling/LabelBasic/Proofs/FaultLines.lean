import LabelBasic.Proofs.Conformance
import LabelBasic.Proofs.Coverage
import LabelBasic.Proofs.Grammar.Complete
import LabelBasic.Proofs.Lexing
import LabelBasic.Proofs.Runs

/-!
# The line of a failure

Main result: a run that fails names the line on which the failing statement is written in the source,
counted by the line feeds in front of its command. Lexing counts them for each token, parsing takes
the line of the first token of the command, linking keeps it with the instruction, and no fault has a
line of its own.
-/
namespace LabelBasic

/-! ### Commands in the tokens -/

namespace Grammar

/-- A statement is its labels and then its command, which gives it the line of its first token. -/
theorem DerivesStatement.split {p : List Token} {s : Statement} (derived : DerivesStatement p s) :
    ∃ labels t rest, p = labels ++ t :: rest ∧ (∀ u ∈ labels, u.kind = .label) ∧
      t.kind ≠ .label := by
  induction derived with
  | command inner => exact ⟨[], _, _, rfl, nofun, (Parse.command_first inner).1⟩
  | label kind _ ih =>
    obtain ⟨labels, t, rest, rfl, kinds, plain⟩ := ih
    exact ⟨_ :: labels, t, rest, rfl, List.forall_mem_cons.mpr ⟨kind, kinds⟩, plain⟩

theorem DerivesStatement.line_eq {labels rest : List Token} {t : Token} {s : Statement}
    (derived : DerivesStatement (labels ++ t :: rest) s) (labelled : ∀ u ∈ labels, u.kind = .label)
    (plain : t.kind ≠ .label) : s.instruction.line = t.line := by
  induction labels generalizing s with
  | nil =>
    cases derived with
    | command => rfl
    | label kind => exact absurd kind plain
  | cons u labels ih =>
    obtain ⟨kind, kinds⟩ := List.forall_mem_cons.mp labelled
    cases derived with
    | command inner => exact absurd kind (Parse.command_first inner).1
    | label _ inner =>
      have same := ih inner kinds
      exact same

theorem Ends.of_append {p q : List Token} (ends : Ends (p ++ q)) : Ends p := by
  cases p with
  | nil => exact nofun
  | cons t p => exact ends

/-- The tokens of the statements before one of them, its own tokens, and those behind it. -/
theorem ConsistsOf.split {tokens r : List Token} {ss : List Statement}
    (whole : ConsistsOf tokens ss r) {n : Nat} {s : Statement} (found : ss[n]? = some s) :
    ∃ front p back, tokens = front ++ (p ++ back) ∧ ConsistsOf front (ss.take n) [] ∧
      DerivesStatement p s ∧ ConsistsOf back (ss.drop (n + 1)) r := by
  induction whole generalizing n with
  | rest r => cases found
  | lineEnd kind _ ih =>
    obtain ⟨front, p, back, rfl, before, derived, behind⟩ := ih found
    exact ⟨_ :: front, p, back, rfl, .lineEnd kind before, derived, behind⟩
  | statement derived inLine closed more ih =>
    cases n with
    | zero =>
      cases found
      exact ⟨[], _, _, rfl, .rest [], derived, more⟩
    | succ n =>
      obtain ⟨front, p, back, rfl, before, derived', behind⟩ := ih found
      refine ⟨_ ++ front, p, back, (List.append_assoc ..).symm, ?_, derived', behind⟩
      exact .statement derived inLine (fun ret => (closed ret).of_append) before

end Grammar

/-! ### Commands in the source -/

/-- Each token is made of a lexeme, at the place to which the lexemes before it lead. -/
theorem exists_lexeme_of_tokensAt {p : Position} {ls : List Lexeme} {front back : List Token}
    {t : Token} (made : tokensAt p ls = front ++ t :: back) :
    ∃ above l below, ls = above ++ l :: below ∧ tokensAt p above = front ∧
      l.token? (placeAfter p above) = some t ∧
      tokensAt (l.next (placeAfter p above)) below = back := by
  induction ls generalizing p front with
  | nil => exact absurd made.symm (List.append_ne_nil_of_right_ne_nil _ (List.cons_ne_nil _ _))
  | cons l ls ih =>
    rw [tokensAt_cons] at made
    cases first : l.token? p with
    | none =>
      rw [first] at made
      obtain ⟨above, l', below, rfl, before, token, behind⟩ := ih made
      refine ⟨l :: above, l', below, rfl, ?_, token, behind⟩
      rw [tokensAt_cons, first]
      exact before
    | some t' =>
      rw [first] at made
      cases front with
      | nil =>
        obtain ⟨rfl, rfl⟩ := List.cons.inj made
        exact ⟨[], l, ls, rfl, rfl, first, rfl⟩
      | cons _ front =>
        obtain ⟨rfl, later⟩ := List.cons.inj made
        obtain ⟨above, l', below, rfl, before, token, behind⟩ := ih later
        refine ⟨l :: above, l', below, rfl, ?_, token, behind⟩
        rw [tokensAt_cons, first, before]
        rfl

open Grammar

/-- In the source the command of this statement begins behind these characters: the statements before
it, and its labels, are all that the lexemes before it make, and the lexeme that begins there makes
the first token that is none of its labels. -/
inductive CommandAt (source : String) (ss : List Statement) (n : Nat) : List Char → Prop
  | intro {above below : List Lexeme} {l : Lexeme} {t : Token} {s : Statement}
      {front labels rest back r : List Token} (found : ss[n]? = some s)
      (spelled : lexemes source.toList = above ++ l :: below)
      (before : tokensAt .start above = front ++ labels)
      (token : l.token? (placeAfter .start above) = some t)
      (behind : tokensAt (l.next (placeAfter .start above)) below = rest ++ back)
      (preceding : ConsistsOf front (ss.take n) [])
      (derived : DerivesStatement (labels ++ t :: rest) s)
      (labelled : ∀ u ∈ labels, u.kind = .label) (plain : t.kind ≠ .label)
      (following : ConsistsOf back (ss.drop (n + 1)) r) :
      CommandAt source ss n (above.flatMap Lexeme.chars)

/-- The characters are the front of the source, up to the command. -/
theorem CommandAt.spells {source : String} {ss : List Statement} {n : Nat} {before : List Char}
    (stands : CommandAt source ss n before) : before <+: source.toList := by
  obtain ⟨_, spelled, _⟩ := stands
  rw [← flatMap_chars_lexemes source.toList, spelled, List.flatMap_append]
  exact List.prefix_append _ _

theorem line_of_token {above : List Lexeme} {l : Lexeme} {t : Token}
    (token : l.token? (placeAfter .start above) = some t) :
    t.line = 1 + (above.flatMap Lexeme.chars).count '\n' := by
  rw [Token.line, position_of_token? token, line_placeAfter]
  rfl

/-- A statement is given the line on which its command stands. -/
theorem CommandAt.line_eq {source : String} {ss : List Statement} {n : Nat} {before : List Char}
    (stands : CommandAt source ss n before) {s : Statement} (found : ss[n]? = some s) :
    s.instruction.line = 1 + before.count '\n' := by
  obtain ⟨same, spelled, split, token, behind, preceding, derived, labelled, plain, following⟩ := stands
  obtain rfl := Option.some.inj (found.symm.trans same)
  rw [derived.line_eq labelled plain, line_of_token token]

/-- Each statement of a program has its command in the source. -/
theorem exists_commandAt {source : String} {ss : List Statement}
    (compiled : (compile source).result = .ok ss) {n : Nat} {s : Statement}
    (found : ss[n]? = some s) : ∃ before, CommandAt source ss n before := by
  have parsed : (parse (lex source).tokens).result = .ok ss := compiled
  obtain ⟨r, left, consists, _⟩ := consistsOf_of_parsed parsed
  obtain ⟨front, p, back, split, preceding, derived, following⟩ := consists.split found
  obtain ⟨labels, t, rest, rfl, labelled, plain⟩ := derived.split
  have made : tokensAt .start (lexemes source.toList) = (front ++ labels) ++ t :: (rest ++ back) := by
    rw [List.append_assoc, ← List.cons_append, ← List.append_assoc labels]
    exact split
  obtain ⟨above, l, below, spelled, before, token, behind⟩ := exists_lexeme_of_tokensAt made
  exact ⟨_, .intro found spelled before token behind preceding derived labelled plain following⟩

/-! ### Runs that fail -/

theorem Fault.report_atLine (f : Fault) (line : Nat) :
    (f.report.atLine line).line? = some line ∧ (f.report.atLine line).columns = .none := ⟨rfl, rfl⟩

/-- The report of a run that fails where it stops. -/
theorem Machine.Stops.report_eq {p : Program} {signals : Nat → Bool} {steps : Array Step} {pc : Nat}
    {m : Machine} {r : Run} (stops : Stops p signals steps pc m r) {report : Report}
    (failed : r.failure? = some report) :
    ∃ (f : Fault) (i : Instruction), p.at? pc = some i ∧ report = f.report.atLine i.line := by
  cases stops with
  | off | halted => cases failed
  | interrupted found pending =>
    cases failed
    exact ⟨.interrupted, _, found, rfl⟩
  | failed found calm performed =>
    cases failed
    exact ⟨_, _, found, rfl⟩

/-- A run that fails, from whatever machine, stops at an instruction: the one it has begun, or the one
it was about to begin when it was interrupted. This instruction stands in the source, and wherever its
command is found to begin there, the report names the line of that place, and no columns. -/
theorem failure_names_line {source : String} {ss : List Statement}
    (compiled : (compile source).result = .ok ss) {start : Machine} {signals : Nat → Bool}
    {fuel : Nat} {r : Run} (ended : start.run (.ofStatements ss) signals fuel = some r)
    {report : Report} (failed : r.failure? = some report) :
    ∃ steps n m, Machine.Running (.ofStatements ss) signals start steps n m ∧
      Machine.Stops (.ofStatements ss) signals steps n m r ∧ report.columns = .none ∧
      (∃ before, CommandAt source ss n before) ∧
      ∀ before, CommandAt source ss n before →
        before <+: source.toList ∧ report.line? = some (1 + before.count '\n') := by
  obtain ⟨steps, n, m, running, stops⟩ := Machine.run_ends_iff.mp ⟨fuel, ended⟩
  obtain ⟨f, i, found, rfl⟩ := stops.report_eq failed
  rw [Program.at?_ofStatements, Option.map_eq_some_iff] at found
  obtain ⟨s, found, rfl⟩ := found
  obtain ⟨named, columns⟩ := f.report_atLine s.instruction.line
  refine ⟨steps, n, m, running, stops, columns, exists_commandAt compiled found, ?_⟩
  intro before stands
  exact ⟨stands.spells, stands.line_eq found ▸ named⟩

/-- A string over two lines, and an IF that runs an assignment that fails. -/
private def failsInPlace : List Statement :=
  [⟨[], ⟨1, .assign ⟨"x$"⟩ (.literal (.string "a\nb"))⟩⟩,
    ⟨[⟨"top", 3⟩], ⟨3, .branch
      (.comparison .equal (.literal (.integer 1)) (.literal (.integer 1))) "bad"⟩⟩,
    ⟨[], ⟨4, .stop⟩⟩, ⟨[⟨"bad", 5⟩], ⟨5, .assign ⟨"y"⟩ (.variable ⟨"z"⟩)⟩⟩]

private theorem compile_failsInPlace :
    (compile "x$ = \"a\nb\"\ntop: IF 1 = 1 THEN bad\nEND\nbad: y = z").result =
      .ok failsInPlace := by
  have tokens : (lex "x$ = \"a\nb\"\ntop: IF 1 = 1 THEN bad\nEND\nbad: y = z").tokens =
      [⟨.word, some "x$", ⟨1, 0⟩⟩, ⟨.symbol (.relation .equal), none, ⟨1, 3⟩⟩,
        ⟨.string, some "a\nb", ⟨1, 5⟩⟩, ⟨.endOfLine, none, ⟨2, 2⟩⟩,
        ⟨.label, some "top", ⟨3, 0⟩⟩, ⟨.keyword .IF, none, ⟨3, 5⟩⟩, ⟨.number, some "1", ⟨3, 8⟩⟩,
        ⟨.symbol (.relation .equal), none, ⟨3, 10⟩⟩, ⟨.number, some "1", ⟨3, 12⟩⟩,
        ⟨.keyword .THEN, none, ⟨3, 14⟩⟩, ⟨.word, some "bad", ⟨3, 19⟩⟩, ⟨.endOfLine, none, ⟨3, 22⟩⟩,
        ⟨.keyword .END, none, ⟨4, 0⟩⟩, ⟨.endOfLine, none, ⟨4, 3⟩⟩,
        ⟨.label, some "bad", ⟨5, 0⟩⟩, ⟨.word, some "y", ⟨5, 5⟩⟩,
        ⟨.symbol (.relation .equal), none, ⟨5, 7⟩⟩, ⟨.word, some "z", ⟨5, 9⟩⟩] := by
    decide +kernel
  have derived : DerivesProgram
      (lex "x$ = \"a\nb\"\ntop: IF 1 = 1 THEN bad\nEND\nbad: y = z").tokens failsInPlace := by
    rw [tokens]
    refine .more (p := [_, _, _]) (.command (.assign rfl rfl (.sum (.product (.string rfl))))) rfl ?_
    refine .more (p := [_, _, _, _, _, _, _]) (.label rfl (.command (.branch (p := [_, _, _]) rfl
      (.intro (p := [_]) (.sum (.product (.number rfl (by decide +kernel)))) rfl
        (.sum (.product (.number rfl (by decide +kernel))))) rfl rfl))) rfl ?_
    refine .more (p := [_]) (.command (.stop rfl)) rfl ?_
    exact .last (.label rfl (.command (.assign rfl rfl (.sum (.product (.variable rfl))))))
  exact congrArg Parsed.result (parse_complete derived)

/-- The failure of the assignment is one of the IF on the third line. -/
theorem failure_names_line_of_if :
    ∃ ss r report,
      (compile "x$ = \"a\nb\"\ntop: IF 1 = 1 THEN bad\nEND\nbad: y = z").result = .ok ss ∧
      (Machine.initial (.ofStatements ss) (.ofSeed 0) (.ofBytes [])).run (.ofStatements ss)
        (fun _ => false) 5 = some r ∧ r.failure? = some report ∧ report.line? = some 3 ∧
      ∃ steps n m, Machine.Running (.ofStatements ss) (fun _ => false)
          (Machine.initial (.ofStatements ss) (.ofSeed 0) (.ofBytes [])) steps n m ∧
        Machine.Stops (.ofStatements ss) (fun _ => false) steps n m r ∧ report.columns = .none ∧
        (∃ before,
          CommandAt "x$ = \"a\nb\"\ntop: IF 1 = 1 THEN bad\nEND\nbad: y = z" ss n before) ∧
        ∀ before,
          CommandAt "x$ = \"a\nb\"\ntop: IF 1 = 1 THEN bad\nEND\nbad: y = z" ss n before →
          before <+: "x$ = \"a\nb\"\ntop: IF 1 = 1 THEN bad\nEND\nbad: y = z".toList ∧
            report.line? = some (1 + before.count '\n') := by
  obtain ⟨r, ended, failed⟩ : ∃ r, (Machine.initial (.ofStatements failsInPlace) (.ofSeed 0)
        (.ofBytes [])).run (.ofStatements failsInPlace) (fun _ => false) 5 = some r ∧
      r.failure? = some ((Fault.undefinedVariable ⟨"z"⟩).report.atLine 3) := ⟨_, rfl, rfl⟩
  refine ⟨failsInPlace, r, _, compile_failsInPlace, ended, failed, rfl, ?_⟩
  exact failure_names_line compile_failsInPlace ended failed

end LabelBasic
