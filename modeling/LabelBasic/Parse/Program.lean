import LabelBasic.Lexed
import LabelBasic.Parse.Statement

/-!
# Parsing programs

A program is a list of statements with line ends between them. It ends where no further statement
is found; the tokens from there on are ignored with a warning.
-/
namespace LabelBasic

namespace Parse

/-- A statement uses the token it starts with. -/
theorem statement_used_pos {s : List Token} {st : Statement} {n : Nat} {log : List Event}
    (found : statement s = ⟨.found st, n, log⟩) : 0 < n := by
  cases s with
  | nil => simp [statement, Reply.absent] at found
  | cons t rest =>
    simp only [statement] at found
    split at found
    · have used := congrArg Reply.used found
      simp only [Reply.after] at used
      omega
    · have some : 0 < (command t rest).used ∨ (command t rest).outcome = .absent := by
        unfold command
        split
        · left; simp only [Reply.after]; omega
        · split
          · left; simp only [Reply.after]; omega
          · right; rfl
        · right; rfl
      simp only [Reply.map, Reply.andThen] at found
      rcases some with pos | absent
      · split at found
        · have used := congrArg Reply.used found
          simp only [Reply.found] at used
          omega
        · simp at found
        · simp at found
      · simp [absent] at found

/-- The statements read up to where no further one was found, or parsing failed. -/
structure Progress where
  statements : List Statement
  fault? : Option SyntaxFault
  used : Nat
  log : List Event
  deriving Repr

/-- The statements at the front of a list of tokens that does not start with a line end. -/
def statements (s : List Token) : Progress :=
  match _h : statement s with
  | ⟨.found st, n, log⟩ =>
    -- Line ends separate statements but are not needed between them.
    let passed := n + separators (s.drop n)
    let more := statements (s.drop passed)
    ⟨st :: more.statements, more.fault?, passed + more.used, log ++ more.log⟩
  | ⟨.absent, n, log⟩ => ⟨[], none, n, log⟩
  | ⟨.failed f, n, log⟩ => ⟨[], some f, n, log⟩
termination_by s.length
decreasing_by
  have pos := statement_used_pos _h
  have nonempty : s ≠ [] := by
    rintro rfl
    simp [statement, Reply.absent] at _h
  have := List.length_pos_iff.mpr nonempty
  simp only [List.length_drop]
  omega

theorem statements_of_found {s : List Token} {st : Statement} {n : Nat} {log : List Event}
    (found : statement s = ⟨.found st, n, log⟩) :
    statements s =
      let passed := n + separators (s.drop n)
      let more := statements (s.drop passed)
      ⟨st :: more.statements, more.fault?, passed + more.used, log ++ more.log⟩ := by
  rw [statements]
  split
  next st' n' log' same =>
    cases found.symm.trans same
    rfl
  next same => cases found.symm.trans same
  next same => cases found.symm.trans same

theorem statements_of_absent {s : List Token} {n : Nat} {log : List Event}
    (absent : statement s = ⟨.absent, n, log⟩) : statements s = ⟨[], none, n, log⟩ := by
  rw [statements]
  split
  next same => cases absent.symm.trans same
  next same =>
    cases absent.symm.trans same
    rfl
  next same => cases absent.symm.trans same

theorem statements_of_failed {s : List Token} {f : SyntaxFault} {n : Nat} {log : List Event}
    (failed : statement s = ⟨.failed f, n, log⟩) : statements s = ⟨[], some f, n, log⟩ := by
  rw [statements]
  split
  next same => cases failed.symm.trans same
  next same => cases failed.symm.trans same
  next same =>
    cases failed.symm.trans same
    rfl

@[simp] theorem statements_nil : statements [] = ⟨[], none, 0, []⟩ := statements_of_absent rfl

end Parse

/-- The statements of a program, or the report of its syntax error, and the log of finding them. -/
structure Parsed where
  result : Except Report (List Statement)
  log : List Event

/-- Parses a list of tokens. -/
def parse (tokens : List Token) : Parsed :=
  let leading := Parse.separators tokens
  let progress := Parse.statements (tokens.drop leading)
  let used := leading + progress.used
  match progress.fault? with
  | some f => ⟨.error (f.report ((Cursor.ofList tokens).skip used)), progress.log⟩
  | none =>
    let unparsed := (tokens.drop used).head?.toList.map .unparsed
    ⟨.ok progress.statements, progress.log ++ unparsed ++ [.parsed progress.statements.length]⟩

/-- Lexes and parses a source text. -/
def compile (source : String) : Parsed :=
  let lexed := lex source
  let parsed := parse lexed.tokens
  { parsed with log := lexed.log ++ parsed.log }

end LabelBasic
