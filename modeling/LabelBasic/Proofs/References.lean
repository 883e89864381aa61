import LabelBasic.Proofs.Listing

/-!
# Labels that can be referred to

A colon behind a word without a suffix makes it a label, whatever the word is. A reference has no
colon, so it has to be a word by itself, and a keyword is none. Hence a label can be defined under
the name of a keyword, but no GOSUB and no IF of any program refers to it; all other labels can be
referred to by both.
-/
namespace LabelBasic

open Grammar

/-- The label a command refers to. -/
def Command.reference? : Command → Option String
  | .gosub name | .branch _ name | .whileLoop _ name => some name
  | _ => none

variable {name : String}

/-! ### Definitions -/

/-- The text defines a label of this name. -/
def DefinesLabel (source name : String) : Prop :=
  ∃ t ∈ (lex source).tokens, t.kind = .label ∧ t.text = name

/-- The labels that can be defined are the words without a suffix. -/
theorem definesLabel_iff : DefinesLabel (name ++ ": RETURN") name ↔ IsStem name.toList := by
  constructor
  · rintro ⟨t, member, kind, rfl⟩
    exact (isFormed_of_mem_lex member).label kind
  · intro form
    have reads : Reads [.label name.toList] " RETURN".toList := .label form
    have first : lexemes (name ++ ": RETURN").toList =
        .label name.toList :: lexemes " RETURN".toList := by
      rw [Reads, List.flatMap_singleton] at reads
      rw [String.toList_append, ← List.singleton_append, ← reads, Lexeme.chars, List.append_assoc]
      rfl
    refine ⟨⟨.label, some name, .start⟩, ?_, rfl, rfl⟩
    rw [lex, first]
    simp [placed, Placed.token?, Lexeme.token?]

/-! ### References -/

theorem word_of_command {p : List Token} {c : Command} (derived : DerivesCommand p c)
    (refers : c.reference? = some name) : ∃ t ∈ p, t.kind = .word ∧ t.text = name := by
  cases derived <;> cases refers
  case gosub kind => exact ⟨_, by simp, kind, rfl⟩
  case branch kind => exact ⟨_, by simp, kind, rfl⟩
  case whileLoop kind => exact ⟨_, by simp, kind, rfl⟩

theorem word_of_statement {p : List Token} {s : Statement} (derived : DerivesStatement p s)
    (refers : s.instruction.command.reference? = some name) :
    ∃ t ∈ p, t.kind = .word ∧ t.text = name := by
  induction derived with
  | command inner => exact word_of_command inner refers
  | label _ _ ih =>
    obtain ⟨t, member, word⟩ := ih refers
    exact ⟨t, List.mem_cons_of_mem _ member, word⟩

/-- No statement of a program refers to a keyword. -/
theorem plain_of_refers {source : String} {ss : List Statement} {s : Statement}
    (compiled : (compile source).result = .ok ss) (member : s ∈ ss)
    (refers : s.instruction.command.reference? = some name) : Keyword.ofWord? name = none := by
  obtain ⟨p, part, derived⟩ := derives_of_mem_parse compiled member
  obtain ⟨t, inside, kind, rfl⟩ := word_of_statement derived refers
  exact ((isFormed_of_mem_lex (part.subset inside)).word kind).2

/-! ### Statements by themselves -/

/-- A statement that is read back is a program. -/
theorem compile_of_phrase {s : Statement}
    (reads : ∀ n, Phrase n (DerivesStatement · (s.onLine n)) s.text) :
    (compile s.text).result = .ok [s.onLine 1] := by
  have each : ∀ s' ∈ [s], ∀ n, Phrase n (DerivesStatement · (s'.onLine n)) s'.text :=
    List.forall_mem_singleton.mpr reads
  exact (compile_of_phrases each).1

theorem compile_of_command {i : Instruction}
    (reads : ∀ n, Phrase n (DerivesCommand · i.command) i.command.text) :
    (compile i.command.text).result = .ok [⟨[], { i with line := 1 }⟩] := by
  have compiled := compile_of_phrase (s := ⟨[], i⟩) fun n => phrase_unlabeled i (reads n)
  rwa [text_command] at compiled

/-- A command that refers to a label is a program of its own just when the label is no keyword. -/
theorem compile_reference_iff {c : Command} (refers : c.reference? = some name)
    (reads : Keyword.ofWord? name = none → ∀ n, Phrase n (DerivesCommand · c) c.text) :
    (compile c.text).result = .ok [⟨[], ⟨1, c⟩⟩] ↔ Keyword.ofWord? name = none := by
  constructor
  · intro compiled
    exact plain_of_refers compiled List.mem_cons_self refers
  · intro plain
    exact compile_of_command (i := ⟨1, c⟩) (reads plain)

theorem text_labeled_return (name : String) :
    (⟨[⟨name, 1⟩], ⟨1, .ret⟩⟩ : Statement).text = name ++ ": RETURN" := by
  have text := text_label ⟨name, 1⟩ ⟨[], ⟨1, .ret⟩⟩
  rw [text_command, String.append_assoc, String.append_assoc] at text
  exact text

theorem compile_labeled_return (form : IsStem name.toList) :
    (compile (name ++ ": RETURN")).result = .ok [⟨[⟨name, 1⟩], ⟨1, .ret⟩⟩] := by
  have returns (n : Nat) : Phrase n (DerivesStatement · ⟨[], ⟨n, .ret⟩⟩)
      (⟨[], ⟨1, .ret⟩⟩ : Statement).text := phrase_unlabeled ⟨1, .ret⟩ phrase_return
  rw [← text_labeled_return]
  exact compile_of_phrase (s := ⟨[⟨name, 1⟩], ⟨1, .ret⟩⟩) fun n =>
    phrase_labeled (l := ⟨name, 1⟩) (s := ⟨[], ⟨1, .ret⟩⟩) form (returns n)

/-- A condition that always holds. -/
def onesEqual : Expr := .comparison .equal (.literal (.integer 1)) (.literal (.integer 1))

theorem text_onesEqual : onesEqual.text = "1 = 1" := rfl

theorem text_branch_onesEqual (name : String) :
    (Command.branch onesEqual name).text = "IF 1 = 1 THEN " ++ name := by
  rw [Command.text, text_onesEqual]
  rfl

/-- A label that can be defined can be referred to by GOSUB and by IF if and only if it is no
keyword. Nothing in any program refers to a keyword. -/
theorem label_referred_iff (defines : DefinesLabel (name ++ ": RETURN") name) :
    (compile (name ++ ": RETURN")).result = .ok [⟨[⟨name, 1⟩], ⟨1, .ret⟩⟩] ∧
    ((compile ("GOSUB " ++ name)).result = .ok [⟨[], ⟨1, .gosub name⟩⟩] ↔
      Keyword.ofWord? name = none) ∧
    ((compile ("IF 1 = 1 THEN " ++ name)).result = .ok [⟨[], ⟨1, .branch onesEqual name⟩⟩] ↔
      Keyword.ofWord? name = none) ∧
    (Keyword.ofWord? name ≠ none → ∀ source ss, (compile source).result = .ok ss →
      ∀ s ∈ ss, s.instruction.command.reference? ≠ some name) := by
  have form := definesLabel_iff.mp defines
  have named (plain : Keyword.ofWord? name = none) (n : Nat) : Phrase n (IsNamed name) name :=
    phrase_word (.stem form) plain
  refine ⟨?_, ?_, ?_, ?_⟩
  · exact compile_labeled_return form
  · exact compile_reference_iff (c := .gosub name) rfl fun plain n =>
      phrase_gosub (named plain n)
  · rw [← text_branch_onesEqual]
    exact compile_reference_iff (c := .branch onesEqual name) rfl fun plain n =>
      phrase_branch (phrase_compared phrase_one phrase_one) (named plain n)
  · exact fun keyword source ss compiled s member refers =>
      keyword (plain_of_refers compiled member refers)

/-- The name of a function is not a keyword, so it can be the name of a label. -/
theorem label_referred_iff_of_function :
    DefinesLabel "val: RETURN" "val" ∧
      (compile "GOSUB val").result = .ok [⟨[], ⟨1, .gosub "val"⟩⟩] ∧
      (compile "IF 1 = 1 THEN val").result = .ok [⟨[], ⟨1, .branch onesEqual "val"⟩⟩] := by
  have defines : DefinesLabel ("val" ++ ": RETURN") "val" :=
    definesLabel_iff.mpr (isStem_of_letters (by decide) (by decide))
  obtain ⟨_, gosub, branch, _⟩ := label_referred_iff defines
  exact ⟨defines, gosub.mpr (ofWord?_name .val), branch.mpr (ofWord?_name .val)⟩

/-- A label named DATA can be defined, but GOSUB does not refer to it. -/
theorem not_referred_of_keyword : ¬∀ name, DefinesLabel (name ++ ": RETURN") name →
    (compile ("GOSUB " ++ name)).result = .ok [⟨[], ⟨1, .gosub name⟩⟩] ∧
      (compile ("IF 1 = 1 THEN " ++ name)).result = .ok [⟨[], ⟨1, .branch onesEqual name⟩⟩] := by
  intro always
  have compiled := (always "DATA" (definesLabel_iff.mpr (isStem_listed .DATA))).1
  have plain : Keyword.ofWord? "DATA" = none := plain_of_refers compiled List.mem_cons_self rfl
  cases plain.symm.trans (ofWord?_listed .DATA)

end LabelBasic
