import LabelBasic.Proofs.Grammar.Complete
import LabelBasic.Proofs.Grammar.Sound
import LabelBasic.Proofs.Listing.Phrases

/-!
# Reading a listing back

A program that was parsed and then listed parses again as the same program, line by line. What
listings write in another way than programs do is left out: characters that are escaped by name or by
code point, and floats with an exponent.
-/
namespace LabelBasic

/-! ### Literals and lines -/

namespace Expr

mutual

/-- The literals of an expression, from left to right. -/
def literals : Expr → List Value
  | .literal value => [value]
  | .variable _ => []
  | .call _ arguments => allLiterals arguments
  | .arithmetic _ left right => literals left ++ literals right
  | .comparison _ left right => literals left ++ literals right

def allLiterals : List Expr → List Value
  | [] => []
  | e :: es => literals e ++ allLiterals es

end

theorem mem_allLiterals {value : Value} {e : Expr} {es : List Expr} (member : e ∈ es)
    (literal : value ∈ e.literals) : value ∈ allLiterals es := by
  induction es with
  | nil => cases member
  | cons first rest ih =>
    rcases List.mem_cons.mp member with rfl | later
    · exact List.mem_append_left _ literal
    · exact List.mem_append_right _ (ih later)

end Expr

def Command.literals : Command → List Value
  | .assign _ value => value.literals
  | .print items | .data items | .input items => Expr.allLiterals items
  | .loop _ first last step => first.literals ++ last.literals ++ step.literals
  | .branch condition _ | .whileLoop condition _ => condition.literals
  | .read _ | .gosub _ | .ret | .stop | .next _ => []

def Statement.literals (s : Statement) : List Value := s.instruction.command.literals

/-- The statement with its labels and its command on another line. -/
def Statement.onLine (n : Nat) (s : Statement) : Statement :=
  ⟨s.labels.map fun label => { label with line := n }, { s.instruction with line := n }⟩

/-- The text of a program, a line for each statement. -/
def programText (ss : List Statement) : String := String.intercalate "\n" (ss.map Statement.text)

open Grammar

variable {n : Nat}

/-! ### Expressions -/

theorem phrase_variable {t : Token} (formed : t.IsFormed) (kind : t.kind = .word) :
    Phrase n (IsNamed t.text) t.text :=
  phrase_word (formed.word kind).1 (formed.word kind).2

theorem relisted_number {t : Token} {value : Value} (formed : t.IsFormed) (kind : t.kind = .number)
    (read : Value.ofNumeral? t.text = some value) (plain : value.IsPlain) :
    Phrase n (IsLiteral value) value.literal :=
  phrase_value _ (ofNumeral?_unsigned (formed.number kind) read) plain

theorem factor_of_literal {value : Value} {ts : List Token} (literal : IsLiteral value ts) :
    Derives .factor ts (.literal value) := by
  obtain ⟨t, rfl, _, ⟨⟩, ⟨kind, rfl⟩ | ⟨kind, read⟩⟩ := literal
  · exact .string kind
  · exact .number kind read

theorem phrase_one : Phrase n (Derives .factor · (.literal (.integer 1))) "1" := by
  have unsigned : 0 ≤ (1 : Int32).toInt := by decide
  exact (phrase_value (.integer 1) unsigned trivial).mono fun ts => factor_of_literal

/-- A factor is an operand of any level. -/
theorem operand (level : Level) {p : List Token} {e : Expr} (factor : Derives .factor p e) :
    Derives level p e :=
  match level with
  | .factor => factor
  | .product => .product factor
  | .sum => .sum (.product factor)

theorem sum_of_operation {op : Operator} {p q : List Token} {t : Token} {left right : Expr}
    (kind : t.kind = .symbol (.operator op)) (first : Derives .factor p left)
    (second : Derives .factor q right) : Derives .sum (p ++ t :: q) (.arithmetic op left right) := by
  have whole : Derives op.level (p ++ t :: q) (.arithmetic op left right) :=
    .operation kind rfl (operand _ first) (operand _ second)
  cases op with
  | add | sub => exact whole
  | mul | div => exact .sum whole

/-- An operation is written in parentheses. -/
theorem phrase_operation {op : Operator} {left right : Expr}
    (first : Phrase n (Derives .factor · left) left.text)
    (second : Phrase n (Derives .factor · right) right.text) :
    Phrase n (Derives .factor · (.arithmetic op left right))
      (Expr.arithmetic op left right).text := by
  -- The text is put together as it is written, with a blank on both sides of the operator.
  have opened := (mark_leftParen.join first).blank
  have operator := (opened.join (mark_operator op).phrase).blank
  have whole := (operator.join second).apart mark_rightParen rfl rfl
  apply whole.phrase.mono
  rintro _ ⟨_, _, rfl, ⟨_, q, rfl, ⟨_, _, rfl, ⟨_, p, rfl, ⟨l, rfl, open_⟩, first⟩, t, rfl, kind⟩,
    second⟩, r, rfl, shut⟩
  have inner := sum_of_operation kind first second
  simpa using Derives.group open_ inner shut

theorem commaList_cons {text : String} {texts : List String} (some : texts ≠ []) :
    commaList (text :: texts) = text ++ ", " ++ commaList texts :=
  String.intercalate_cons_of_ne_nil some

theorem phrase_call {f : Builtin} {es : List Expr} (fits : f.accepts (es.map Expr.kind) = true)
    (arguments : Phrase n (DerivesArguments · es) (commaList (Expr.texts es) ++ ")")) :
    Phrase n (Derives .factor · (.call f es)) (Expr.call f es).text := by
  have opened := (phrase_name f).apart (mark_leftParen (n := n)) rfl rfl
  have whole := opened.join arguments
  rw [← String.append_assoc] at whole
  apply whole.mono
  rintro _ ⟨_, p, rfl, ⟨_, _, rfl, ⟨t, rfl, kind, named⟩, l, rfl, open_⟩, arguments⟩
  exact .call kind named open_ arguments fits

/-- Commas with a blank stand between the items of a list. -/
theorem phrase_items {D E : List Token → Prop} {text : String} {texts : List String}
    (some : texts ≠ []) (first : Phrase n D text) (rest : Phrase n E (commaList texts)) :
    Phrase n (Both (Both D (Is (.symbol .comma))) E) (commaList (text :: texts)) := by
  have whole := (first.apart mark_listComma rfl rfl).join rest
  rwa [← commaList_cons some] at whole

theorem texts_ne_nil {p : List Token} {es : List Expr} (derived : DerivesList p es) :
    Expr.texts es ≠ [] := by
  cases derived with
  | one => exact List.cons_ne_nil _ _
  | more => exact List.cons_ne_nil _ _

mutual

theorem relisted {level : Level} {p : List Token} {e : Expr} (derived : Derives level p e)
    (formed : ∀ t ∈ p, t.IsFormed) (plain : ∀ value ∈ e.literals, value.IsPlain) :
    Phrase n (Derives .factor · e) e.text := by
  match derived with
  | .number kind read =>
    have literal := relisted_number (formed _ List.mem_cons_self) kind read
      (plain _ List.mem_cons_self) (n := n)
    exact literal.mono fun ts => factor_of_literal
  | .string kind =>
    have quoted := phrase_string (n := n) (plain _ List.mem_cons_self)
    exact quoted.mono fun ts quoted => factor_of_literal (literal_of_quoted quoted)
  | .variable kind =>
    apply (phrase_variable (formed _ List.mem_cons_self) kind).mono
    rintro _ ⟨t, rfl, kind, text⟩
    rw [← text]
    exact .variable kind
  -- Parentheses are not listed: operations bring their own, and the others do not need any.
  | .group _ inner _ =>
    exact relisted inner (fun t member => formed t (by simp [member])) plain
  | .call _ _ _ inner fits =>
    exact phrase_call fits (relisted_arguments inner (fun t member => formed t (by simp [member])) plain)
  | .product inner => exact relisted inner formed plain
  | .sum inner => exact relisted inner formed plain
  | .operation _ _ first second =>
    obtain ⟨before, behind⟩ := List.forall_mem_append.mp plain
    exact phrase_operation (relisted first (fun t member => formed t (by simp [member])) before)
      (relisted second (fun t member => formed t (by simp [member])) behind)

theorem relisted_arguments {p : List Token} {es : List Expr} (derived : DerivesArguments p es)
    (formed : ∀ t ∈ p, t.IsFormed) (plain : ∀ value ∈ Expr.allLiterals es, value.IsPlain) :
    Phrase n (DerivesArguments · es) (commaList (Expr.texts es) ++ ")") := by
  match derived with
  | .none _ =>
    apply mark_rightParen.phrase.mono
    rintro _ ⟨r, rfl, shut⟩
    exact .none shut
  | .some inner _ =>
    have items := relisted_list inner (fun t member => formed t (by simp [member])) plain
    apply (items.apart mark_rightParen rfl rfl).phrase.mono
    rintro _ ⟨_, _, rfl, items, r, rfl, shut⟩
    exact .some items shut

theorem relisted_list {p : List Token} {es : List Expr} (derived : DerivesList p es)
    (formed : ∀ t ∈ p, t.IsFormed) (plain : ∀ value ∈ Expr.allLiterals es, value.IsPlain) :
    Phrase n (DerivesList · es) (commaList (Expr.texts es)) := by
  match derived with
  | .one inner =>
    have item := relisted inner formed fun value member => plain value (List.mem_append_left _ member)
    exact item.mono fun ts derived => .one (operand .sum derived)
  | .more inner _ rest =>
    obtain ⟨before, behind⟩ := List.forall_mem_append.mp plain
    have first := relisted inner (fun t member => formed t (by simp [member])) before
    have later := relisted_list rest (fun t member => formed t (by simp [member])) behind
    apply (phrase_items (texts_ne_nil rest) first later).mono
    rintro _ ⟨_, q, rfl, ⟨p, _, rfl, item, c, rfl, comma⟩, rest⟩
    rw [List.append_assoc, List.singleton_append]
    exact .more (operand .sum item) comma rest

end

theorem phrase_compared {r : Relation} {left right : Expr}
    (first : Phrase n (Derives .factor · left) left.text)
    (second : Phrase n (Derives .factor · right) right.text) :
    Phrase n (DerivesComparison · (.comparison r left right))
      (Expr.comparison r left right).text := by
  have whole := (first.blank.join (phrase_relation r)).blank.join second
  apply whole.mono
  rintro _ ⟨_, q, rfl, ⟨p, _, rfl, first, t, rfl, kind⟩, second⟩
  rw [List.append_assoc, List.singleton_append]
  exact .intro (operand .sum first) kind (operand .sum second)

theorem phrase_comparison {p : List Token} {e : Expr} (derived : DerivesComparison p e)
    (formed : ∀ t ∈ p, t.IsFormed) (plain : ∀ value ∈ e.literals, value.IsPlain) :
    Phrase n (DerivesComparison · e) e.text := by
  obtain ⟨first, _, second⟩ := derived
  obtain ⟨before, behind⟩ := List.forall_mem_append.mp plain
  exact phrase_compared (relisted first (fun t member => formed t (by simp [member])) before)
    (relisted second (fun t member => formed t (by simp [member])) behind)

/-! ### Items of one token -/

theorem items_ne_nil {α : Type} {item : Token → α → Prop} {p : List Token} {as : List α}
    (derived : DerivesItems item p as) : as ≠ [] := by
  cases derived with
  | one => exact List.cons_ne_nil _ _
  | more => exact List.cons_ne_nil _ _

/-- What each item of a list of one-token items is read as again, the list is read as again. -/
theorem relisted_items {α : Type} {item : Token → α → Prop} (text : α → String) {p : List Token}
    {as : List α} (derived : DerivesItems item p as)
    (each : ∀ t ∈ p, ∀ a ∈ as, item t a → Phrase n (fun ts => ∃ t, ts = [t] ∧ item t a) (text a)) :
    Phrase n (DerivesItems item · as) (commaList (as.map text)) := by
  induction derived with
  | one first =>
    apply (each _ List.mem_cons_self _ List.mem_cons_self first).mono
    rintro _ ⟨t, rfl, first⟩
    exact .one first
  | more first _ rest ih =>
    have one := each _ List.mem_cons_self _ List.mem_cons_self first
    have later := ih fun t inside a member => each t (by simp [inside]) a (by simp [member])
    refine (phrase_items (fun none => items_ne_nil rest (List.map_eq_nil_iff.mp none)) one
      later).mono ?_
    rintro _ ⟨_, q, rfl, ⟨_, _, rfl, ⟨t, rfl, first⟩, c, rfl, comma⟩, rest⟩
    exact .more first comma rest

theorem relisted_name {t : Token} {v : Ident} (formed : t.IsFormed) (names : Names t v) :
    Phrase n (fun ts => ∃ t, ts = [t] ∧ Names t v) v.name := by
  obtain ⟨kind, rfl⟩ := names
  apply (phrase_variable formed kind).mono
  rintro _ ⟨t, rfl, kind, text⟩
  exact ⟨t, rfl, kind, congrArg Ident.mk text.symm⟩

theorem relisted_literal {t : Token} {e : Expr} (formed : t.IsFormed) (denotes : Denotes t e)
    (plain : ∀ value ∈ e.literals, value.IsPlain) :
    Phrase n (fun ts => ∃ t, ts = [t] ∧ Denotes t e) e.text := by
  obtain ⟨value, rfl, ⟨kind, rfl⟩ | ⟨kind, read⟩⟩ := denotes
  · exact (phrase_string (plain _ List.mem_cons_self)).mono fun ts => literal_of_quoted
  · exact relisted_number formed kind read (plain _ List.mem_cons_self)

theorem relisted_targets {p : List Token} {vs : List Ident} (derived : DerivesItems Names p vs)
    (formed : ∀ t ∈ p, t.IsFormed) :
    Phrase n (DerivesItems Names · vs) (commaList (vs.map Ident.name)) :=
  relisted_items Ident.name derived fun t inside _ _ names => relisted_name (formed t inside) names

theorem texts_targets (vs : List Ident) : Expr.texts (vs.map .variable) = vs.map Ident.name := by
  rw [Expr.texts_eq_map, List.map_map]
  rfl

/-! ### Commands -/

/-- A loop is always listed with its step. -/
theorem phrase_loop {name : String} {first last step : Expr} (named : Phrase n (IsNamed name) name)
    (lower : Phrase n (Derives .factor · first) first.text)
    (upper : Phrase n (Derives .factor · last) last.text)
    (increment : Phrase n (Derives .factor · step) step.text) :
    Phrase n (DerivesCommand · (.loop ⟨name⟩ first last step))
      (Command.loop ⟨name⟩ first last step).text := by
  have start := ((phrase_listed .FOR).blank.join named).apart (phrase_relation .equal).blanks rfl rfl
  have bounds := ((start.join lower).apart (phrase_listed .TO).blanks rfl rfl).join upper
  have whole := (bounds.apart (phrase_listed .STEP).blanks rfl rfl).join increment
  apply whole.mono
  rintro _ ⟨_, r, rfl, ⟨_, _, rfl, ⟨_, q, rfl, ⟨_, _, rfl, ⟨_, p, rfl, ⟨_, _, rfl, ⟨_, _, rfl,
    ⟨k, rfl, keyword⟩, t, rfl, kind, text⟩, s, rfl, equals⟩, lower⟩, u, rfl, upTo⟩, upper⟩,
    w, rfl, stepped⟩, increment⟩
  rw [← text]
  simpa using DerivesCommand.loopStep keyword kind equals (operand .sum lower) upTo
    (operand .sum upper) stepped (operand .sum increment)

theorem phrase_gosub {name : String} (named : Phrase n (IsNamed name) name) :
    Phrase n (DerivesCommand · (.gosub name)) (Command.gosub name).text := by
  apply ((phrase_listed .GOSUB).blank.join named).mono
  rintro _ ⟨_, _, rfl, ⟨k, rfl, keyword⟩, t, rfl, kind, text⟩
  rw [← text]
  exact .gosub keyword kind

theorem phrase_branch {e : Expr} {name : String}
    (condition : Phrase n (DerivesComparison · e) e.text) (named : Phrase n (IsNamed name) name) :
    Phrase n (DerivesCommand · (.branch e name)) (Command.branch e name).text := by
  have whole := (((phrase_listed .IF).blank.join condition).apart
    (phrase_listed .THEN).blanks rfl rfl).join named
  apply whole.mono
  rintro _ ⟨_, _, rfl, ⟨_, _, rfl, ⟨_, p, rfl, ⟨k, rfl, keyword⟩, condition⟩,
    u, rfl, consequent⟩, t, rfl, kind, text⟩
  rw [← text]
  simpa using DerivesCommand.branch keyword condition consequent kind

theorem phrase_return : Phrase n (DerivesCommand · .ret) Command.ret.text := by
  apply (phrase_listed .RETURN).mono
  rintro _ ⟨k, rfl, keyword⟩
  exact .ret keyword

theorem relisted_command {p : List Token} {c : Command} (derived : DerivesCommand p c)
    (formed : ∀ t ∈ p, t.IsFormed) (plain : ∀ value ∈ c.literals, value.IsPlain) :
    Phrase n (DerivesCommand · c) c.text := by
  cases derived with
  | assign kind equals value =>
    have named := phrase_variable (formed _ List.mem_cons_self) kind (n := n)
    have value := relisted value (fun t member => formed t (by simp [member])) plain (n := n)
    have whole := (named.apart (phrase_relation .equal).blanks rfl rfl).join value
    apply whole.mono
    rintro _ ⟨_, p, rfl, ⟨_, _, rfl, ⟨t, rfl, kind, text⟩, s, rfl, equals⟩, value⟩
    rw [← text]
    exact .assign kind equals (operand .sum value)
  | print _ items =>
    have items := relisted_list items (fun t member => formed t (by simp [member])) plain (n := n)
    apply ((phrase_listed .PRINT).blank.join items).mono
    rintro _ ⟨_, p, rfl, ⟨k, rfl, keyword⟩, items⟩
    exact .print keyword items
  | data _ items =>
    have items := relisted_items Expr.text items (n := n) fun t inside e member denotes =>
      relisted_literal (formed t (by simp [inside])) denotes fun value literal =>
        plain value (Expr.mem_allLiterals member literal)
    rw [← Expr.texts_eq_map] at items
    apply ((phrase_listed .DATA).blank.join items).mono
    rintro _ ⟨_, p, rfl, ⟨k, rfl, keyword⟩, items⟩
    exact .data keyword items
  | read _ targets =>
    have targets := relisted_targets targets (n := n) fun t member => formed t (by simp [member])
    apply ((phrase_listed .READ).blank.join targets).mono
    rintro _ ⟨_, p, rfl, ⟨k, rfl, keyword⟩, targets⟩
    exact .read keyword targets
  | input _ targets =>
    have targets := relisted_targets targets (n := n) fun t member => formed t (by simp [member])
    rw [← texts_targets] at targets
    apply ((phrase_listed .INPUT).blank.join targets).mono
    rintro _ ⟨_, p, rfl, ⟨k, rfl, keyword⟩, targets⟩
    exact .input keyword targets
  | prompt _ kind =>
    have prompt := phrase_string (n := n) (plain _ List.mem_cons_self)
    apply ((phrase_listed .INPUT).blank.join prompt).mono
    rintro _ ⟨_, _, rfl, ⟨k, rfl, keyword⟩, t, rfl, kind, text⟩
    rw [← text]
    exact .prompt keyword kind
  | promptedInput _ kind _ targets =>
    have some := items_ne_nil targets
    have prompt := phrase_string (n := n) (plain _ List.mem_cons_self)
    have targets := relisted_targets targets (n := n) fun t member => formed t (by simp [member])
    rw [← texts_targets] at targets
    have items := phrase_items (by simpa [Expr.texts_eq_map] using some) prompt targets
    apply ((phrase_listed .INPUT).blank.join items).mono
    rintro _ ⟨_, _, rfl, ⟨k, rfl, keyword⟩, _, p, rfl, ⟨_, _, rfl, ⟨t, rfl, kind, text⟩, c, rfl,
      comma⟩, targets⟩
    rw [← text]
    exact .promptedInput keyword kind comma targets
  | gosub _ kind => exact phrase_gosub (phrase_variable (formed _ (by simp)) kind)
  | ret _ => exact phrase_return
  | stop _ =>
    apply (phrase_listed .END).mono
    rintro _ ⟨k, rfl, keyword⟩
    exact .stop keyword
  | next _ =>
    apply (phrase_listed .NEXT).mono
    rintro _ ⟨k, rfl, keyword⟩
    exact .next keyword
  | nextOf _ kind =>
    have named := phrase_variable (formed _ (by simp)) kind (n := n)
    apply ((phrase_listed .NEXT).blank.join named).mono
    rintro _ ⟨_, _, rfl, ⟨k, rfl, keyword⟩, t, rfl, kind, text⟩
    rw [← text]
    exact .nextOf keyword kind
  | branch _ condition _ kind =>
    have condition := phrase_comparison condition (fun t member => formed t (by simp [member])) plain
      (n := n)
    exact phrase_branch condition (phrase_variable (formed _ (by simp)) kind)
  | whileLoop _ condition kind =>
    have condition := phrase_comparison condition (fun t member => formed t (by simp [member])) plain
      (n := n)
    have label := phrase_variable (formed _ (by simp)) kind (n := n)
    have whole := ((phrase_listed .WHILE).blank.join condition).blank.join label
    apply whole.mono
    rintro _ ⟨_, _, rfl, ⟨_, p, rfl, ⟨k, rfl, keyword⟩, condition⟩, t, rfl, kind, text⟩
    rw [← text]
    exact .whileLoop keyword condition kind
  | loop _ kind _ lower _ upper =>
    -- The step that was not written is listed as one.
    obtain ⟨before, behind⟩ := List.forall_mem_append.mp plain
    obtain ⟨before, between⟩ := List.forall_mem_append.mp before
    exact phrase_loop (phrase_variable (formed _ (by simp)) kind)
      (relisted lower (fun t member => formed t (by simp [member])) before)
      (relisted upper (fun t member => formed t (by simp [member])) between) phrase_one
  | loopStep _ kind _ lower _ upper _ increment =>
    obtain ⟨before, behind⟩ := List.forall_mem_append.mp plain
    obtain ⟨before, between⟩ := List.forall_mem_append.mp before
    exact phrase_loop (phrase_variable (formed _ (by simp)) kind)
      (relisted lower (fun t member => formed t (by simp [member])) before)
      (relisted upper (fun t member => formed t (by simp [member])) between)
      (relisted increment (fun t member => formed t (by simp [member])) behind)

/-! ### Statements and programs -/

theorem exists_cons_of_command {ts : List Token} {c : Command} (derived : DerivesCommand ts c) :
    ∃ t p, ts = t :: p := by
  cases derived <;> exact ⟨_, _, rfl⟩

theorem text_label (l : Label) (s : Statement) :
    ({ s with labels := l :: s.labels } : Statement).text = l.name ++ ":" ++ " " ++ s.text := by
  rw [← String.toList_inj]
  simp [Statement.text]

theorem text_command (i : Instruction) : (⟨[], i⟩ : Statement).text = i.text := by
  rw [← String.toList_inj]
  simp [Statement.text]

theorem phrase_unlabeled (i : Instruction)
    (command : Phrase n (DerivesCommand · i.command) i.command.text) :
    Phrase n (DerivesStatement · ⟨[], { i with line := n }⟩) (⟨[], i⟩ : Statement).text := by
  rw [text_command]
  apply command.lines.mono
  rintro ts ⟨derived, lines⟩
  obtain ⟨t, p, rfl⟩ := exists_cons_of_command derived
  have line : t.line = n := lines t List.mem_cons_self
  subst line
  exact .command derived

theorem phrase_labeled {l : Label} {s : Statement} (form : IsStem l.name.toList)
    (rest : Phrase n (DerivesStatement · (s.onLine n)) s.text) :
    Phrase n (DerivesStatement · (({ s with labels := l :: s.labels } : Statement).onLine n))
      ({ s with labels := l :: s.labels } : Statement).text := by
  rw [text_label]
  apply ((mark_label form).phrase.blank.lines.join rest).mono
  rintro _ ⟨_, q, rfl, ⟨⟨t, rfl, kind, text⟩, lines⟩, inner⟩
  have line : t.line = n := lines t List.mem_cons_self
  have whole := DerivesStatement.label kind inner
  rw [line, text] at whole
  exact whole

theorem relisted_statement {p : List Token} {s : Statement} (derived : DerivesStatement p s)
    (formed : ∀ t ∈ p, t.IsFormed) (plain : ∀ value ∈ s.literals, value.IsPlain) :
    Phrase n (DerivesStatement · (s.onLine n)) s.text := by
  induction derived with
  | command inner => exact phrase_unlabeled _ (relisted_command inner formed plain)
  | label kind inner ih =>
    exact phrase_labeled ((formed _ List.mem_cons_self).label kind)
      (ih (fun t member => formed t (by simp [member])) plain)

theorem programText_cons (s s' : Statement) (ss : List Statement) :
    programText (s :: s' :: ss) = s.text ++ "\n" ++ programText (s' :: ss) :=
  String.intercalate_cons_cons

theorem line_lineFeed (p : Position) : (Lexeme.lineFeed.next p).line = p.line + 1 := rfl

/-- A listing lexes into the tokens of the program, a line for each statement. -/
theorem lexemes_programText {ss : List Statement}
    (each : ∀ s ∈ ss, ∀ n, Phrase n (DerivesStatement · (s.onLine n)) s.text) (n : Nat) :
    (∀ l ∈ lexemes (programText ss).toList, l.IsCalm) ∧ ∀ p : Position, p.line = n →
      DerivesProgram (tokensAt p (lexemes (programText ss).toList))
        (ss.mapIdx fun i s => s.onLine (n + i)) := by
  induction ss generalizing n with
  | nil => exact ⟨by simp [programText, lexemes], fun p _ => by simpa [programText, lexemes] using .nil⟩
  | cons s ss ih =>
    obtain ⟨first, later⟩ := List.forall_mem_cons.mp each
    obtain ⟨ls, spelled, inLine, calm, reads, tokens⟩ := first n
    cases ss with
    | nil =>
      -- The last statement has nothing behind it.
      have read : lexemes (programText [s]).toList = ls := by
        have alone := reads [] broken_nil
        rw [Reads, List.append_nil, ← spelled, lexemes, List.append_nil] at alone
        exact alone
      rw [read]
      exact ⟨calm, fun p line => .last (tokens p line)⟩
    | cons s' ss =>
      obtain ⟨calm', tokens'⟩ := ih later (n + 1)
      -- The line feed is a break, so the first statement is read apart from the others.
      have read : lexemes (programText (s :: s' :: ss)).toList =
          ls ++ .lineFeed :: lexemes (programText (s' :: ss)).toList := by
        have front := reads ('\n' :: (programText (s' :: ss)).toList) (broken_cons rfl _)
        rw [Reads, ← spelled] at front
        rw [programText_cons, String.toList_append, String.toList_append, List.append_assoc]
        exact front.trans (congrArg (ls ++ ·) Reads.lineFeed)
      have counted : (s :: s' :: ss).mapIdx (fun i s => s.onLine (n + i)) =
          s.onLine n :: (s' :: ss).mapIdx fun i s => s.onLine (n + 1 + i) := by
        rw [List.mapIdx_cons]
        simp only [Nat.add_zero, Nat.add_assoc, Nat.add_comm 1]
      rw [read, counted]
      refine ⟨?_, fun p line => ?_⟩
      · exact List.forall_mem_append.mpr ⟨calm, List.forall_mem_cons.mpr ⟨fun _ => rfl, calm'⟩⟩
      · have behind : (placeAfter p ls).line = n := by rw [line_placeAfter_of_inLine inLine, line]
        rw [tokensAt_append, tokensAt_cons]
        refine .more (tokens p line) rfl (tokens' _ ?_)
        rw [line_lineFeed, behind]

/-- A program whose statements are read back is read back, its lines counted from one. -/
theorem compile_of_phrases {ss : List Statement}
    (each : ∀ s ∈ ss, ∀ n, Phrase n (DerivesStatement · (s.onLine n)) s.text) :
    (compile (programText ss)).result = .ok (ss.mapIdx fun i s => s.onLine (i + 1)) ∧
      ∀ event ∈ (compile (programText ss)).log, event.level ≠ .warn := by
  obtain ⟨calm, tokens⟩ := lexemes_programText each 1
  have parsed : parse (lex (programText ss)).tokens = _ := parse_complete (tokens .start rfl)
  have warnings : (placed .start (lexemes (programText ss).toList)).filterMap Placed.warning? = [] :=
    warnings_nil calm .start
  have counted : (ss.mapIdx fun i s => s.onLine (i + 1)) = ss.mapIdx fun i s => s.onLine (1 + i) := by
    simp only [Nat.add_comm]
  constructor
  · rw [counted]
    exact congrArg Parsed.result parsed
  · intro event member
    rw [compile, parsed] at member
    simp only [lex, warnings, List.nil_append, List.singleton_append] at member
    rcases List.mem_cons.mp member with rfl | last
    · exact nofun
    · obtain rfl := List.mem_singleton.mp last
      exact nofun

/-- A parsed program that is listed parses again as the same program, its lines counted from one, and
with nothing to warn about. -/
theorem compile_programText {source : String} {ss : List Statement}
    (compiled : (compile source).result = .ok ss)
    (plain : ∀ s ∈ ss, ∀ value ∈ s.literals, value.IsPlain) :
    (compile (programText ss)).result = .ok (ss.mapIdx fun i s => s.onLine (i + 1)) ∧
      ∀ event ∈ (compile (programText ss)).log, event.level ≠ .warn := by
  have each : ∀ s ∈ ss, ∀ n, Phrase n (DerivesStatement · (s.onLine n)) s.text := by
    intro s member n
    obtain ⟨p, part, derived⟩ := derives_of_mem_parse compiled member
    exact relisted_statement derived (fun t inside => isFormed_of_mem_lex (part.subset inside))
      (plain s member)
  exact compile_of_phrases each

/-- A labeled loop without a step, and a string with a quote beside a float. -/
private def loopAndPrint : List Statement :=
  [⟨[⟨"go", 1⟩], ⟨1, .loop ⟨"i"⟩ (.literal (.integer 1)) (.literal (.integer 2))
      (.literal (.integer 1))⟩⟩,
    ⟨[], ⟨2, .print [.literal (.string "a\"b"), .literal (.float ⟨0x3f000000⟩)]⟩⟩]

private theorem compile_loopAndPrint :
    (compile "go: for i=1 to 2\nprint \"a\\\"b\",.5").result = .ok loopAndPrint := by
  have tokens : (lex "go: for i=1 to 2\nprint \"a\\\"b\",.5").tokens =
      [⟨.label, some "go", ⟨1, 0⟩⟩, ⟨.keyword .FOR, none, ⟨1, 4⟩⟩, ⟨.word, some "i", ⟨1, 8⟩⟩,
        ⟨.symbol (.relation .equal), none, ⟨1, 9⟩⟩, ⟨.number, some "1", ⟨1, 10⟩⟩,
        ⟨.keyword .TO, none, ⟨1, 12⟩⟩, ⟨.number, some "2", ⟨1, 15⟩⟩, ⟨.endOfLine, none, ⟨1, 16⟩⟩,
        ⟨.keyword .PRINT, none, ⟨2, 0⟩⟩, ⟨.string, some "a\"b", ⟨2, 6⟩⟩,
        ⟨.symbol .comma, none, ⟨2, 12⟩⟩, ⟨.number, some ".5", ⟨2, 13⟩⟩] := by decide +kernel
  have derived : DerivesProgram (lex "go: for i=1 to 2\nprint \"a\\\"b\",.5").tokens
      loopAndPrint := by
    rw [tokens]
    exact .more (p := [_, _, _, _, _, _, _])
      (.label rfl (.command (.loop (p := [_]) rfl rfl rfl
        (operand .sum (.number rfl (by decide +kernel))) rfl
        (operand .sum (.number rfl (by decide +kernel))))))
      rfl (.last (.command (.print rfl (.more (p := [_]) (operand .sum (.string rfl)) rfl
        (.one (operand .sum (.number rfl (by decide +kernel))))))))
  exact congrArg Parsed.result (parse_complete derived)

theorem compile_programText_of_loop_and_print :
    (compile (programText loopAndPrint)).result = .ok loopAndPrint ∧
      ∀ event ∈ (compile (programText loopAndPrint)).log, event.level ≠ .warn := by
  have plain : ∀ s ∈ loopAndPrint, ∀ value ∈ s.literals, value.IsPlain := by decide +kernel
  exact compile_programText compile_loopAndPrint plain

end LabelBasic
