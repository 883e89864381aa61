import LabelBasic.Proofs.Lines

/-!
# How a source text is divided

Main result: a text is the lexemes of its tokens one after the other, with skipped characters
between them, where each lexeme is the longest of its form. That is so in one way only, and it is
what lexing finds: nothing of the text is lost, and nothing is added to it.
-/
namespace LabelBasic

/-! ### Forms -/

/-- What a lexeme is by the character that it starts with. A label is a word with a colon. -/
inductive Form where
  | word | number | string | symbol | lineEnd
  deriving DecidableEq, Repr

/-- Digits and points, with at most one point in all. -/
structure IsNumber (cs : List Char) : Prop where
  nonempty : cs ≠ []
  each : ∀ c ∈ cs, c.isDigit = true ∨ c = '.'
  points : cs.count '.' ≤ 1

/-- The inside of a string as it is written, and the text that is meant. A backslash stands for the
character behind it, so a quote is inside only behind one. -/
inductive Unescapes : List Char → List Char → Prop
  | nil : Unescapes [] []
  | plain {c : Char} {cs text : List Char} (quote : c ≠ '"') (backslash : c ≠ '\\')
      (rest : Unescapes cs text) : Unescapes (c :: cs) (c :: text)
  | escaped {c : Char} {cs text : List Char} (rest : Unescapes cs text) :
      Unescapes ('\\' :: c :: cs) (c :: text)

/-- A string that is not closed, perhaps with a backslash that has nothing behind it. -/
inductive IsUnterminated : List Char → Prop
  | unclosed {cs text : List Char} (inside : Unescapes cs text) : IsUnterminated ('"' :: cs)
  | dangling {cs text : List Char} (inside : Unescapes cs text) :
      IsUnterminated ('"' :: (cs ++ ['\\']))

/-- These characters, with these behind them, are of the form, and they spell a token of this kind
and text. -/
inductive Spells : Form → List Char → List Char → Token.Kind → Option String → Prop
  | lineEnd {rest : List Char} : Spells .lineEnd ['\n'] rest .endOfLine none
  | keyword {cs rest : List Char} {k : Keyword} (word : IsWord cs)
      (folded : (String.ofList cs).toLower = k.spelling) : Spells .word cs rest (.keyword k) none
  | word {cs rest : List Char} (word : IsWord cs)
      (other : ∀ k : Keyword, (String.ofList cs).toLower ≠ k.spelling) :
      Spells .word cs rest .word (some (String.ofList cs))
  | label {name rest : List Char} (stem : IsStem name) :
      Spells .word (name ++ [':']) rest .label (some (String.ofList name))
  | number {cs rest : List Char} (number : IsNumber cs) :
      Spells .number cs rest .number (some (String.ofList cs))
  | string {cs text rest : List Char} (inside : Unescapes cs text) :
      Spells .string ('"' :: (cs ++ ['"'])) rest .string (some (String.ofList text))
  /-- The text may end in a string, also behind a backslash. -/
  | unclosed {cs text : List Char} (inside : Unescapes cs text) :
      Spells .string ('"' :: cs) [] .string (some (String.ofList text))
  | dangling {cs text : List Char} (inside : Unescapes cs text) :
      Spells .string ('"' :: (cs ++ ['\\'])) [] .string (some (String.ofList text))
  | symbol {rest : List Char} (s : Symbol) :
      Spells .symbol s.spelling.toList rest (.symbol s) none

/-- No more characters from what is behind would be of the form. -/
structure IsLongest (form : Form) (cs rest : List Char) (kind : Token.Kind)
    (text? : Option String) : Prop where
  spells : Spells form cs rest kind text?
  longest : ∀ more rest' kind text?, rest = more ++ rest' →
    Spells form (cs ++ more) rest' kind text? → more = []

/-- No token starts with the character. -/
def StartsNone (c : Char) : Prop :=
  ∀ form cs rest kind text?, ¬Spells form (c :: cs) rest kind text?

/-- The text is the lexemes of these tokens, each the longest of its form, and characters that are
skipped. -/
inductive Divides : List Char → List (Token.Kind × Option String) → Prop
  | nil : Divides [] []
  | skip {c : Char} {rest : List Char} {ts : List (Token.Kind × Option String)}
      (skipped : c = ' ' ∨ c = '\t' ∨ c = '\r' ∨ StartsNone c) (later : Divides rest ts) :
      Divides (c :: rest) ts
  | token {form : Form} {cs rest : List Char} {kind : Token.Kind} {text? : Option String}
      {ts : List (Token.Kind × Option String)} (first : IsLongest form cs rest kind text?)
      (later : Divides rest ts) : Divides (cs ++ rest) ((kind, text?) :: ts)

/-! ### The first character -/

/-- The form of what starts with the character. -/
def Form.ofStart? (c : Char) : Option Form :=
  if c = '\n' then some .lineEnd
  else if c = '"' then some .string
  else if isWordStart c then some .word
  else if c.isDigit ∨ c = '.' then some .number
  else if (Symbol.ofSpelling? [c]).isSome then some .symbol
  else none

namespace Form

theorem ofStart?_of_isWordStart {c : Char} (starts : isWordStart c = true) :
    ofStart? c = some .word := by
  have other : ∀ d : Char, isWordStart d = false → c ≠ d := by
    rintro d no rfl
    exact absurd starts (by simp [no])
  rw [ofStart?, if_neg (other _ (by decide)), if_neg (other _ (by decide)), if_pos starts]

theorem ofStart?_of_isNumberStart {c : Char} (starts : c.isDigit = true ∨ c = '.') :
    ofStart? c = some .number := by
  rcases starts with digit | rfl
  · have other : ∀ d : Char, d.isDigit = false → c ≠ d := by
      rintro d no rfl
      exact absurd digit (by simp [no])
    rw [ofStart?, if_neg (other _ (by decide)), if_neg (other _ (by decide)),
      if_neg (by simp [not_isWordStart_of_isDigit digit]), if_pos (.inl digit)]
  · decide

theorem ofStart?_of_spelling {s : Symbol} {c : Char} {cs : List Char}
    (spelled : s.spelling.toList = c :: cs) : ofStart? c = some .symbol := by
  cases s with
  | relation r =>
    cases r <;> cases spelled <;> decide
  | operator op => cases op <;> cases spelled <;> decide
  | leftParen | rightParen | comma => cases spelled; decide

end Form

section

variable {form : Form} {c : Char} {cs rest : List Char} {kind : Token.Kind} {text? : Option String}

theorem isStem_cons : IsStem (c :: cs) ↔
    isWordStart c = true ∧ isSuffix c = false ∧ ∀ d ∈ cs, isWordPart d = true :=
  ⟨fun ⟨starts, plain, each⟩ => ⟨starts, plain, each⟩, fun ⟨starts, plain, each⟩ =>
    ⟨starts, plain, each⟩⟩

theorem isWordStart_of_isSuffix (suffix : isSuffix c = true) : isWordStart c = true := by
  have marks : c = '$' ∨ c = '%' := by simpa [isSuffix] using suffix
  rcases marks with rfl | rfl <;> decide

theorem isWordStart_of_isWord (word : IsWord (c :: cs)) : isWordStart c = true := by
  generalize eq : c :: cs = whole at word
  cases word with
  | mark suffix =>
    cases eq
    exact isWordStart_of_isSuffix suffix
  | stem stem =>
    obtain ⟨starts⟩ := stem
    cases eq
    exact starts
  | suffixed stem =>
    obtain ⟨starts⟩ := stem
    cases eq
    exact starts

theorem length_spelling (s : Symbol) :
    s.spelling.toList.length = 1 ∨ s.spelling.toList.length = 2 := by
  cases s with
  | relation r => cases r <;> decide
  | operator op => cases op <;> decide
  | leftParen | rightParen | comma => decide

/-- The first character tells the form. -/
theorem Spells.ofStart? (spells : Spells form (c :: cs) rest kind text?) :
    Form.ofStart? c = some form := by
  generalize eq : c :: cs = whole at spells
  cases spells with
  | lineEnd => cases eq; rfl
  | keyword word | word word =>
    cases eq
    exact Form.ofStart?_of_isWordStart (isWordStart_of_isWord word)
  | label stem =>
    obtain ⟨starts⟩ := stem
    cases eq
    exact Form.ofStart?_of_isWordStart starts
  | number number =>
    cases eq
    exact Form.ofStart?_of_isNumberStart (number.each c List.mem_cons_self)
  | string | unclosed | dangling => cases eq; rfl
  | symbol s => exact Form.ofStart?_of_spelling eq.symm

theorem startsNone_of_ofStart? (none : Form.ofStart? c = none) : StartsNone c := by
  intro form cs rest kind text? spells
  cases none.symm.trans spells.ofStart?

theorem Spells.ne_nil (spells : Spells form cs rest kind text?) : cs ≠ [] := by
  cases spells with
  | lineEnd | string | unclosed | dangling => exact List.cons_ne_nil _ _
  | keyword word | word word =>
    cases word with
    | mark => exact List.cons_ne_nil _ _
    | stem stem =>
      obtain ⟨_⟩ := stem
      exact List.cons_ne_nil _ _
    | suffixed => exact List.append_ne_nil_of_right_ne_nil _ (List.cons_ne_nil _ _)
  | label => exact List.append_ne_nil_of_right_ne_nil _ (List.cons_ne_nil _ _)
  | number number => exact number.nonempty
  | symbol s =>
    have length := length_spelling s
    exact List.ne_nil_of_length_pos (by omega)

end

/-! ### Words -/

section

variable {first c : Char} {part more rest : List Char} {kind : Token.Kind} {text? : Option String}

theorem isStem_append {cs : List Char} (stem : IsStem cs) :
    first :: (part ++ c :: more) = cs → isSuffix first = false ∧ (∀ d ∈ part, isWordPart d = true) ∧
      isWordPart c = true := by
  rintro rfl
  obtain ⟨_, plain, each⟩ := isStem_cons.mp stem
  exact ⟨plain, fun d member => each d (by simp [member]), each c (by simp)⟩

/-- What can go on within a word or label: parts of words, and a suffix or a colon at the end. -/
theorem Spells.word_append (spells : Spells .word (first :: (part ++ c :: more)) rest kind text?) :
    isSuffix first = false ∧ (∀ d ∈ part, isWordPart d = true) ∧
      (isWordPart c = true ∨ more = [] ∧ (isSuffix c = true ∨ c = ':')) := by
  -- The last character may be the end of a stem that the others are.
  have ends {name : List Char} {e : Char} (stem : IsStem name)
      (eq : first :: (part ++ c :: more) = name ++ [e]) :
      isSuffix first = false ∧ (∀ d ∈ part, isWordPart d = true) ∧
        (isWordPart c = true ∨ more = [] ∧ c = e) := by
    rcases List.eq_nil_or_concat more with rfl | ⟨more, last, rfl⟩
    · have eq : (first :: part) ++ [c] = name ++ [e] := eq
      obtain ⟨rfl, same⟩ := List.append_inj' eq rfl
      obtain ⟨_, plain, each⟩ := isStem_cons.mp stem
      exact ⟨plain, each, .inr ⟨rfl, List.singleton_inj.mp same⟩⟩
    · have eq : first :: (part ++ c :: more) ++ [last] = name ++ [e] := by simpa using eq
      obtain ⟨inner, -⟩ := List.append_inj' eq rfl
      obtain ⟨plain, each, inside⟩ := isStem_append stem inner
      exact ⟨plain, each, .inl inside⟩
  generalize eq : first :: (part ++ c :: more) = whole at spells
  have ofWord (word : IsWord whole) : isSuffix first = false ∧ (∀ d ∈ part, isWordPart d = true) ∧
      (isWordPart c = true ∨ more = [] ∧ (isSuffix c = true ∨ c = ':')) := by
    cases word with
    | mark => cases part <;> cases eq
    | stem stem =>
      obtain ⟨plain, each, inside⟩ := isStem_append stem eq
      exact ⟨plain, each, .inl inside⟩
    | suffixed stem suffix =>
      obtain ⟨plain, each, inside | ⟨last, rfl⟩⟩ := ends stem eq
      · exact ⟨plain, each, .inl inside⟩
      · exact ⟨plain, each, .inr ⟨last, .inl suffix⟩⟩
  cases spells with
  | keyword word | word word => exact ofWord word
  | label stem =>
    obtain ⟨plain, each, inside | ⟨last, colon⟩⟩ := ends stem eq
    · exact ⟨plain, each, .inl inside⟩
    · exact ⟨plain, each, .inr ⟨last, .inr colon⟩⟩

end

/-- Between a lexeme and what is behind it. -/
theorem IsLongest.of_stop {form : Form} {cs rest : List Char} {kind : Token.Kind}
    {text? : Option String} (spells : Spells form cs rest kind text?)
    (stop : ∀ c ∈ rest.head?, ∀ more rest' kind text?,
      ¬Spells form (cs ++ c :: more) rest' kind text?) : IsLongest form cs rest kind text? := by
  refine ⟨spells, ?_⟩
  rintro more rest' kind text? rfl longer
  cases more with
  | nil => rfl
  | cons c more => exact absurd longer (stop c rfl more rest' kind text?)

/-- No string is of another form. -/
theorem Spells.not_isUnterminated {form : Form} {cs rest : List Char} {kind : Token.Kind}
    {text? : Option String} (spells : Spells form cs rest kind text?) (other : form ≠ .string) :
    ¬IsUnterminated cs := by
  intro unterminated
  cases unterminated <;> exact other (Option.some.inj spells.ofStart?).symm

/-- In front of these characters the lexeme is that of a token, or a character that is skipped. -/
inductive Lexeme.Fits : Lexeme → List Char → Prop
  | token {l : Lexeme} {rest : List Char} {form : Form} {kind : Token.Kind} {text? : Option String}
      (made : ∀ p, l.token? p = some ⟨kind, text?, p⟩) (quiet : ∀ p, l.warning? p = none)
      (terminated : ¬IsUnterminated l.chars) (longest : IsLongest form l.chars rest kind text?) :
      Fits l rest
  | unterminated {l : Lexeme} {rest : List Char} {kind : Token.Kind} {text? : Option String}
      (made : ∀ p, l.token? p = some ⟨kind, text?, p⟩)
      (warned : ∀ p, l.warning? p = some (.unterminatedString p))
      (unterminated : IsUnterminated l.chars)
      (longest : IsLongest .string l.chars rest kind text?) : Fits l rest
  | blank {c : Char} {rest : List Char} (kind : c = ' ' ∨ c = '\t') : Fits (.blank c) rest
  | carriageReturn {rest : List Char} : Fits .carriageReturn rest
  | stray {c : Char} {rest : List Char} (other : ¬(c = ' ' ∨ c = '\t' ∨ c = '\r'))
      (none : StartsNone c) : Fits (.stray c) rest

theorem Lexeme.Fits.of_stop {l : Lexeme} {rest : List Char} {form : Form} {kind : Token.Kind}
    {text? : Option String} (other : form ≠ .string) (made : ∀ p, l.token? p = some ⟨kind, text?, p⟩)
    (quiet : ∀ p, l.warning? p = none) (spells : Spells form l.chars rest kind text?)
    (stop : ∀ c ∈ rest.head?, ∀ more rest' kind text?,
      ¬Spells form (l.chars ++ c :: more) rest' kind text?) : l.Fits rest :=
  .token made quiet (spells.not_isUnterminated other) (.of_stop spells stop)

namespace Lexeme

theorem ofWord?_iff {w : String} {k : Keyword} :
    Keyword.ofWord? w = some k ↔ w.toLower = k.spelling := by
  constructor
  · intro found
    have same := List.find?_some found
    exact (by simpa using same : k.spelling = w.toLower).symm
  · intro folded
    rw [Keyword.ofWord?, folded]
    cases k <;> rfl

theorem head?_dropWhile {p : Char → Bool} {cs : List Char} {c : Char}
    (head : c ∈ (cs.dropWhile p).head?) : p c = false := by
  have stops := List.head?_dropWhile_not p cs
  rwa [Option.mem_def.mp head] at stops

theorem word_fits {cs rest : List Char} (word : IsWord cs)
    (stop : ∀ c ∈ rest.head?, ∀ more rest' kind text?,
      ¬Spells .word (cs ++ c :: more) rest' kind text?) : (Lexeme.word cs).Fits rest := by
  cases found : Keyword.ofWord? (String.ofList cs) with
  | some k =>
    refine .of_stop (by decide) (fun p => ?_) (fun _ => rfl)
      (.keyword word (ofWord?_iff.mp found)) stop
    simp only [token?, wordToken, found]
  | none =>
    have other (k : Keyword) : (String.ofList cs).toLower ≠ k.spelling := fun folded => by
      cases found.symm.trans (ofWord?_iff.mpr folded)
    refine .of_stop (by decide) (fun p => ?_) (fun _ => rfl) (.word word other) stop
    simp only [token?, wordToken, found, chars]

theorem scanWord_fits {first : Char} (starts : isWordStart first = true) (rest : List Char) :
    (scanWord first rest).1.Fits (scanWord first rest).2 := by
  simp only [scanWord]
  split
  next suffix =>
    refine word_fits (.mark suffix) fun c _ more _ _ _ longer => ?_
    have longer : Spells .word (first :: ([] ++ c :: more)) _ _ _ := longer
    exact Bool.noConfusion (suffix.symm.trans longer.word_append.1)
  next plain =>
    have stem : IsStem (first :: rest.takeWhile isWordPart) :=
      .intro starts (by simpa using plain) (List.all_eq_true.mp List.all_takeWhile)
    generalize rest.takeWhile isWordPart = part at stem
    -- What stopped the stem is a suffix, a colon, or belongs to the next lexeme.
    cases behind : rest.dropWhile isWordPart with
    | nil => exact word_fits (.stem stem) (by simp)
    | cons c after =>
      have other : isWordPart c = false := head?_dropWhile (by rw [behind]; rfl)
      dsimp only
      split
      next suffix =>
        refine word_fits (.suffixed stem suffix) fun d _ more _ _ _ longer => ?_
        have longer : Spells .word (first :: ((part ++ [c]) ++ d :: more)) _ _ _ := longer
        have inside := longer.word_append.2.1 c (by simp)
        exact Bool.noConfusion (other.symm.trans inside)
      next plain =>
        split
        next colon =>
          refine .of_stop (by decide) (fun _ => rfl) (fun _ => rfl) (.label stem)
            fun d _ more _ _ _ longer => ?_
          have longer : Spells .word (first :: ((part ++ [':']) ++ d :: more)) _ _ _ := longer
          have inside := longer.word_append.2.1 ':' (by simp)
          exact absurd inside (by decide)
        next colon =>
          refine word_fits (.stem stem) ?_
          rintro _ ⟨⟩ more _ _ _ longer
          have longer : Spells .word (first :: (part ++ c :: more)) _ _ _ := longer
          rcases longer.word_append.2.2 with inside | ⟨_, suffix | same⟩
          · exact Bool.noConfusion (other.symm.trans inside)
          · exact plain suffix
          · exact colon same

/-! ### Numbers -/

theorem number_fits {cs rest : List Char} (number : IsNumber cs)
    (stop : ∀ c ∈ rest.head?, c.isDigit = false ∧ (c = '.' → '.' ∈ cs)) :
    (Lexeme.number cs).Fits rest := by
  refine .of_stop (by decide) (fun _ => rfl) (fun _ => rfl) (.number number)
    fun c head more _ _ _ longer => ?_
  obtain ⟨digit, point⟩ := stop c head
  cases longer with
  | number longer =>
    rcases longer.each c (by simp) with inside | rfl
    · exact Bool.noConfusion (digit.symm.trans inside)
    · have points := longer.points
      have first := List.count_pos_iff.mpr (point rfl)
      simp only [chars, List.count_append, List.count_cons_self] at points
      omega

theorem count_point {cs : List Char} (each : ∀ c ∈ cs, c.isDigit = true) : cs.count '.' = 0 :=
  List.count_eq_zero.mpr fun member => absurd (each _ member) (by decide)

theorem scanNumber_fits {first : Char} (starts : first.isDigit = true ∨ first = '.')
    (rest : List Char) : (scanNumber first rest).1.Fits (scanNumber first rest).2 := by
  have run (cs : List Char) : ∀ c ∈ cs.takeWhile Char.isDigit, c.isDigit = true :=
    List.all_eq_true.mp List.all_takeWhile
  have whole : IsNumber (first :: rest.takeWhile Char.isDigit) := by
    refine ⟨List.cons_ne_nil _ _, List.forall_mem_cons.mpr ⟨starts, ?_⟩, ?_⟩
    · exact fun c member => .inl (run rest c member)
    rw [List.count_cons, count_point (run rest)]
    split <;> omega
  simp only [scanNumber]
  split
  next after behind =>
    split
    next point =>
      -- The point is the first character, so there cannot be another one.
      refine number_fits whole ?_
      rintro _ ⟨⟩
      exact ⟨by decide, fun _ => point ▸ List.mem_cons_self⟩
    next digit =>
      refine number_fits ⟨List.cons_ne_nil _ _, ?_, ?_⟩ fun c head => ⟨?_, fun _ => by simp⟩
      · intro c member
        rcases List.mem_append.mp member with before | below
        · exact whole.each c before
        · rcases List.mem_cons.mp below with rfl | below
          · exact .inr rfl
          · exact .inl (run _ c below)
      · have points : (rest.takeWhile Char.isDigit ++
            '.' :: after.takeWhile Char.isDigit).count '.' = 1 := by
          rw [List.count_append, List.count_cons_self, count_point (run _), count_point (run _)]
        refine Nat.le_of_eq ?_
        rw [List.cons_append, List.count_cons_of_ne digit, points]
      · exact head?_dropWhile head
  next other =>
    refine number_fits whole fun c head => ⟨head?_dropWhile head, ?_⟩
    rintro rfl
    obtain ⟨after, behind⟩ := List.head?_eq_some_iff.mp head
    exact absurd behind (other after)

/-! ### Strings -/

/-- Behind the inside of a string the scanner comes to what is behind it. -/
theorem scanString_behind {cs text : List Char} (inside : Unescapes cs text) (rest : List Char) :
    (scanString (cs ++ rest)).1.map Piece.char = text ++ (scanString rest).1.map Piece.char ∧
      (scanString (cs ++ rest)).2 = (scanString rest).2 := by
  induction inside with
  | nil => exact ⟨rfl, rfl⟩
  | @plain c cs text quote backslash _ ih =>
    rw [List.cons_append, scanString_plain quote backslash]
    exact ⟨congrArg (c :: ·) ih.1, ih.2⟩
  | @escaped c cs text _ ih =>
    rw [List.cons_append, List.cons_append, scanString]
    exact ⟨congrArg (c :: ·) ih.1, ih.2⟩

theorem unescapes_scanString (cs : List Char) :
    Unescapes ((scanString cs).1.flatMap Piece.chars) ((scanString cs).1.map Piece.char) := by
  fun_induction scanString cs with
  | case1 => exact .nil
  | case2 => exact .nil
  | case3 => exact .nil
  | case4 c rest pieces ending after eq ih =>
    rw [eq] at ih
    exact .escaped ih
  | case5 c rest quote last escape pieces ending after eq ih =>
    rw [eq] at ih
    exact .plain quote (ne_backslash last escape) ih

/-- Nothing is behind a string that does not end with a quote. -/
theorem scanString_rest (cs : List Char) :
    (scanString cs).2.1 = .quote ∨ (scanString cs).2.2 = [] := by
  fun_induction scanString cs with
  | case1 => exact .inr rfl
  | case2 => exact .inl rfl
  | case3 => exact .inr rfl
  | case4 c rest pieces ending after eq ih | case5 c rest _ _ _ pieces ending after eq ih =>
    rw [eq] at ih
    exact ih

/-- What is of the form of a string, as the scanner takes it. -/
theorem scanString_of_spells {cs rest : List Char} {kind : Token.Kind} {text? : Option String}
    (spells : Spells .string cs rest kind text?) :
    ∃ inside, cs = '"' :: inside ∧ kind = .string ∧
      text? = some (String.ofList ((scanString inside).1.map Piece.char)) ∧
      (scanString inside).2.2 = [] := by
  cases spells with
  | @string inside text _ unescapes =>
    obtain ⟨same, behind⟩ := scanString_behind unescapes ['"']
    refine ⟨_, rfl, rfl, ?_, congrArg Prod.snd behind⟩
    rw [same]
    simp [scanString]
  | @unclosed inside text unescapes =>
    obtain ⟨same, behind⟩ := scanString_behind unescapes []
    rw [List.append_nil] at same behind
    refine ⟨_, rfl, rfl, ?_, congrArg Prod.snd behind⟩
    rw [same]
    simp [scanString]
  | @dangling inside text unescapes =>
    obtain ⟨same, behind⟩ := scanString_behind unescapes ['\\']
    refine ⟨_, rfl, rfl, ?_, congrArg Prod.snd behind⟩
    rw [same]
    simp [scanString]

theorem not_isUnterminated_of_quoted {cs text : List Char} (inside : Unescapes cs text) :
    ¬IsUnterminated ('"' :: (cs ++ ['"'])) := by
  intro unterminated
  have closed := (scanString_behind inside ['"']).2
  generalize eq : '"' :: (cs ++ ['"']) = whole at unterminated
  cases unterminated with
  | unclosed inside =>
    have cut := (scanString_behind inside []).2
    rw [List.append_nil, ← (List.cons.inj eq).2, closed] at cut
    cases cut
  | dangling inside =>
    have cut := (scanString_behind inside ['\\']).2
    rw [← (List.cons.inj eq).2, closed] at cut
    cases cut

theorem string_fits (cs : List Char) :
    (Lexeme.string (scanString cs).1 (scanString cs).2.1).Fits (scanString cs).2.2 := by
  have inside := unescapes_scanString cs
  have last := scanString_rest cs
  generalize (scanString cs).1 = pieces at inside
  generalize (scanString cs).2 = behind at last
  obtain ⟨ending, rest⟩ := behind
  cases ending with
  | quote =>
    refine .token (fun _ => rfl) (fun _ => rfl) (not_isUnterminated_of_quoted inside)
      ⟨.string inside, ?_⟩
    -- The scanner takes all of a string, and here it stops at the first quote.
    rintro more rest' kind text? rfl longer
    obtain ⟨whole, eq, _, _, none⟩ := scanString_of_spells longer
    have same : whole = pieces.flatMap Piece.chars ++ '"' :: more := by
      have tails := (List.cons.inj eq).2
      simpa [StringEnd.chars] using tails.symm
    rw [same, (scanString_behind inside _).2] at none
    exact none
  | source =>
    obtain rfl : rest = [] := by simpa using last
    have chars : (Lexeme.string pieces .source).chars = '"' :: pieces.flatMap Piece.chars :=
      List.append_nil _
    refine .unterminated (fun _ => rfl) (fun _ => rfl) ?_ ⟨?_, ?_⟩
    · exact chars ▸ .unclosed inside
    · exact chars ▸ .unclosed inside
    intro more rest' _ _ eq _
    exact (List.append_eq_nil_iff.mp eq.symm).1
  | backslash =>
    obtain rfl : rest = [] := by simpa using last
    refine .unterminated (fun _ => rfl) (fun _ => rfl) (.dangling inside) ⟨.dangling inside, ?_⟩
    intro more rest' _ _ eq _
    exact (List.append_eq_nil_iff.mp eq.symm).1

/-! ### Symbols and other characters -/

theorem ofSpelling?_spelling (s : Symbol) : Symbol.ofSpelling? s.spelling.toList = some s := by
  cases s with
  | relation r => cases r <;> decide
  | operator op => cases op <;> decide
  | leftParen | rightParen | comma => decide

theorem symbol_fits {s : Symbol} {rest : List Char}
    (stop : ∀ c ∈ rest.head?, ∀ pair : Symbol, pair.spelling.toList ≠ s.spelling.toList ++ [c]) :
    (Lexeme.symbol s).Fits rest := by
  refine .of_stop (by decide) (fun _ => rfl) (fun _ => rfl) (.symbol s)
    fun c head more _ _ _ longer => ?_
  generalize eq : (Lexeme.symbol s).chars ++ c :: more = cs at longer
  cases longer with
  | symbol pair =>
    have lengths := congrArg List.length eq
    rw [chars, List.length_append, List.length_cons] at lengths
    have one := length_spelling s
    have two := length_spelling pair
    obtain rfl : more = [] := List.length_eq_zero_iff.mp (by omega)
    exact stop c head pair eq.symm

theorem scanSymbol?_fits {first : Char} {rest : List Char} {r : Lexeme × List Char}
    (found : scanSymbol? first rest = some r) : r.1.Fits r.2 := by
  cases rest with
  | nil =>
    obtain ⟨s, _, rfl⟩ := Option.map_eq_some_iff.mp found
    exact symbol_fits (by simp)
  | cons second after =>
    simp only [scanSymbol?, Option.or_eq_some_iff] at found
    rcases found with two | ⟨none, one⟩
    · obtain ⟨s, spelled, rfl⟩ := Option.map_eq_some_iff.mp two
      refine symbol_fits fun c _ pair same => ?_
      have lengths := congrArg List.length same
      rw [spelling_of_ofSpelling? spelled] at lengths
      have two := length_spelling pair
      simp only [List.length_append, List.length_cons, List.length_nil] at lengths
      omega
    · obtain ⟨s, spelled, rfl⟩ := Option.map_eq_some_iff.mp one
      refine symbol_fits ?_
      rintro _ ⟨⟩ pair same
      rw [spelling_of_ofSpelling? spelled] at same
      have known := ofSpelling?_spelling pair
      rw [same] at known
      cases (Option.map_eq_none_iff.mp none).symm.trans known

theorem scan_fits (first : Char) (rest : List Char) :
    (scan first rest).1.Fits (scan first rest).2 := by
  simp only [scan]
  split
  next blank => exact .blank blank
  split
  next => exact .carriageReturn
  split
  next =>
    refine .of_stop (by decide) (fun _ => rfl) (fun _ => rfl) .lineEnd fun c _ more _ _ _ longer => ?_
    cases longer
  split
  next => exact string_fits rest
  split
  next starts => exact scanWord_fits starts rest
  split
  next starts => exact scanNumber_fits starts rest
  next blank carriageReturn lineFeed quote letter number =>
    cases found : scanSymbol? first rest with
    | none =>
      have single : Symbol.ofSpelling? [first] = none := by
        cases rest with
        | nil => exact Option.map_eq_none_iff.mp found
        | cons second after => exact Option.map_eq_none_iff.mp (Option.or_eq_none_iff.mp found).2
      have none : Form.ofStart? first = none := by
        rw [Form.ofStart?, if_neg lineFeed, if_neg quote, if_neg letter, if_neg number, single]
        rfl
      refine .stray ?_ (startsNone_of_ofStart? none)
      exact not_or.mpr ⟨mt .inl blank, not_or.mpr ⟨mt .inr blank, carriageReturn⟩⟩
    | some r => exact scanSymbol?_fits found

end Lexeme

theorem divides_lexemes (p : Position) (cs : List Char) :
    Divides cs ((tokensAt p (lexemes cs)).map fun t => (t.kind, t.text?)) := by
  induction cs using lexemes.induct generalizing p with
  | case1 =>
    rw [lexemes]
    exact .nil
  | case2 first rest ih =>
    have whole := Lexeme.chars_scan first rest
    have one := Lexeme.scan_fits first rest
    rw [lexemes, tokensAt_cons]
    generalize (Lexeme.scan first rest).1 = l at whole one
    generalize (Lexeme.scan first rest).2 = behind at whole one ih
    rw [← whole]
    cases one with
    | token made _ _ longest | unterminated made _ _ longest =>
      rw [made]
      exact .token longest (ih _)
    | blank kind => exact .skip (kind.elim .inl (.inr ∘ .inl)) (ih _)
    | carriageReturn => exact .skip (.inr (.inr (.inl rfl))) (ih _)
    | stray _ none => exact .skip (.inr (.inr (.inr none))) (ih _)

/-! ### There is one way only -/

section

variable {c : Char} {cs : List Char} (start : isWordStart c = false) (part : isWordPart c = false)

include start part

theorem not_mem_of_isStem (stem : IsStem cs) : c ∉ cs := by
  obtain ⟨starts, _, each⟩ := stem
  intro member
  rcases List.mem_cons.mp member with rfl | inside
  · exact Bool.noConfusion (start.symm.trans starts)
  · exact Bool.noConfusion (part.symm.trans (each c inside))

/-- The characters of a word start or continue one. -/
theorem not_mem_of_isWord (word : IsWord cs) : c ∉ cs := by
  have mark {d : Char} (suffix : isSuffix d = true) : c ∉ [d] := by
    intro member
    cases List.mem_singleton.mp member
    exact Bool.noConfusion (start.symm.trans (isWordStart_of_isSuffix suffix))
  cases word with
  | mark suffix => exact mark suffix
  | stem stem => exact not_mem_of_isStem start part stem
  | suffixed stem suffix =>
    intro member
    exact (List.mem_append.mp member).elim (not_mem_of_isStem start part stem) (mark suffix)

end

section

variable {cs rest : List Char} {kind kind' : Token.Kind} {text? text?' : Option String}

/-- A word is told from a label by its characters, and a keyword from other words. -/
theorem Spells.word_or_label (spells : Spells .word cs rest kind text?) :
    (IsWord cs ∧ ∀ p, Lexeme.wordToken (String.ofList cs) p = ⟨kind, text?, p⟩) ∨
      ∃ name, cs = name ++ [':'] ∧ kind = .label ∧ text? = some (String.ofList name) := by
  cases spells with
  | keyword word folded =>
    refine .inl ⟨word, fun p => ?_⟩
    rw [Lexeme.wordToken, Lexeme.ofWord?_iff.mpr folded]
  | word word other =>
    refine .inl ⟨word, fun p => ?_⟩
    have none : Keyword.ofWord? (String.ofList cs) = none :=
      Option.eq_none_iff_forall_ne_some.mpr fun k found => other k (Lexeme.ofWord?_iff.mp found)
    rw [Lexeme.wordToken, none]
  | label => exact .inr ⟨_, rfl, rfl, rfl⟩

theorem Spells.unique {form : Form} (spells : Spells form cs rest kind text?)
    (spells' : Spells form cs rest kind' text?') : kind' = kind ∧ text?' = text? := by
  cases form with
  | word =>
    -- The colon tells a label from a word.
    have colon {cs : List Char} (word : IsWord cs) : ':' ∉ cs :=
      not_mem_of_isWord (by decide) (by decide) word
    rcases spells.word_or_label with ⟨word, made⟩ | ⟨name, rfl, rfl, rfl⟩
    · rcases spells'.word_or_label with ⟨_, made'⟩ | ⟨name, rfl, -⟩
      · cases (made .start).symm.trans (made' .start)
        exact ⟨rfl, rfl⟩
      · exact absurd (by simp) (colon word)
    · rcases spells'.word_or_label with ⟨word, -⟩ | ⟨name', same, rfl, rfl⟩
      · exact absurd (by simp) (colon word)
      · rw [List.append_cancel_right same]
        exact ⟨rfl, rfl⟩
  | string =>
    obtain ⟨inside, rfl, rfl, rfl, -⟩ := Lexeme.scanString_of_spells spells
    obtain ⟨inside', same, rfl, rfl, -⟩ := Lexeme.scanString_of_spells spells'
    cases same
    exact ⟨rfl, rfl⟩
  | symbol =>
    cases spells with
    | symbol s =>
      generalize eq : s.spelling.toList = whole at spells'
      cases spells' with
      | symbol t =>
        have same := Lexeme.ofSpelling?_spelling s
        rw [eq, Lexeme.ofSpelling?_spelling] at same
        cases same
        exact ⟨rfl, rfl⟩
  | number | lineEnd =>
    cases spells
    cases spells'
    exact ⟨rfl, rfl⟩

end

theorem IsLongest.unique {form : Form} {cs cs' rest rest' : List Char} {kind kind' : Token.Kind}
    {text? text?' : Option String} (longest : IsLongest form cs rest kind text?)
    (longest' : IsLongest form cs' rest' kind' text?') (same : cs ++ rest = cs' ++ rest') :
    cs' = cs ∧ rest' = rest := by
  rcases List.append_eq_append_iff.mp same with ⟨more, rfl, rfl⟩ | ⟨more, rfl, rfl⟩
  · obtain rfl := longest.longest more _ _ _ rfl longest'.spells
    exact ⟨List.append_nil _, rfl⟩
  · obtain rfl := longest'.longest more _ _ _ rfl longest.spells
    exact ⟨(List.append_nil _).symm, rfl⟩

/-- What is skipped starts no token, not even a blank or a carriage return. -/
theorem startsNone_of_skipped {c : Char}
    (skipped : c = ' ' ∨ c = '\t' ∨ c = '\r' ∨ StartsNone c) : StartsNone c := by
  rcases skipped with rfl | rfl | rfl | none
  · exact startsNone_of_ofStart? (by decide)
  · exact startsNone_of_ofStart? (by decide)
  · exact startsNone_of_ofStart? (by decide)
  · exact none

theorem Spells.exists_start {form : Form} {cs rest : List Char} {kind : Token.Kind}
    {text? : Option String} (spells : Spells form cs rest kind text?) :
    ∃ c tail, cs = c :: tail ∧ Form.ofStart? c = some form := by
  obtain ⟨c, tail, rfl⟩ := List.exists_cons_of_ne_nil spells.ne_nil
  exact ⟨c, tail, rfl, spells.ofStart?⟩

theorem Divides.unique {cs : List Char} {ts ts' : List (Token.Kind × Option String)}
    (divides : Divides cs ts) (divides' : Divides cs ts') : ts' = ts := by
  induction divides generalizing ts' with
  | nil =>
    generalize eq : [] = whole at divides'
    cases divides' with
    | nil => rfl
    | skip => cases eq
    | token first => exact absurd (List.append_eq_nil_iff.mp eq.symm).1 first.spells.ne_nil
  | @skip c rest ts skipped _ ih =>
    generalize eq : c :: rest = whole at divides'
    cases divides' with
    | nil => cases eq
    | skip _ later =>
      cases eq
      exact ih later
    | token first =>
      obtain ⟨d, tail, rfl, -⟩ := first.spells.exists_start
      cases eq
      exact absurd first.spells (startsNone_of_skipped skipped _ _ _ _ _)
  | @token form cs rest kind text? ts first _ ih =>
    obtain ⟨c, tail, rfl, start⟩ := first.spells.exists_start
    generalize eq : c :: tail ++ rest = whole at divides'
    cases divides' with
    | nil => cases eq
    | skip skipped =>
      cases eq
      exact absurd first.spells (startsNone_of_skipped skipped _ _ _ _ _)
    | token first' later =>
      obtain ⟨c', tail', rfl, start'⟩ := first'.spells.exists_start
      -- The two start alike, so they are of one form.
      obtain rfl : c = c' := (List.cons.inj eq).1
      cases start.symm.trans start'
      obtain ⟨same, rfl⟩ := first.unique first' eq
      rw [same] at first'
      obtain ⟨rfl, rfl⟩ := first.spells.unique first'.spells
      rw [ih later]

/-- A source text is divided into lexemes and skipped characters in one way, and the tokens are
those of its lexemes. -/
theorem divides_iff_lex (source : String) (ts : List (Token.Kind × Option String)) :
    Divides source.toList ts ↔ ts = (lex source).tokens.map fun t => (t.kind, t.text?) := by
  have divides := divides_lexemes .start source.toList
  constructor
  · exact fun divides' => divides.unique divides'
  · rintro rfl
    exact divides

end LabelBasic
