import LabelBasic.Proofs.Grammar
import LabelBasic.Proofs.Numerals

/-!
# Phrases of a listing

A listing is put together from phrases, which stand apart from what follows by a break, and marks,
which need none. Each is read back on its own, so the whole is.
-/
namespace LabelBasic

/-- The lexeme is nothing to warn about. -/
def Lexeme.IsCalm (l : Lexeme) : Prop := ∀ p, l.warning? p = none

theorem warnings_nil {ls : List Lexeme} (calm : ∀ l ∈ ls, l.IsCalm) (p : Position) :
    (placed p ls).filterMap Placed.warning? = [] := by
  induction ls generalizing p with
  | nil => rfl
  | cons l ls ih =>
    obtain ⟨first, rest⟩ := List.forall_mem_cons.mp calm
    have none : Placed.warning? ⟨p, l⟩ = none := first p
    rw [placed, List.filterMap_cons_none none, ih rest]

/-- On line `n` and with such characters behind it, the text is read as such tokens. -/
inductive ReadsAs (n : Nat) (behind : List Char → Prop) (D : List Token → Prop) : String → Prop
  | intro {text : String} (ls : List Lexeme) (spelled : text.toList = ls.flatMap Lexeme.chars)
      (inLine : ∀ l ∈ ls, l.InLine) (calm : ∀ l ∈ ls, l.IsCalm)
      (reads : ∀ rest, behind rest → Reads ls rest)
      (tokens : ∀ p : Position, p.line = n → D (tokensAt p ls)) : ReadsAs n behind D text

/-- A text with a break behind it. -/
abbrev Phrase (n : Nat) (D : List Token → Prop) (text : String) : Prop := ReadsAs n Broken D text

/-- A text with anything behind it. -/
abbrev Mark (n : Nat) (D : List Token → Prop) (text : String) : Prop :=
  ReadsAs n (fun _ => True) D text

/-- Tokens of the one kind, then tokens of the other. -/
def Both (D E : List Token → Prop) (ts : List Token) : Prop := ∃ p q, ts = p ++ q ∧ D p ∧ E q

/-- One token of the kind. -/
def Is (kind : Token.Kind) (ts : List Token) : Prop := ∃ t, ts = [t] ∧ t.kind = kind

section

variable {n : Nat} {behind behind' : List Char → Prop} {D D' E : List Token → Prop}
  {text text' : String}

namespace ReadsAs

theorem mono (first : ReadsAs n behind D text) (weaker : ∀ ts, D ts → D' ts) :
    ReadsAs n behind D' text := by
  obtain ⟨ls, spelled, inLine, calm, reads, tokens⟩ := first
  exact ⟨ls, spelled, inLine, calm, reads, fun p line => weaker _ (tokens p line)⟩

theorem phrase (mark : Mark n D text) : Phrase n D text := by
  obtain ⟨ls, spelled, inLine, calm, reads, tokens⟩ := mark
  exact ⟨ls, spelled, inLine, calm, fun rest _ => reads rest trivial, tokens⟩

theorem append (first : ReadsAs n behind D text) (second : ReadsAs n behind' E text')
    (joins : ∀ rest, behind' rest → behind (text'.toList ++ rest)) :
    ReadsAs n behind' (Both D E) (text ++ text') := by
  obtain ⟨ls, spelled, inLine, calm, reads, tokens⟩ := first
  obtain ⟨ms, spelled', inLine', calm', reads', tokens'⟩ := second
  refine .intro (ls ++ ms) ?_ ?_ ?_ ?_ ?_
  · rw [String.toList_append, spelled, spelled', List.flatMap_append]
  · exact List.forall_mem_append.mpr ⟨inLine, inLine'⟩
  · exact List.forall_mem_append.mpr ⟨calm, calm'⟩
  · intro rest follows
    have apart := joins rest follows
    rw [spelled'] at apart
    exact (reads _ apart).append (reads' rest follows)
  · intro p line
    refine ⟨_, _, tokensAt_append p ls ms, tokens p line, tokens' _ ?_⟩
    rw [line_placeAfter_of_inLine inLine, line]

/-- All tokens of the text are on its line. -/
theorem lines (first : ReadsAs n behind D text) :
    ReadsAs n behind (fun ts => D ts ∧ ∀ t ∈ ts, t.line = n) text := by
  obtain ⟨ls, spelled, inLine, calm, reads, tokens⟩ := first
  refine ⟨ls, spelled, inLine, calm, reads, fun p line => ⟨tokens p line, fun t member => ?_⟩⟩
  rw [line_of_mem_tokensAt inLine member, line]

/-- Nothing has to stand between a mark and what is behind it. -/
theorem join (mark : ReadsAs n (fun _ => True) D text) (second : ReadsAs n behind E text') :
    ReadsAs n behind (Both D E) (text ++ text') :=
  mark.append second fun _ _ => trivial

/-- A phrase ends where the next text starts with a break. -/
theorem apart (first : ReadsAs n Broken D text) (second : ReadsAs n behind E text') {c : Char}
    {more : List Char} (starts : text'.toList = c :: more) (cut : isBreak c = true) :
    ReadsAs n behind (Both D E) (text ++ text') := by
  refine first.append second fun rest _ => ?_
  rw [starts]
  exact broken_cons cut _

end ReadsAs

end

/-! ### Single phrases and marks -/

theorem IsStem.inLine {cs : List Char} (form : IsStem cs) : '\n' ∉ cs := by
  obtain ⟨starts, _, each⟩ := form
  rintro (_ | ⟨_, later⟩)
  · exact absurd starts (by decide)
  · exact absurd (each _ later) (by decide)

theorem IsWord.inLine {cs : List Char} (form : IsWord cs) : '\n' ∉ cs := by
  cases form with
  | mark suffix =>
    intro member
    obtain rfl := List.mem_singleton.mp member
    exact absurd suffix (by decide)
  | stem stem => exact stem.inLine
  | suffixed stem suffix =>
    intro member
    rcases List.mem_append.mp member with inside | last
    · exact stem.inLine inside
    · obtain rfl := List.mem_singleton.mp last
      exact absurd suffix (by decide)

theorem IsNumeral.inLine {cs : List Char} (form : IsNumeral cs) : '\n' ∉ cs := by
  have other : ∀ ds : List Char, (∀ c ∈ ds, c.isDigit = true) → '\n' ∉ ds :=
    fun ds each member => absurd (each _ member) (by decide)
  cases form with
  | whole starts each => exact other _ (List.forall_mem_cons.mpr ⟨starts, each⟩)
  | pointed starts each below =>
    intro member
    rcases List.mem_append.mp member with front | behind
    · exact other _ (List.forall_mem_cons.mpr ⟨starts, each⟩) front
    · rcases List.mem_cons.mp behind with point | later
      · exact absurd point (by decide)
      · exact other _ below later

section

variable {n : Nat}

/-- A text of one lexeme. -/
theorem ReadsAs.one {behind : List Char → Prop} {D : List Token → Prop} {text : String} {l : Lexeme}
    (spelled : text.toList = l.chars) (inLine : '\n' ∉ l.chars) (calm : l.IsCalm)
    (reads : ∀ rest, behind rest → Reads [l] rest)
    (tokens : ∀ p, D (l.token? p).toList) : ReadsAs n behind D text := by
  refine .intro [l] ?_ ?_ ?_ reads ?_
  · rw [spelled, List.flatMap_singleton]
  · exact List.forall_mem_singleton.mpr inLine
  · exact List.forall_mem_singleton.mpr calm
  · intro p _
    rw [tokensAt_cons, tokensAt_nil, List.append_nil]
    exact tokens p

theorem mark_blank : Mark n (· = []) " " :=
  .one (l := .blank ' ') rfl (by decide) (fun _ => rfl) (fun _ _ => .blank) fun _ => rfl

theorem mark_leftParen : Mark n (Is (.symbol .leftParen)) "(" :=
  .one (l := .symbol .leftParen) rfl (by decide) (fun _ => rfl) (fun _ _ => .leftParen)
    fun _ => ⟨_, rfl, rfl⟩

theorem mark_rightParen : Mark n (Is (.symbol .rightParen)) ")" :=
  .one (l := .symbol .rightParen) rfl (by decide) (fun _ => rfl) (fun _ _ => .rightParen)
    fun _ => ⟨_, rfl, rfl⟩

theorem mark_comma : Mark n (Is (.symbol .comma)) "," :=
  .one (l := .symbol .comma) rfl (by decide) (fun _ => rfl) (fun _ _ => .comma)
    fun _ => ⟨_, rfl, rfl⟩

theorem mark_operator (op : Operator) : Mark n (Is (.symbol (.operator op))) op.symbol :=
  .one (l := .symbol (.operator op)) rfl (by cases op <;> decide) (fun _ => rfl)
    (fun _ _ => .operator op) fun _ => ⟨_, rfl, rfl⟩

theorem phrase_relation (r : Relation) : Phrase n (Is (.symbol (.relation r))) r.symbol :=
  .one (l := .symbol (.relation r)) rfl (by cases r <;> decide) (fun _ => rfl)
    (fun _ cut => .relation r cut) fun _ => ⟨_, rfl, rfl⟩

theorem ReadsAs.blank {D : List Token → Prop} {text : String} (first : ReadsAs n Broken D text) :
    Mark n D (text ++ " ") := by
  apply (first.apart mark_blank rfl rfl).mono
  rintro _ ⟨p, _, rfl, tokens, rfl⟩
  rwa [List.append_nil]

theorem ReadsAs.blanks {D : List Token → Prop} {text : String} (first : ReadsAs n Broken D text) :
    Mark n D (" " ++ text ++ " ") := by
  apply (mark_blank.join first).blank.mono
  rintro _ ⟨_, p, rfl, rfl, tokens⟩
  rwa [List.nil_append]

theorem mark_listComma : Mark n (Is (.symbol .comma)) ", " := mark_comma.phrase.blank

/-- The token is a word with this text. -/
def IsNamed (name : String) (ts : List Token) : Prop := ∃ t, ts = [t] ∧ t.kind = .word ∧ t.text = name

theorem phrase_word {name : String} (form : IsWord name.toList)
    (plain : Keyword.ofWord? name = none) : Phrase n (IsNamed name) name := by
  refine .one (l := .word name.toList) rfl form.inLine (fun _ => rfl)
    (fun _ cut => .word form cut) fun p => ?_
  simp only [Lexeme.token?, String.ofList_toList, Lexeme.wordToken, plain, Option.toList_some]
  exact ⟨_, rfl, rfl, rfl⟩

theorem phrase_keyword {k : Keyword} {text : String} (form : IsWord text.toList)
    (found : Keyword.ofWord? text = some k) : Phrase n (Is (.keyword k)) text := by
  refine .one (l := .word text.toList) rfl form.inLine (fun _ => rfl)
    (fun _ cut => .word form cut) fun p => ?_
  simp only [Lexeme.token?, String.ofList_toList, Lexeme.wordToken, found, Option.toList_some]
  exact ⟨_, rfl, rfl⟩

theorem isStem_of_letters {cs : List Char} (some : cs ≠ [])
    (letters : cs.all (fun c => isLetter c && !isSuffix c) = true) : IsStem cs := by
  obtain ⟨first, part, rfl⟩ := List.exists_cons_of_ne_nil some
  rw [List.all_cons, Bool.and_eq_true, Bool.and_eq_true, Bool.not_eq_true'] at letters
  obtain ⟨⟨letter, plain⟩, later⟩ := letters
  refine .intro ?_ plain fun c member => ?_
  · simp [isWordStart, letter]
  · have both := List.all_eq_true.mp later c member
    rw [Bool.and_eq_true] at both
    simp [isWordPart, both.1]

theorem isWord_name (f : Builtin) : IsWord f.name.toList := by
  have suffixed : ∀ (cs : List Char) (c : Char), cs ≠ [] →
      cs.all (fun d => isLetter d && !isSuffix d) = true → isSuffix c = true → IsWord (cs ++ [c]) :=
    fun _ _ some letters suffix => .suffixed (isStem_of_letters some letters) suffix
  cases f with
  | random => exact .stem (isStem_of_letters (by decide) (by decide))
  | val => exact .stem (isStem_of_letters (by decide) (by decide))
  | valFloat => exact suffixed "val".toList '%' (by decide) (by decide) rfl
  | left => exact suffixed "left".toList '$' (by decide) (by decide) rfl
  | right => exact suffixed "right".toList '$' (by decide) (by decide) rfl
  | mid => exact suffixed "mid".toList '$' (by decide) (by decide) rfl
  | num => exact suffixed "num".toList '$' (by decide) (by decide) rfl

/-- No function has the name of a keyword. -/
theorem ofWord?_name (f : Builtin) : Keyword.ofWord? f.name = none := by
  cases f <;> decide +kernel

/-- The token names the function. -/
theorem phrase_name (f : Builtin) :
    Phrase n (fun ts => ∃ t, ts = [t] ∧ t.kind = .word ∧ Builtin.ofName? t.text = some f) f.name := by
  have named : Builtin.ofName? f.name = some f := by cases f <;> decide +kernel
  apply (phrase_word (isWord_name f) (ofWord?_name f)).mono
  rintro _ ⟨t, rfl, kind, text⟩
  exact ⟨t, rfl, kind, text ▸ named⟩

/-- A keyword as listings write it. -/
def Keyword.listed : Keyword → String
  | .PRINT => "PRINT"
  | .READ => "READ"
  | .INPUT => "INPUT"
  | .DATA => "DATA"
  | .GOSUB => "GOSUB"
  | .FOR => "FOR"
  | .TO => "TO"
  | .STEP => "STEP"
  | .NEXT => "NEXT"
  | .RETURN => "RETURN"
  | .IF => "IF"
  | .THEN => "THEN"
  | .WHILE => "WHILE"
  | .END => "END"

theorem isStem_listed (k : Keyword) : IsStem k.listed.toList := by
  cases k <;> exact isStem_of_letters (by decide) (by decide)

theorem ofWord?_listed (k : Keyword) : Keyword.ofWord? k.listed = some k := by
  cases k <;> decide +kernel

theorem phrase_listed (k : Keyword) : Phrase n (Is (.keyword k)) k.listed :=
  phrase_keyword (.stem (isStem_listed k)) (ofWord?_listed k)

/-- The token is a label with this name. -/
def IsLabel (name : String) (ts : List Token) : Prop :=
  ∃ t, ts = [t] ∧ t.kind = .label ∧ t.text = name

theorem mark_label {name : String} (form : IsStem name.toList) :
    Mark n (IsLabel name) (name ++ ":") := by
  refine .one (l := .label name.toList) (String.toList_append ..) ?_ (fun _ => rfl)
    (fun _ _ => .label form) fun p => ?_
  · intro member
    rcases List.mem_append.mp member with inside | colon
    · exact form.inLine inside
    · exact absurd colon (by decide)
  · refine ⟨_, rfl, rfl, ?_⟩
    exact String.ofList_toList

end

/-! ### Values -/

/-- The value has no sign, like one that a program writes. -/
def Value.IsUnsigned : Value → Prop
  | .integer n => 0 ≤ n.toInt
  | .float x => x.isNegative = false
  | .string _ => True

/-- Listings write the value the way programs do: the characters of a string stand for themselves,
but for quotes and backslashes, and a float is moderate. -/
def Value.IsPlain : Value → Prop
  | .integer _ => True
  | .float x => x.IsModerate
  | .string s => ∀ c ∈ s.toList, escapeIn '"' c = [c] ∨ c = '"' ∨ c = '\\'

instance : DecidablePred Value.IsPlain
  | .integer _ => inferInstanceAs (Decidable True)
  | .float x => inferInstanceAs (Decidable x.IsModerate)
  | .string s =>
    List.decidableBAll (fun c => escapeIn '"' c = [c] ∨ c = '"' ∨ c = '\\') s.toList

theorem integer?_unsigned {text : List Char} {n : Int32}
    (unsigned : Numeral.sign text = (false, text)) (read : Numeral.integer? text = some n) :
    0 ≤ n.toInt := by
  simp only [Numeral.integer?] at read
  rw [unsigned] at read
  dsimp only at read
  obtain ⟨m, _, value⟩ := Option.bind_eq_some_iff.mp read
  -- Without a sign the value is the natural number that was read.
  simp only [Bool.false_eq_true, if_false] at value
  split at value
  next bounds =>
    cases value
    rw [Int32.toInt_ofInt_of_le]
    · exact Int.natCast_nonneg m
    · exact Int.le_trans (by decide) bounds.1
    · exact Int.lt_of_le_of_lt bounds.2 (by decide)
  next => cases value

theorem single?_unsigned {text : List Char} {x : Single}
    (unsigned : Numeral.sign text = (false, text)) (read : Numeral.single? text = some x) :
    x.isNegative = false := by
  simp only [Numeral.single?] at read
  rw [unsigned] at read
  dsimp only at read
  cases named : Numeral.named? false text with
  | some y =>
    rw [named] at read
    cases read
    -- Neither of the two named singles is negative when it is written without a sign.
    unfold Numeral.named? at named
    dsimp only at named
    split at named
    · cases named
      decide
    · split at named
      · cases named
        decide
      · cases named
  | none =>
    rw [named] at read
    obtain ⟨d, _, rfl⟩ := Option.map_eq_some_iff.mp read
    -- Rounding gives a magnitude, which leaves the sign bit alone.
    exact Single.isNegative_ofDecimal _

theorem ofNumeral?_unsigned {text : String} {value : Value}
    (unsigned : Numeral.sign text.toList = (false, text.toList))
    (read : Value.ofNumeral? text = some value) : value.IsUnsigned := by
  rcases Option.or_eq_some_iff.mp read with integer | ⟨_, float⟩
  · obtain ⟨n, found, rfl⟩ := Option.map_eq_some_iff.mp integer
    exact integer?_unsigned unsigned found
  · obtain ⟨x, found, rfl⟩ := Option.map_eq_some_iff.mp float
    exact single?_unsigned unsigned found

/-- The token is the literal of the value. -/
def IsLiteral (value : Value) (ts : List Token) : Prop :=
  ∃ t, ts = [t] ∧ Grammar.Denotes t (.literal value)

/-- The token is a string with this text. -/
def IsQuoted (text : String) (ts : List Token) : Prop :=
  ∃ t, ts = [t] ∧ t.kind = .string ∧ t.text = text

theorem literal_of_quoted {s : String} {ts : List Token} (quoted : IsQuoted s ts) :
    IsLiteral (.string s) ts := by
  obtain ⟨t, rfl, kind, text⟩ := quoted
  exact ⟨t, rfl, .string s, rfl, .inl ⟨kind, congrArg Value.string text.symm⟩⟩

theorem phrase_numeral {n : Nat} {text : String} {value : Value} (form : IsNumeral text.toList)
    (read : Value.ofNumeral? text = some value) : Phrase n (IsLiteral value) text := by
  refine .one (l := .number text.toList) rfl form.inLine (fun _ => rfl)
    (fun _ cut => .numeral form cut) fun p => ?_
  refine ⟨_, rfl, value, rfl, .inr ⟨rfl, ?_⟩⟩
  change Value.ofNumeral? (String.ofList text.toList) = _
  rw [String.ofList_toList, read]

theorem escapeIn_plain {c : Char} (plain : escapeIn '"' c = [c] ∨ c = '"' ∨ c = '\\') :
    escapeIn '"' c = (Piece.of c).chars ∧ c ≠ '\n' := by
  -- A line feed is escaped by name, so the string stays on its line.
  have feed : c ≠ '\n' := by
    rintro rfl
    exact absurd plain (by decide)
  refine ⟨?_, feed⟩
  simp only [Piece.of]
  split
  next special => rcases special with rfl | rfl <;> decide
  next ordinary =>
    rcases plain with same | special
    · exact same
    · exact absurd special ordinary

theorem mem_chars_of {c d : Char} (member : d ∈ (Piece.of c).chars) : d = '\\' ∨ d = c := by
  simp only [Piece.of] at member
  split at member
  · simpa [Piece.chars] using member
  · exact .inr (List.mem_singleton.mp member)

theorem phrase_string {n : Nat} {s : String} (plain : (Value.string s).IsPlain) :
    Phrase n (IsQuoted s) (quoteText s) := by
  -- Each character is written as one piece of a string.
  have pieces : s.toList.flatMap (escapeIn '"') = (s.toList.map Piece.of).flatMap Piece.chars := by
    rw [List.flatMap_map, List.flatMap_def, List.flatMap_def]
    exact congrArg List.flatten (List.map_congr_left fun c member =>
      (escapeIn_plain (plain c member)).1)
  refine .one (l := .string (s.toList.map Piece.of) .quote) ?_ ?_ (fun _ => rfl)
    (fun _ _ => .string _) fun p => ?_
  · rw [quoteText, String.toList_ofList, pieces]
    rfl
  · intro member
    rcases List.mem_cons.mp member with quote | inside
    · exact absurd quote (by decide)
    · rcases List.mem_append.mp inside with piece | quote
      · obtain ⟨_, chosen, written⟩ := List.mem_flatMap.mp piece
        obtain ⟨c, present, rfl⟩ := List.mem_map.mp chosen
        rcases mem_chars_of written with backslash | same
        · exact absurd backslash (by decide)
        · exact (escapeIn_plain (plain c present)).2 same.symm
      · exact absurd quote (by decide)
  -- Reading the pieces takes the backslashes away again.
  · have same : s.toList.map (Piece.char ∘ Piece.of) = s.toList :=
      (List.map_congr_left fun c _ => Piece.char_of c).trans (List.map_id _)
    refine ⟨_, rfl, rfl, ?_⟩
    change String.ofList ((s.toList.map Piece.of).map Piece.char) = s
    rw [List.map_map, same, String.ofList_toList]

theorem phrase_value {n : Nat} (value : Value) (unsigned : value.IsUnsigned)
    (plain : value.IsPlain) : Phrase n (IsLiteral value) value.literal := by
  cases value with
  | integer k =>
    refine phrase_numeral ?_ (ofNumeral?_integerText k)
    change IsNumeral (integerText k).toList
    rw [toList_integerText unsigned]
    exact isNumeral_toDigits _
  | float x =>
    obtain ⟨form, read⟩ := ofNumeral?_moderate unsigned plain
    exact phrase_numeral form read
  | string s => exact (phrase_string plain).mono fun ts => literal_of_quoted

end LabelBasic
