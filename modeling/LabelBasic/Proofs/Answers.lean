import LabelBasic.Proofs.Decoding

/-!
# The answers of a reader

A reader is asked for words one after the other, also behind a line that cannot be decoded and behind
the end of the input. Main result: its answers are the words of the lines, with one fault in the place
of each line that is not UTF-8, and then that there are no more words. If all of the input is UTF-8,
they are the words of the text.
-/
namespace LabelBasic

/-! ### Lines and words -/

/-- The bytes in lines: each ends with its line feed, except that the last may have none. -/
inductive IsCut : List UInt8 → List (List UInt8) → Prop
  | nil : IsCut [] []
  | last {line : List UInt8} (some : line ≠ []) (inLine : ∀ b ∈ line, b ≠ 10) : IsCut line [line]
  | line {line more : List UInt8} {lines : List (List UInt8)} (inLine : ∀ b ∈ line, b ≠ 10)
      (later : IsCut more lines) : IsCut (line ++ 10 :: more) ((line ++ [10]) :: lines)

/-- The maximal runs of characters that are not blank. -/
inductive IsSplit : List Char → List (List Char) → Prop
  | nil : IsSplit [] []
  | blank {c : Char} {rest : List Char} {ws : List (List Char)} (blank : isBlank c = true)
      (later : IsSplit rest ws) : IsSplit (c :: rest) ws
  | word {w rest : List Char} {ws : List (List Char)} (some : w ≠ [])
      (plain : ∀ c ∈ w, isBlank c = false) (stop : ∀ c ∈ rest.head?, isBlank c = true)
      (later : IsSplit rest ws) : IsSplit (w ++ rest) (w :: ws)

/-- What the lines come to: the words of a line that is UTF-8, and a fault for any other line. -/
inductive ComeTo : List (List UInt8) → List (Except Fault String) → Prop
  | nil : ComeTo [] []
  | words {line : List UInt8} {lines : List (List UInt8)} {text : String} {ws : List (List Char)}
      {items : List (Except Fault String)}
      (decoded : String.fromUTF8? line.toByteArray = some text) (split : IsSplit text.toList ws)
      (later : ComeTo lines items) :
      ComeTo (line :: lines) ((ws.map String.ofList).map .ok ++ items)
  | fault {line : List UInt8} {lines : List (List UInt8)} {items : List (Except Fault String)}
      (undecodable : String.fromUTF8? line.toByteArray = none) (later : ComeTo lines items) :
      ComeTo (line :: lines) (.error .undecodableInput :: items)

theorem isCut_cutLines (bytes : List UInt8) : IsCut bytes (cutLines bytes) := by
  induction bytes with
  | nil => exact .nil
  | cons b bytes ih =>
    rw [cutLines]
    split
    next lineFeed =>
      subst lineFeed
      have alone : ∀ b ∈ ([] : List UInt8), b ≠ 10 := fun b none => absurd none List.not_mem_nil
      exact .line alone ih
    next other =>
      -- Behind a byte that is no line feed, the first line goes on.
      generalize cutLines bytes = lines at ih
      cases ih with
      | nil => exact .last (List.cons_ne_nil _ _) (List.forall_mem_singleton.mpr other)
      | last _ inLine =>
        exact .last (List.cons_ne_nil _ _) (List.forall_mem_cons.mpr ⟨other, inLine⟩)
      | @line line more lines inLine later =>
        exact .line (List.forall_mem_cons.mpr ⟨other, inLine⟩) later

theorem IsCut.eq_cutLines {bytes : List UInt8} {lines : List (List UInt8)}
    (cut : IsCut bytes lines) : lines = cutLines bytes := by
  induction cut with
  | nil => rfl
  | last some inLine =>
    obtain ⟨b, line, rfl⟩ := List.exists_cons_of_ne_nil some
    exact (cutLines_last inLine).symm
  | line inLine _ ih => rw [cutLines_line inLine, ih]

theorem IsSplit.eq_words {text : List Char} {ws : List (List Char)} (split : IsSplit text ws) :
    ws = words text := by
  induction split with
  | nil => exact (words_of_blank rfl).symm
  | blank blank _ ih =>
    have skipped := words_append [] blank
    rw [words_of_blank rfl] at skipped
    exact ih.trans (skipped _).symm
  | @word w rest ws some plain stop _ ih =>
    obtain ⟨c, part, rfl⟩ := List.exists_cons_of_ne_nil some
    obtain ⟨first, inside⟩ := List.forall_mem_cons.mp plain
    have begins : (c :: part ++ rest).dropWhile isBlank = c :: (part ++ rest) := by
      rw [List.cons_append, List.dropWhile_cons, if_neg (by simp [first])]
    have each : ∀ d ∈ part, (!isBlank d) = true := by simpa using inside
    have ends : ∀ d ∈ rest.head?, (!isBlank d) = false := by simpa using stop
    rw [words_of_word begins, takeWhile_run each ends, dropWhile_run each ends, ih]

theorem IsSplit.blanks {front text : List Char} {ws : List (List Char)}
    (blank : ∀ c ∈ front, isBlank c = true) (split : IsSplit text ws) :
    IsSplit (front ++ text) ws := by
  induction front with
  | nil => exact split
  | cons c front ih =>
    obtain ⟨first, rest⟩ := List.forall_mem_cons.mp blank
    exact .blank first (ih rest)

theorem isSplit_words (text : List Char) : IsSplit text (words text) := by
  induction text using words.induct with
  | case1 text none =>
    rw [words_of_blank none, ← List.append_nil text]
    exact .blanks (List.dropWhile_eq_nil_iff.mp none) .nil
  | case2 text c rest begins ih =>
    have front : ∀ d ∈ text.takeWhile isBlank, isBlank d = true :=
      List.all_eq_true.mp List.all_takeWhile
    have plain : ∀ d ∈ c :: rest.takeWhile (!isBlank ·), isBlank d = false := by
      refine List.forall_mem_cons.mpr ⟨?_, fun d member => ?_⟩
      · have stops := List.head?_dropWhile_not isBlank text
        rwa [begins] at stops
      · simpa using List.all_eq_true.mp List.all_takeWhile d member
    have stop : ∀ d ∈ (rest.dropWhile (!isBlank ·)).head?, isBlank d = true := by
      intro d head
      have stops := List.head?_dropWhile_not (!isBlank ·) rest
      rw [Option.mem_def.mp head] at stops
      simpa using stops
    have whole := List.takeWhile_append_dropWhile (p := isBlank) (l := text)
    have split : IsSplit _ _ := .blanks front (.word (List.cons_ne_nil _ _) plain stop ih)
    rwa [List.cons_append, List.takeWhile_append_dropWhile, ← begins, whole,
      ← words_of_word begins] at split

theorem lineWords?_of_decoded {line : List UInt8} {text : String} {ws : List (List Char)}
    (decoded : String.fromUTF8? line.toByteArray = some text) (split : IsSplit text.toList ws) :
    lineWords? line = some (ws.map String.ofList) := by
  rw [lineWords?, decoded, Option.map_some, split.eq_words]

theorem exists_comeTo (lines : List (List UInt8)) : ∃ items, ComeTo lines items := by
  induction lines with
  | nil => exact ⟨[], .nil⟩
  | cons line lines ih =>
    obtain ⟨items, later⟩ := ih
    cases decoded : String.fromUTF8? line.toByteArray with
    | none => exact ⟨_, .fault decoded later⟩
    | some text => exact ⟨_, .words decoded (isSplit_words _) later⟩

/-- Lines that are all UTF-8 come to their words. -/
theorem ComeTo.eq_words {lines : List (List UInt8)} {items : List (Except Fault String)}
    (comeTo : ComeTo lines items) {wordsOf : List (List String)}
    (each : lines.mapM lineWords? = some wordsOf) : items = wordsOf.flatten.map .ok := by
  induction comeTo generalizing wordsOf with
  | nil =>
    cases each
    rfl
  | words decoded split _ ih =>
    rw [List.mapM_cons, lineWords?_of_decoded decoded split] at each
    obtain ⟨more, rest, each⟩ := Option.bind_eq_some_iff.mp
      ((Option.bind_some _ _).symm.trans each)
    cases each
    rw [ih rest, List.flatten_cons, List.map_append]
  | fault undecodable _ =>
    have none : lineWords? _ = none := Option.map_eq_none_iff.mpr undecodable
    rw [List.mapM_cons, none] at each
    cases each

/-! ### Requests -/

namespace Reader

/-- The result of a request, and the reader behind it. -/
def settle {α : Type} : EStateM.Result Fault Reader α → Except Fault α × Reader
  | .ok a r => (.ok a, r)
  | .error f r => (.error f, r)

/-- The answer to the request for a word that has this many others before it. -/
def answer : Nat → Reader → Except Fault (Option String)
  | 0, r => (settle (next r)).1
  | n + 1, r => answer n (settle (next r)).2

/-- The answer for an item, or that there is none. -/
def answerFor : Option (Except Fault String) → Except Fault (Option String)
  | some item => item.map some
  | none => .ok none

/-- The words that were read ahead, and what the lines behind them come to. -/
def Owes (r : Reader) (items : List (Except Fault String)) : Prop :=
  ∃ later, ComeTo r.lines later ∧ items = r.pending.map .ok ++ later

/-- Lines without words are passed over, up to a word or a line that cannot be decoded. -/
theorem nextOfLines_of_comeTo {lines : List (List UInt8)} {items : List (Except Fault String)}
    (comeTo : ComeTo lines items) :
    (settle (nextOfLines lines)).1 = answerFor items.head? ∧
      (settle (nextOfLines lines)).2.Owes items.tail := by
  induction comeTo with
  | nil => exact ⟨rfl, [], .nil, rfl⟩
  | @words line lines text ws items decoded split later ih =>
    rw [nextOfLines, lineWords?_of_decoded decoded split]
    cases ws with
    | nil => exact ih
    | cons w ws => exact ⟨rfl, items, later, rfl⟩
  | @fault line lines items undecodable later =>
    have none : lineWords? line = none := Option.map_eq_none_iff.mpr undecodable
    rw [nextOfLines, none]
    exact ⟨rfl, items, later, rfl⟩

/-- One request is answered with the first item that is owed. -/
theorem next_of_owes {r : Reader} {items : List (Except Fault String)} (owes : r.Owes items) :
    (settle (next r)).1 = answerFor items.head? ∧ (settle (next r)).2.Owes items.tail := by
  obtain ⟨later, comeTo, rfl⟩ := owes
  obtain ⟨pending, lines⟩ := r
  cases pending with
  | nil => exact nextOfLines_of_comeTo comeTo
  | cons w pending => exact ⟨rfl, later, comeTo, rfl⟩

theorem answer_of_owes {r : Reader} {items : List (Except Fault String)} (owes : r.Owes items)
    (n : Nat) : answer n r = answerFor items[n]? := by
  induction n generalizing r items with
  | zero => rw [answer, (next_of_owes owes).1, List.head?_eq_getElem?]
  | succ n ih => rw [answer, ih (next_of_owes owes).2, List.getElem?_tail]

end Reader

/-- Whatever the bytes are, a reader answers with what their lines come to, one item for each request,
and from then on that there are no more words. What is wrong with a line that cannot be decoded is a
device error. If the bytes are a text, the items are its words. -/
theorem reader_answers_words_of_lines (bytes : List UInt8) :
    (∃ lines items, IsCut bytes lines ∧ ComeTo lines items) ∧
      Fault.undecodableInput.code = .deviceError ∧
      ∀ lines items, IsCut bytes lines → ComeTo lines items →
        (∀ n, (Reader.ofBytes bytes).answer n = Reader.answerFor items[n]?) ∧
          ∀ text ws, String.fromUTF8? bytes.toByteArray = some text → IsSplit text.toList ws →
            items = (ws.map String.ofList).map .ok := by
  refine ⟨?_, rfl, fun lines items cut comeTo => ⟨fun n => ?_, fun text ws decoded split => ?_⟩⟩
  · obtain ⟨items, comeTo⟩ := exists_comeTo (cutLines bytes)
    exact ⟨_, items, isCut_cutLines bytes, comeTo⟩
  · rw [cut.eq_cutLines] at comeTo
    exact Reader.answer_of_owes ⟨items, comeTo, rfl⟩ n
  · obtain ⟨wordsOf, each, flat⟩ := lineWords?_cutLines text.toList
    rw [← encoded_of_decoded decoded, ← cut.eq_cutLines] at each
    rw [comeTo.eq_words each, flat, split.eq_words]

/-- Two words, a line that is not UTF-8, an empty line, and a line without its end. -/
example :
    let bytes : List UInt8 := [97, 32, 195, 169, 10, 255, 98, 10, 10, 32, 99]
    (List.range 6).map (fun n => ((Reader.ofBytes bytes).answer n).toOption) =
      [some (some "a"), some (some "é"), none, some (some "c"), some none, some none] := by
  decide +kernel

end LabelBasic
