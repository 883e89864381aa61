import LabelBasic.Proofs.Lexing
import LabelBasic.Reader
import Mathlib.Data.List.TakeWhile

/-!
# The words of an input

The reader takes the input a line at a time, and bytes before characters. A line feed is a blank and
its byte stands in no other character, so the words of the lines are the words of the whole text.
-/
namespace LabelBasic

/-! ### Words -/

theorem words_of_blank {text : List Char} (blank : text.dropWhile isBlank = []) :
    words text = [] := by
  rw [words]
  split
  · rfl
  next eq => cases eq.symm.trans blank

theorem words_of_word {text rest : List Char} {c : Char}
    (begins : text.dropWhile isBlank = c :: rest) :
    words text = (c :: rest.takeWhile (!isBlank ·)) :: words (rest.dropWhile (!isBlank ·)) := by
  rw [words]
  split
  next eq => cases eq.symm.trans begins
  next eq =>
    obtain ⟨rfl, rfl⟩ := List.cons.inj (eq.symm.trans begins)
    rfl

theorem words_of_plain {text : List Char} (some : text ≠ [])
    (plain : ∀ c ∈ text, isBlank c = false) : words text = [text] := by
  obtain ⟨c, rest, rfl⟩ := List.exists_cons_of_ne_nil some
  obtain ⟨first, later⟩ := List.forall_mem_cons.mp plain
  have begins : (c :: rest).dropWhile isBlank = c :: rest := by
    rw [List.dropWhile_cons, if_neg (by simp [first])]
  have part : ∀ d ∈ rest, (!isBlank d) = true := fun d member => by rw [later d member, Bool.not_false]
  rw [words_of_word begins, List.takeWhile_eq_self_iff.mpr part, List.dropWhile_eq_nil_iff.mpr part,
    words_of_blank rfl]

/-- A blank keeps words apart. -/
theorem words_append (text : List Char) {b : Char} (blank : isBlank b = true) (more : List Char) :
    words (text ++ b :: more) = words text ++ words more := by
  induction n : text.length using Nat.strongRecOn generalizing text with
  | ind n ih =>
    subst n
    cases begins : text.dropWhile isBlank with
    | nil =>
      have skipped : (text ++ b :: more).dropWhile isBlank = more.dropWhile isBlank := by
        rw [List.dropWhile_append, begins, List.isEmpty_nil, if_pos rfl, List.dropWhile_cons,
          if_pos blank]
      rw [words_of_blank begins, List.nil_append]
      cases after : more.dropWhile isBlank with
      | nil => rw [words_of_blank after, words_of_blank (skipped.trans after)]
      | cons c rest => rw [words_of_word after, words_of_word (skipped.trans after)]
    | cons c rest =>
      have first : (text ++ b :: more).dropWhile isBlank = c :: (rest ++ b :: more) := by
        rw [List.dropWhile_append, begins]
        rfl
      have shorter : (rest.dropWhile (!isBlank ·)).length < text.length := by
        have behind := (List.dropWhile_suffix (l := rest) (!isBlank ·)).length_le
        have front := (List.dropWhile_suffix (l := text) isBlank).length_le
        rw [begins, List.length_cons] at front
        omega
      have stop : (!isBlank b) = false := by rw [blank, Bool.not_true]
      have word := takeWhile_stop (p := (!isBlank ·)) stop rest more
      have behind := dropWhile_stop (p := (!isBlank ·)) stop rest more
      rw [words_of_word begins, words_of_word first, word, behind, ih _ shorter _ rfl]
      rfl

/-! ### Bytes -/

/-- The bytes of some characters. -/
def encoded (text : List Char) : List UInt8 := text.flatMap String.utf8EncodeChar

theorem encoded_of_decoded {bytes : List UInt8} {text : String}
    (decoded : String.fromUTF8? bytes.toByteArray = some text) : bytes = encoded text.toList := by
  have same : text.toByteArray = bytes.toByteArray := by
    simp only [String.fromUTF8?] at decoded
    split at decoded
    · cases decoded
      rfl
    · cases decoded
  rw [← List.toByteArray_inj, ← same]
  exact String.utf8Encode_toList.symm

theorem lineWords?_encoded (text : List Char) :
    lineWords? (encoded text) = some ((words text).map String.ofList) := by
  have bytes : (encoded text).toByteArray = text.utf8Encode := rfl
  have valid : (encoded text).toByteArray.IsValidUTF8 := bytes ▸ ByteArray.isValidUTF8_utf8Encode
  have decoded : String.fromUTF8 (encoded text).toByteArray valid = String.ofList text := by
    rw [← String.toByteArray_inj, String.toByteArray_ofList]
    rfl
  rw [lineWords?, String.fromUTF8?, dif_pos valid, decoded, Option.map_some, String.toList_ofList]

theorem ne_lineFeed_of_mem_utf8EncodeChar {c : Char} (other : c ≠ '\n') {b : UInt8}
    (member : b ∈ String.utf8EncodeChar c) : b ≠ 10 := by
  rintro rfl
  have number : c.val.toNat ≠ 10 := fun same => other (Char.ext (UInt32.toNat_inj.mp same))
  have low (n : Nat) (byte : (10 : UInt8) = UInt8.ofNat n) : n % 256 = 10 := by
    have same := congrArg UInt8.toNat byte
    simpa using same.symm
  -- The bytes of a character of several are all too high.
  simp only [String.utf8EncodeChar] at member
  split at member
  · have := low _ (List.mem_singleton.mp member)
    omega
  split at member
  · simp only [List.mem_cons, List.not_mem_nil, or_false] at member
    rcases member with byte | byte <;> have := low _ byte <;> omega
  split at member
  · simp only [List.mem_cons, List.not_mem_nil, or_false] at member
    rcases member with byte | byte | byte <;> have := low _ byte <;> omega
  · simp only [List.mem_cons, List.not_mem_nil, or_false] at member
    rcases member with byte | byte | byte | byte <;> have := low _ byte <;> omega

theorem ne_lineFeed_of_mem_encoded {text : List Char} (inLine : '\n' ∉ text) :
    ∀ b ∈ encoded text, b ≠ 10 := by
  intro b member
  obtain ⟨c, there, member⟩ := List.mem_flatMap.mp member
  exact ne_lineFeed_of_mem_utf8EncodeChar (fun same => inLine (same ▸ there)) member

/-! ### Lines -/

theorem cutLines_line {line : List UInt8} (inLine : ∀ b ∈ line, b ≠ 10) (more : List UInt8) :
    cutLines (line ++ 10 :: more) = (line ++ [10]) :: cutLines more := by
  induction line with
  | nil => simp [cutLines]
  | cons b line ih =>
    obtain ⟨other, inLine⟩ := List.forall_mem_cons.mp inLine
    simp [cutLines, other, ih inLine]

theorem cutLines_last {b : UInt8} {line : List UInt8} (inLine : ∀ b' ∈ b :: line, b' ≠ 10) :
    cutLines (b :: line) = [b :: line] := by
  induction line generalizing b with
  | nil => simp [cutLines, inLine b List.mem_cons_self]
  | cons b' line ih =>
    obtain ⟨other, inLine⟩ := List.forall_mem_cons.mp inLine
    rw [cutLines, ih inLine, if_neg other]

/-- The words of the lines are the words of the text. -/
theorem lineWords?_cutLines (text : List Char) :
    ∃ lines, (cutLines (encoded text)).mapM lineWords? = some lines ∧
      lines.flatten = (words text).map String.ofList := by
  induction n : text.length using Nat.strongRecOn generalizing text with
  | ind n ih =>
    subst n
    -- The first line comes off, and the words behind it are those of the other lines.
    by_cases several : '\n' ∈ text
    · obtain ⟨line, more, rfl, inLine⟩ := List.eq_append_cons_of_mem several
      obtain ⟨lines, cut, flat⟩ := ih more.length (by simp; omega) more rfl
      have whole : encoded (line ++ '\n' :: more) = encoded line ++ 10 :: encoded more :=
        List.flatMap_append
      have first : encoded (line ++ ['\n']) = encoded line ++ [10] := List.flatMap_append
      have words_line : words (line ++ ['\n']) = words line := by
        have none := words_of_blank List.dropWhile_nil
        rw [words_append line (by decide) [], none, List.append_nil]
      refine ⟨(words line).map String.ofList :: lines, ?_, ?_⟩
      · rw [whole, cutLines_line (ne_lineFeed_of_mem_encoded inLine), List.mapM_cons, ← first,
          lineWords?_encoded, words_line, cut]
        rfl
      · rw [words_append line (by decide) more, List.flatten_cons, flat, List.map_append]
    · cases bytes : encoded text with
      | nil =>
        refine ⟨[], rfl, ?_⟩
        cases text with
        | nil => rw [words_of_blank rfl]; rfl
        | cons c text =>
          have some := List.append_eq_nil_iff.mp bytes
          exact absurd some.1 (by simp)
      | cons b line =>
        have inLine := ne_lineFeed_of_mem_encoded several
        rw [bytes] at inLine
        refine ⟨[(words text).map String.ofList], ?_, by simp⟩
        rw [cutLines_last inLine, ← bytes, List.mapM_cons, lineWords?_encoded]
        rfl

namespace Reader

/-! ### Readers -/

/-- The reader has these words left, and no line that cannot be decoded. -/
def Holds (r : Reader) (ws : List String) : Prop :=
  ∃ lines, r.lines.mapM lineWords? = some lines ∧ ws = r.pending ++ lines.flatten

theorem holds_ofBytes {bytes : List UInt8} {text : String}
    (decoded : String.fromUTF8? bytes.toByteArray = some text) :
    (ofBytes bytes).Holds ((words text.toList).map String.ofList) := by
  obtain ⟨lines, cut, flat⟩ := lineWords?_cutLines text.toList
  refine ⟨lines, ?_, flat.symm⟩
  rw [ofBytes, encoded_of_decoded decoded]
  exact cut

theorem nextOfLines_of_decoded {lines : List (List UInt8)} {decoded : List (List String)}
    (each : lines.mapM lineWords? = some decoded) :
    ∃ r, nextOfLines lines = .ok decoded.flatten.head? r ∧ r.Holds decoded.flatten.tail := by
  induction lines generalizing decoded with
  | nil =>
    cases each
    exact ⟨⟨[], []⟩, rfl, [], rfl, rfl⟩
  | cons line lines ih =>
    rw [List.mapM_cons] at each
    obtain ⟨ws, first, each⟩ := Option.bind_eq_some_iff.mp each
    obtain ⟨more, rest, each⟩ := Option.bind_eq_some_iff.mp each
    cases each
    cases ws with
    | nil =>
      obtain ⟨r, next, holds⟩ := ih rest
      exact ⟨r, by rw [nextOfLines, first]; exact next, holds⟩
    | cons w ws => exact ⟨⟨ws, lines⟩, by rw [nextOfLines, first]; rfl, more, rest, rfl⟩

/-- The next word is the first one left. -/
theorem next_of_holds {r : Reader} {ws : List String} (holds : r.Holds ws) :
    ∃ r', next r = .ok ws.head? r' ∧ r'.Holds ws.tail := by
  obtain ⟨decoded, each, rfl⟩ := holds
  obtain ⟨pending, lines⟩ := r
  cases pending with
  | nil => exact nextOfLines_of_decoded each
  | cons w pending => exact ⟨⟨pending, lines⟩, rfl, decoded, each, rfl⟩

end Reader

end LabelBasic
