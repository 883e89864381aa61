import LabelBasic.Listing
import LabelBasic.Proofs.Division

/-!
# Strings in listings

A listing writes a character that is not visible as an escape that names it, such as `\n`, but
lexing only drops the backslash. Main result: the text of a string literal is always read as one
string and without a warning, and as the same string if and only if all its characters are visible.
-/
namespace LabelBasic

/-- Without the backslash in front, which is all that lexing drops. -/
def unmarked : List Char → List Char
  | '\\' :: rest => rest
  | cs => cs

/-- What is read where a listing writes a character into a string. -/
def readBack (c : Char) : List Char := unmarked (escapeIn '"' c)

/-- How a character is written in a string: as itself, behind a backslash, or by a name. -/
inductive Escape (c : Char) : List Char → Prop
  | plain (visible : isVisible c = true) (quote : c ≠ '"') (backslash : c ≠ '\\')
      (feed : c ≠ '\n') : Escape c [c]
  | marked (mark : c = '"' ∨ c = '\\') : Escape c ['\\', c]
  | named {d : Char} {ds : List Char} (hidden : isVisible c = false) (other : d :: ds ≠ [c])
      (each : ∀ e ∈ d :: ds, e ≠ '"' ∧ e ≠ '\\' ∧ e ≠ '\n') : Escape c ('\\' :: d :: ds)

/-! ### One character -/

theorem exists_digitChar_of_mem_toDigits {c : Char} {n : Nat} (member : c ∈ Nat.toDigits 16 n) :
    ∃ k, c = Nat.digitChar k := by
  induction n using Nat.strongRecOn with
  | ind n ih =>
    by_cases small : n < 16
    · rw [Nat.toDigits_of_lt_base small] at member
      exact ⟨n, List.mem_singleton.mp member⟩
    · rw [Nat.toDigits_of_base_le (by decide) (Nat.le_of_not_lt small)] at member
      rcases List.mem_append.mp member with front | last
      · exact ih (n / 16) (by omega) front
      · exact ⟨n % 16, List.mem_singleton.mp last⟩

theorem escape (c : Char) : Escape c (escapeIn '"' c) := by
  have control (d e : Char) (hidden : isVisible d = false)
      (plain : e ≠ '"' ∧ e ≠ '\\' ∧ e ≠ '\n') (other : e ≠ d) : Escape d ['\\', e] :=
    .named hidden (fun same => other (List.singleton_inj.mp same)) (by simpa using plain)
  simp only [escapeIn]
  split
  next eq => exact eq ▸ control '\x00' '0' (by decide) (by decide) (by decide)
  split
  next eq => exact eq ▸ control '\t' 't' (by decide) (by decide) (by decide)
  split
  next eq => exact eq ▸ control '\r' 'r' (by decide) (by decide) (by decide)
  split
  next eq => exact eq ▸ control '\n' 'n' (by decide) (by decide) (by decide)
  split
  next mark => exact .marked mark.symm
  split
  next feed mark visible =>
    exact .plain visible (mt .inr mark) (mt .inl mark) feed
  next hidden =>
    -- The number of the character is written in small digits and letters between braces.
    refine .named (by simpa using hidden) (by simp) ?_
    intro e member
    have cases : e = 'u' ∨ e = '\x7b' ∨ e ∈ Nat.toDigits 16 c.toNat ∨ e = '\x7d' := by
      simpa using member
    rcases cases with rfl | rfl | digit | rfl
    · decide
    · decide
    · obtain ⟨k, rfl⟩ := exists_digitChar_of_mem_toDigits digit
      exact ⟨Nat.digitChar_ne _ rfl, Nat.digitChar_ne _ rfl, Nat.digitChar_ne _ rfl⟩
    · decide

theorem unmarked_plain {c : Char} (backslash : c ≠ '\\') : unmarked [c] = [c] := by
  rw [unmarked]
  exact fun _ eq => backslash (List.cons.inj eq).1

theorem Unescapes.of_plain {cs : List Char} (each : ∀ c ∈ cs, c ≠ '"' ∧ c ≠ '\\') :
    Unescapes cs cs := by
  induction cs with
  | nil => exact .nil
  | cons c cs ih =>
    obtain ⟨⟨quote, backslash⟩, later⟩ := List.forall_mem_cons.mp each
    exact .plain quote backslash (ih later)

namespace Escape

variable {c : Char} {cs : List Char} (written : Escape c cs)

include written

theorem inLine : '\n' ∉ cs := by
  cases written with
  | plain _ _ _ feed => exact fun member => feed (List.mem_singleton.mp member).symm
  | marked mark => rcases mark with rfl | rfl <;> decide
  | named _ _ each =>
    intro member
    rcases List.mem_cons.mp member with backslash | later
    · exact absurd backslash (by decide)
    · exact (each _ later).2.2 rfl

theorem unmarked_ne_nil : unmarked cs ≠ [] := by
  cases written with
  | plain _ _ backslash =>
    rw [unmarked_plain backslash]
    exact List.cons_ne_nil _ _
  | marked => exact List.cons_ne_nil _ _
  | named => exact List.cons_ne_nil _ _

/-- A character is read back if it is visible. -/
theorem unmarked_eq_iff : unmarked cs = [c] ↔ isVisible c = true := by
  cases written with
  | plain visible _ backslash => exact iff_of_true (unmarked_plain backslash) visible
  | marked mark =>
    have visible : isVisible c = true := by rcases mark with rfl | rfl <;> decide
    exact iff_of_true rfl visible
  | named hidden other => exact iff_of_false other (by simp [hidden])

theorem unescapes : Unescapes cs (unmarked cs) := by
  cases written with
  | plain _ quote backslash =>
    rw [unmarked_plain backslash]
    exact .plain quote backslash .nil
  | marked => exact .escaped .nil
  | named _ _ each =>
    exact .escaped (.of_plain fun e member =>
      ⟨(each e (List.mem_cons_of_mem _ member)).1, (each e (List.mem_cons_of_mem _ member)).2.1⟩)

end Escape

/-! ### Strings -/

theorem Unescapes.append {cs ds text text' : List Char} (first : Unescapes cs text)
    (second : Unescapes ds text') : Unescapes (cs ++ ds) (text ++ text') := by
  induction first with
  | nil => exact second
  | plain quote backslash _ ih => exact .plain quote backslash ih
  | escaped _ ih => exact .escaped ih

theorem unescapes_listed (cs : List Char) :
    Unescapes (cs.flatMap (escapeIn '"')) (cs.flatMap readBack) := by
  induction cs with
  | nil => exact .nil
  | cons c cs ih => exact (escape c).unescapes.append ih

/-- A closed string on one line is the only token of its text. -/
theorem lex_of_unescapes {source : String} {cs text : List Char} (inside : Unescapes cs text)
    (spelled : source.toList = '"' :: (cs ++ ['"'])) (inLine : '\n' ∉ cs) :
    lex source = ⟨[⟨.string, some (String.ofList text), .start⟩], [.lexed 1 1 0]⟩ := by
  obtain ⟨same, behind⟩ := Lexeme.scanString_behind inside ['"']
  have scanned : Lexeme.scan '"' (cs ++ ['"']) =
      (.string (Lexeme.scanString (cs ++ ['"'])).1 .quote, []) := by
    rw [Lexeme.scan_quote, behind]
    rfl
  have whole : lexemes source.toList =
      [.string (Lexeme.scanString (cs ++ ['"'])).1 .quote] := by
    rw [spelled, lexemes, scanned, lexemes]
  have decoded : (Lexeme.scanString (cs ++ ['"'])).1.map Piece.char = text := by
    rw [same]
    exact List.append_nil _
  have chars := flatMap_chars_lexemes source.toList
  rw [whole, spelled, List.flatMap_singleton] at chars
  refine lex_of_lexeme whole ?_ rfl (by rw [← decoded]; rfl)
  rw [Lexeme.InLine, chars]
  intro member
  rcases List.mem_cons.mp member with quote | later
  · exact absurd quote (by decide)
  · rcases List.mem_append.mp later with within | quote
    · exact inLine within
    · exact absurd quote (by decide)

theorem lex_string (s : String) : lex (Expr.literal (.string s)).text =
    ⟨[⟨.string, some (String.ofList (s.toList.flatMap readBack)), .start⟩], [.lexed 1 1 0]⟩ := by
  refine lex_of_unescapes (unescapes_listed s.toList) (String.toList_ofList) fun member => ?_
  obtain ⟨c, _, feed⟩ := List.mem_flatMap.mp member
  exact (escape c).inLine feed

/-- Where each item comes to something and all of them to themselves, each comes to itself. -/
theorem flatMap_eq_self_iff {α : Type} {f : α → List α} (some : ∀ a, f a ≠ []) (as : List α) :
    as.flatMap f = as ↔ ∀ a ∈ as, f a = [a] := by
  have long (as : List α) : as.length ≤ (as.flatMap f).length := by
    induction as with
    | nil => exact Nat.zero_le _
    | cons a as ih =>
      have one := List.length_pos_iff.mpr (some a)
      simp only [List.flatMap_cons, List.length_append, List.length_cons]
      omega
  induction as with
  | nil => simp
  | cons a as ih =>
    rw [List.flatMap_cons, List.forall_mem_cons]
    constructor
    · intro same
      obtain ⟨b, bs, first⟩ := List.exists_cons_of_ne_nil (some a)
      -- One item more would make the whole too long.
      have lengths := congrArg List.length same
      have rest := long as
      rw [first] at same lengths ⊢
      simp only [List.length_append, List.length_cons] at lengths
      obtain rfl : bs = [] := List.length_eq_zero_iff.mp (by omega)
      obtain ⟨rfl, later⟩ := List.cons.inj same
      exact ⟨rfl, ih.mp later⟩
    · rintro ⟨first, rest⟩
      rw [first, ih.mpr rest]
      rfl

/-- The text of a string literal is read as one string, and as the same one if and only if all its
characters are visible. -/
theorem string_literal_read_back_iff (s : String) : ∃ t,
    lex (Expr.literal (.string s)).text = ⟨[t], [.lexed 1 1 0]⟩ ∧ t.kind = .string ∧
      t.text = String.ofList (s.toList.flatMap readBack) ∧
      (t.text = s ↔ ∀ c ∈ s.toList, isVisible c = true) := by
  refine ⟨_, lex_string s, rfl, rfl, ?_⟩
  have text : String.ofList (s.toList.flatMap readBack) = s ↔
      s.toList.flatMap readBack = s.toList := by
    rw [← String.toList_inj, String.toList_ofList]
  have each : s.toList.flatMap readBack = s.toList ↔ ∀ c ∈ s.toList, readBack c = [c] :=
    flatMap_eq_self_iff (fun c => (escape c).unmarked_ne_nil) s.toList
  rw [Token.text, Option.getD_some, text, each]
  exact forall₂_congr fun c _ => (escape c).unmarked_eq_iff

/-- A line feed is listed as `\n`, and read back as the letter. -/
theorem not_read_back_of_lineFeed : ¬∀ s : String, ∃ t,
    (lex (Expr.literal (.string s)).text).tokens = [t] ∧ t.kind = .string ∧ t.text = s := by
  intro all
  obtain ⟨t, tokens, _, text⟩ := all "a\nb"
  rw [lex_string] at tokens
  obtain rfl := List.singleton_inj.mp tokens
  exact absurd text (by decide)

end LabelBasic
