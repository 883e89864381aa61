import LabelBasic.Listing
import LabelBasic.Proofs.Division
import LabelBasic.Proofs.Listing.Phrases

/-!
# Floats in listings

A listing writes a float that is very large or very small with an exponent, and an infinite one by
name, but a number of the dialect has only digits and a point. Main result: the text of a float that
a program writes is read as one number and as the same float if and only if the float is moderate.
-/
namespace LabelBasic

/-! ### Letters in a text -/

/-- A letter starts a word, so it is not skipped. -/
theorem not_isWordStart_of_startsNone {c : Char} (none : StartsNone c) : isWordStart c = false := by
  refine Bool.eq_false_iff.mpr fun starts => ?_
  have word : IsWord [c] := by
    by_cases suffix : isSuffix c = true
    · exact .mark suffix
    · exact .stem (.intro starts (by simpa using suffix) nofun)
  have other (k : Keyword) : (String.ofList [c]).toLower ≠ k.spelling :=
    fun folded => none _ _ [] _ _ (.keyword word folded)
  exact none _ _ [] _ _ (.word word other)

theorem not_isWordStart_of_isNumber {c : Char} {cs : List Char} (number : IsNumber cs)
    (member : c ∈ cs) : isWordStart c = false := by
  rcases number.each c member with digit | rfl
  · exact not_isWordStart_of_isDigit digit
  · decide

/-- Where there is a letter, there is a token that is not a number. -/
theorem Divides.exists_other {cs : List Char} {ts : List (Token.Kind × Option String)} {c : Char}
    (divides : Divides cs ts) (member : c ∈ cs) (letter : isWordStart c = true) :
    ∃ t ∈ ts, t.1 ≠ .number := by
  induction divides with
  | nil => cases member
  | skip skipped _ ih =>
    rcases List.mem_cons.mp member with rfl | later
    · have none := not_isWordStart_of_startsNone (startsNone_of_skipped skipped)
      exact Bool.noConfusion (none.symm.trans letter)
    · exact ih later
  | token first _ ih =>
    rcases List.mem_append.mp member with inside | later
    · refine ⟨_, List.mem_cons_self, fun kind => ?_⟩
      cases first.spells with
      | number number =>
        exact Bool.noConfusion ((not_isWordStart_of_isNumber number inside).symm.trans letter)
      | _ => cases kind
    · obtain ⟨t, token, other⟩ := ih later
      exact ⟨t, List.mem_cons_of_mem _ token, other⟩

theorem not_number_of_letter {text : String} {t : Token} {c : Char} (member : c ∈ text.toList)
    (letter : isWordStart c = true) (tokens : (lex text).tokens = [t]) : t.kind ≠ .number := by
  have divides := (divides_iff_lex text _).mpr rfl
  rw [tokens] at divides
  obtain ⟨_, token, other⟩ := divides.exists_other member letter
  rw [List.mem_singleton.mp token] at other
  exact other

/-! ### Floats -/

/-- What is not written positionally has a letter in it. -/
theorem exists_letter {x : Single} (positive : x.isNegative = false) (extreme : ¬x.IsModerate) :
    ∃ c ∈ (Layout.listing.single x).toList, isWordStart c = true := by
  by_cases number : x.isNaN = true
  · rw [Layout.single, if_pos number]
    exact ⟨'N', by decide, by decide⟩
  by_cases infinite : x.isInfinite = true
  · simp only [Layout.single, number, positive, infinite, if_true, Bool.false_eq_true, if_false]
    exact ⟨'i', by decide, by decide⟩
  have finite := Single.isFinite_of_not number infinite
  have some : x.magnitude ≠ 0 := fun zero => extreme (.inl ((magnitude_of_rank positive).trans
    (congrArg Int.ofNat zero)))
  have digits := digits_shortest_ne_zero finite some
  have outside := mt (moderate_iff_leading positive finite some).mpr extreme
  have text : Layout.listing.decimal x.shortest = Layout.listing.scientific
      (Nat.toDigits 10 x.shortest.digits) x.shortest.exponent :=
    if_neg (not_or.mpr ⟨digits, outside⟩)
  refine ⟨'e', ?_, by decide⟩
  have mark : Layout.listing.mark = 'e' := rfl
  simp [Layout.single, number, infinite, positive, text, Layout.scientific, mark]

theorem lex_numeral {text : String} (form : IsNumeral text.toList) :
    lex text = ⟨[⟨.number, some text, .start⟩], [.lexed 1 1 0]⟩ := by
  have whole := Reads.numeral form broken_nil
  rw [Reads, List.flatMap_singleton, List.append_nil, lexemes, List.append_nil] at whole
  refine lex_of_lexeme whole form.inLine rfl ?_
  rw [Lexeme.token?, String.ofList_toList]

/-- The text of a float that a program writes is read as a number, and that means the same float, if
and only if it is moderate. -/
theorem float_literal_read_back_iff {source : String} {t : Token} {x : Single}
    (lexed : t ∈ (lex source).tokens) (number : t.kind = .number)
    (read : Value.ofNumeral? t.text = some (.float x)) :
    (∃ t', (lex (Expr.literal (.float x)).text).tokens = [t'] ∧ t'.kind = .number ∧
      Value.ofNumeral? t'.text = some (.float x)) ↔ x.IsModerate := by
  -- A program writes no signs.
  have positive : x.isNegative = false :=
    ofNumeral?_unsigned ((isFormed_of_mem_lex lexed).number number) read
  constructor
  · rintro ⟨t', tokens, kind, -⟩
    refine Decidable.byContradiction fun extreme => ?_
    obtain ⟨c, member, letter⟩ := exists_letter positive extreme
    exact not_number_of_letter member letter tokens kind
  · intro moderate
    obtain ⟨form, same⟩ := ofNumeral?_moderate positive moderate
    exact ⟨_, congrArg Lexed.tokens (lex_numeral form), rfl, same⟩

theorem float_literal_read_back_iff_of_half :
    let t : Token := ⟨.number, some "0.5", .start⟩
    let x := Single.ofDecimal false ⟨5, -1⟩
    t ∈ (lex "0.5").tokens ∧ t.kind = .number ∧ Value.ofNumeral? t.text = some (.float x) ∧
      ((∃ t', (lex (Expr.literal (.float x)).text).tokens = [t'] ∧ t'.kind = .number ∧
        Value.ofNumeral? t'.text = some (.float x)) ↔ x.IsModerate) := by
  have pointed : IsNumeral (['0'] ++ '.' :: ['5']) := .pointed (by decide) nofun (by simp)
  have form : IsNumeral "0.5".toList := pointed
  have lexed : ⟨.number, some "0.5", .start⟩ ∈ (lex "0.5").tokens := by
    rw [lex_numeral form]
    exact List.mem_cons_self
  have read : Value.ofNumeral? "0.5" = some (.float (Single.ofDecimal false ⟨5, -1⟩)) := by
    decide +kernel
  exact ⟨lexed, rfl, read, float_literal_read_back_iff lexed rfl read⟩

/-- Ten quadrillion is listed as `1e16`, and read back as a number and a word. -/
theorem not_read_back_of_exponent : ¬∀ (source : String) (t : Token) (x : Single),
    t ∈ (lex source).tokens → t.kind = .number → Value.ofNumeral? t.text = some (.float x) →
      ∃ t', (lex (Expr.literal (.float x)).text).tokens = [t'] ∧ t'.kind = .number ∧
        Value.ofNumeral? t'.text = some (.float x) := by
  intro all
  have pointed : IsNumeral ('1' :: List.replicate 16 '0' ++ '.' :: ['0']) :=
    .pointed (by decide) (by simp) (by simp)
  have form : IsNumeral "10000000000000000.0".toList := pointed
  have lexed : ⟨.number, some "10000000000000000.0", .start⟩ ∈
      (lex "10000000000000000.0").tokens := by
    rw [lex_numeral form]
    exact List.mem_cons_self
  obtain ⟨t', tokens, kind, -⟩ := all _ _ (Single.ofDecimal false ⟨1, 16⟩) lexed rfl
    (by decide +kernel)
  exact not_number_of_letter (c := 'e') (by decide +kernel) (by decide) tokens kind

end LabelBasic
