import CatalogGuard.Proofs.Outcome
import CatalogGuard.Proofs.Rule.Grammar
import CatalogGuard.Proofs.Text.Classes
import CatalogGuard.Rule.Reader
import Mathlib.Data.List.Basic

/-!
# Reading words and signs

The classes of characters of which tokens are made, words that are matched as they stand, and the
signs of comparisons.  A word is read if the text starts with it; `true` and its like have to end
there, so that what follows `Stops` the characters of words.

Of several signs that fit the longest is read.  The table of signs is sorted by their length, and
where one of them goes on as another it does so with `=`; so a sign is read as it stands unless `=`
follows.
-/

namespace CatalogGuard.Rule

open Grammar
open Number (isAsciiDigit)
open Text (Stops isBlank isWordChar stops_nil stops_cons)

variable {c : Char} {word text token rest run : List Char}

/-! ### Classes -/

theorem isNameChar_iff : isNameChar c = true ↔ NameChar c := by
  simp [isNameChar, NameChar, or_assoc]

theorem isIdentifierChar_iff : isIdentifierChar c = true ↔ PropertyChar c := by
  simp [isIdentifierChar, PropertyChar]

theorem isIdentifierStart_iff : isIdentifierStart c = true ↔ PropertyStart c := by
  simp [isIdentifierStart, PropertyStart, or_assoc]

/-- No blank may stand in a name. -/
theorem isNameChar_of_isBlank (h : isBlank c = true) : isNameChar c = false := by
  have hw := Text.isWordChar_of_isBlank h
  rw [← Bool.not_eq_true, isNameChar_iff]
  rintro (hc | hc)
  · rw [hw] at hc
    exact Bool.false_ne_true hc
  · simp only [List.mem_cons, List.not_mem_nil, or_false] at hc
    rcases hc with rfl | rfl | rfl
    all_goals exact absurd h (by decide)

theorem isNameChar_of_isIdentifierChar (h : isIdentifierChar c = true) : isNameChar c = true := by
  rcases isIdentifierChar_iff.mp h with h | rfl
  · exact isNameChar_iff.mpr (Or.inl h)
  · exact isNameChar_iff.mpr (Or.inr (by simp))

theorem isBlank_of_isNameChar (h : isNameChar c = true) : isBlank c = false :=
  Text.eq_false_comm isNameChar_of_isBlank h

theorem isIdentifierChar_of_isBlank (h : isBlank c = true) : isIdentifierChar c = false :=
  Text.eq_false_comm (fun hc => isBlank_of_isNameChar (isNameChar_of_isIdentifierChar hc)) h

theorem isNameChar_of_isWordChar (h : isWordChar c = true) : isNameChar c = true :=
  isNameChar_iff.mpr (Or.inl h)

/-- Of the punctuation of ASCII three characters may stand in a name. -/
theorem isNameChar_of_ascii (hc : c.toNat < 0x80) :
    isNameChar c = (Text.asciiWordRanges.contains c || c == '.' || c == '*' || c == '-') := by
  rw [isNameChar, Text.isWordChar_of_ascii hc]

/-- Names in ASCII can be checked by evaluation. -/
theorem nameChars_of_ascii (h : (text.all fun c => c.toNat < 0x80 &&
      (Text.asciiWordRanges.contains c || c == '.' || c == '*' || c == '-')) = true) :
    ∀ c ∈ text, NameChar c := by
  intro c hc
  obtain ⟨hascii, hclass⟩ := Bool.and_eq_true_iff.mp (List.all_eq_true.mp h c hc)
  rw [← isNameChar_iff, isNameChar_of_ascii (of_decide_eq_true hascii), hclass]

theorem isIdentifierChar_of_ascii (hc : c.toNat < 0x80) :
    isIdentifierChar c = (Text.asciiWordRanges.contains c || c == '-') := by
  rw [isIdentifierChar, Text.isWordChar_of_ascii hc]

theorem isAsciiDigit_eq : isAsciiDigit = Char.isDigit := by
  funext c
  rw [Bool.eq_iff_iff, isAsciiDigit, Bool.and_eq_true, decide_eq_true_iff, decide_eq_true_iff]
  exact Text.isDigit_iff.symm

/-! ### Words -/

theorem isPrefixOf?_eq_some_iff : word.isPrefixOf? text = some rest ↔ text = word ++ rest :=
  List.isPrefixOf?_eq_some_iff_append_eq.trans eq_comm

theorem isPrefixOf?_append (word rest : List Char) :
    word.isPrefixOf? (word ++ rest) = some rest :=
  isPrefixOf?_eq_some_iff.mpr rfl

theorem endsWord_iff : endsWord rest = true ↔ Stops isWordChar rest := by
  cases rest with
  | nil => exact ⟨fun _ => stops_nil, fun _ => rfl⟩
  | cons c rest => rw [stops_cons, endsWord, Bool.not_eq_true']

theorem takeWord_eq_some_iff :
    takeWord word text = some rest ↔ text = word ++ rest ∧ Stops isWordChar rest := by
  rw [takeWord, Option.filter_eq_some_iff, isPrefixOf?_eq_some_iff, endsWord_iff]

/-! ### Signs of comparisons -/

theorem sign_of_eq {comparison : Comparison} (h : comparison.sign.toList = token) :
    Sign token comparison :=
  h ▸ .single comparison

theorem mem_comparisonTokens_iff {comparison : Comparison} :
    (token, comparison) ∈ comparisonTokens ↔ Sign token comparison := by
  constructor
  · intro h
    simp only [comparisonTokens, List.mem_cons, Prod.mk.injEq, List.not_mem_nil, or_false] at h
    rcases h with ⟨rfl, rfl⟩ | ⟨rfl, rfl⟩ | ⟨rfl, rfl⟩ | ⟨rfl, rfl⟩ | ⟨rfl, rfl⟩ | ⟨rfl, rfl⟩ |
      ⟨rfl, rfl⟩ | ⟨rfl, rfl⟩ | ⟨rfl, rfl⟩ | ⟨rfl, rfl⟩
    all_goals first | exact Sign.doubled | exact sign_of_eq (by decide)
  · rintro (comparison | _)
    · cases comparison <;> decide
    · decide

theorem exists_sign_of_takeComparison {comparison : Comparison}
    (h : takeComparison text = some (comparison, rest)) :
    ∃ sign, text = sign ++ rest ∧ Sign sign comparison := by
  obtain ⟨⟨sign, other⟩, hmem, hf⟩ := List.exists_of_findSome?_eq_some h
  obtain ⟨tail, hp, heq⟩ := Option.map_eq_some_iff.mp hf
  obtain ⟨rfl, rfl⟩ := Prod.mk.inj heq
  exact ⟨sign, isPrefixOf?_eq_some_iff.mp hp, mem_comparisonTokens_iff.mp hmem⟩

/-- Longer signs come first in the table, so what is found is at least as long as a sign that
fits. -/
theorem exists_longest_of_sign {comparison : Comparison} (hs : Sign token comparison)
    (rest : List Char) : ∃ sign other tail,
      takeComparison (token ++ rest) = some (other, tail) ∧ Sign sign other ∧
        token ++ rest = sign ++ tail ∧ token.length ≤ sign.length := by
  have hmem := mem_comparisonTokens_iff.mpr hs
  have hsome : (takeComparison (token ++ rest)).isSome = true := by
    refine List.findSome?_isSome_iff.mpr ⟨_, hmem, ?_⟩
    simp [isPrefixOf?_append]
  obtain ⟨found, hf⟩ := Option.isSome_iff_exists.mp hsome
  obtain ⟨before, ⟨sign, other⟩, after, htable, hsign, hnone⟩ := List.findSome?_eq_some_iff.mp hf
  obtain ⟨tail, hp, rfl⟩ := Option.map_eq_some_iff.mp hsign
  have hlater : (token, comparison) ∈ (sign, other) :: after := by
    rcases List.mem_append.mp (htable ▸ hmem) with hbefore | hlater
    · have := hnone _ hbefore
      simp [isPrefixOf?_append] at this
    · exact hlater
  have hfound : (sign, other) ∈ comparisonTokens :=
    htable ▸ List.mem_append_right _ List.mem_cons_self
  refine ⟨sign, other, tail, hf, mem_comparisonTokens_iff.mp hfound,
    isPrefixOf?_eq_some_iff.mp hp, ?_⟩
  have hsorted : comparisonTokens.Pairwise fun a b => b.1.length ≤ a.1.length := by decide
  rw [htable] at hsorted
  rcases List.mem_cons.mp hlater with heq | hafter
  · exact Nat.le_of_eq (congrArg (·.1.length) heq)
  · exact List.rel_of_pairwise_cons (List.pairwise_append.mp hsorted).2.1 hafter

/-- A sign that goes on as another one does so with `=`. -/
theorem eq_or_append_of_sign {sign : List Char} {comparison other : Comparison}
    (hs : Sign token comparison) (ho : Sign sign other) (h : token <+: sign) :
    token = sign ∧ comparison = other ∨ sign = token ++ ['='] := by
  have hall : ∀ a ∈ comparisonTokens, ∀ b ∈ comparisonTokens,
      a.1 <+: b.1 → (a.1 = b.1 ∧ a.2 = b.2) ∨ b.1 = a.1 ++ ['='] := by decide
  exact hall _ (mem_comparisonTokens_iff.mpr hs) _ (mem_comparisonTokens_iff.mpr ho) h

/-- A sign is read as it stands unless `=` follows. -/
theorem takeComparison_append {comparison : Comparison} (hs : Sign token comparison)
    (h : Stops (· == '=') rest) : takeComparison (token ++ rest) = some (comparison, rest) := by
  obtain ⟨sign, other, tail, hf, ho, htext, hlen⟩ := exists_longest_of_sign hs rest
  have hprefix : token <+: sign :=
    List.prefix_of_prefix_length_le ⟨rest, rfl⟩ ⟨tail, htext.symm⟩ hlen
  rcases eq_or_append_of_sign hs ho hprefix with ⟨rfl, rfl⟩ | rfl
  · rw [hf, List.append_cancel_left htext]
  · rw [List.append_assoc] at htext
    rw [List.append_cancel_left htext] at h
    exact absurd (h '=' rfl) (by decide)

end CatalogGuard.Rule
