import CatalogGuard.Proofs.Rule.Readable

/-!
# Numbers that cannot be read back

Infinities and NaN have canonical texts, but these are words that the grammar of values does not
have.  That a query with such a number is refused does not follow from this at once, because the
text of a query could be cut in another way: the words might stand in a name, or in quotes.  The
reader settles it.  The patterns before the number are read as they were written, and then so are
the name, the property and the sign in front of it, so that it is read as a value and refused.

## Main results

* `value_display_append` — infinities and NaN are refused where a value is read
* `finite_of_patterns` — if the canonical text of a query is read, the numbers in it are finite
-/

namespace CatalogGuard.Rule

open Grammar
open Number (display signChars)
open Text (Stops isBlank isDecimalDigit skipBlanks stops_cons)

variable {c : Char} {more rest : List Char} {x : Float} {pattern read : EntryPattern}
  {query found : Query} {condition : PropertyFilter}

/-! ### Values -/

theorem display_of_not_finite (h : ¬x.isFinite = true) :
    display x = ['N', 'a', 'N'] ∨ display x = ['i', 'n', 'f'] ∨
      display x = ['-', 'i', 'n', 'f'] := by
  rw [Number.Binary64.isFinite_iff_not_special] at h
  rw [display]
  split
  · exact Or.inl rfl
  · next hnan =>
    split
    · rw [signChars]
      split
      · exact Or.inr (Or.inr rfl)
      · exact Or.inr (Or.inl rfl)
    · next hinf => exact absurd ⟨hnan, hinf⟩ h

/-- Behind its sign a number needs a digit. -/
theorem takeNumber_eq_none {text sign : List Char} (hs : takeSign text = (sign, c :: more))
    (hc : isDecimalDigit c = false) : takeNumber text = none := by
  simp [takeNumber, hs, hc]

theorem value_eq_error (hq : c ≠ '\x22') (ht : c ≠ 't') (hf : c ≠ 'f') (hn : c ≠ 'n')
    (hnumber : takeNumber (c :: more) = none) :
    value (c :: more) = .error ⟨.value, c :: more⟩ := by
  simp only [value, takeQuoted_cons hq, takeWord_cons ht, takeWord_cons hf, takeWord_cons hn,
    hnumber]

/-- **Infinities and NaN are refused** where a value is read. -/
theorem value_display_append (h : ¬x.isFinite = true) (rest : List Char) :
    ∃ refusal, value (display x ++ rest) = .error refusal := by
  rcases display_of_not_finite h with heq | heq | heq
  all_goals
    rw [heq]
    exact ⟨_, value_eq_error (by decide) (by decide) (by decide) (by decide)
      (takeNumber_eq_none rfl (Text.isDecimalDigit_of_ascii (by decide)))⟩

/-- Their texts start with no blank and no character of a sign of comparison. -/
theorem exists_cons_of_not_finite (h : ¬x.isFinite = true) :
    ∃ c more, display x = c :: more ∧ isBlank c = false ∧ c ≠ '=' := by
  rcases display_of_not_finite h with heq | heq | heq
  all_goals exact ⟨_, _, heq, by decide, by decide⟩

/-! ### Filters and patterns -/

/-- Where the canonical text of a filter is read, that of its value is read as a value. -/
theorem exists_value_of_filter {result : PropertyFilter × List Char} (h : condition.Legible)
    (hvalue : ∃ c more, condition.value.canonical = c :: more ∧ isBlank c = false ∧ c ≠ '=')
    (hread : filter ('@' :: (condition.name.toList ++ (condition.comparison.sign.toList ++
      (condition.value.canonical ++ ']' :: rest)))) = .ok result) :
    ∃ read, value (condition.value.canonical ++ ']' :: rest) = .ok read := by
  obtain ⟨d, more, htext, hblank, hequals⟩ := hvalue
  obtain ⟨e, more', hsign, -, hidentifier⟩ := exists_cons_of_sign (.single condition.comparison)
  have hnameStops : ∀ tail, Stops isIdentifierChar (condition.comparison.sign.toList ++ tail) :=
    fun tail => hsign ▸ stops_cons.mpr hidentifier
  have hsignStops : ∀ tail, Stops (· == '=') (condition.value.canonical ++ tail) :=
    fun tail => htext ▸ stops_cons.mpr (beq_false_of_ne hequals)
  have hblankStops : ∀ tail, Stops isBlank (condition.value.canonical ++ tail) :=
    fun tail => htext ▸ stops_cons.mpr hblank
  let behindSign := condition.value.canonical ++ ']' :: rest
  let behindName := condition.comparison.sign.toList ++ behindSign
  have hat : punctuation '@' .atSign ('@' :: (condition.name.toList ++ behindName)) =
      .ok (condition.name.toList ++ behindName) :=
    (punctuation_eq_ok_iff (by decide)).mpr ⟨[], blanks_nil, rfl⟩
  have hname : propertyName (condition.name.toList ++ behindName) =
      .ok (condition.name, behindName) :=
    propertyName_append (property_iff.mpr ⟨rfl, h⟩) (hnameStops _)
  have hcomparison : comparison behindName = .ok (condition.comparison, behindSign) :=
    comparison_append blanks_nil (.single _) (hsignStops _)
  have hskip : skipBlanks behindSign = behindSign :=
    Text.skipBlanks_append blanks_nil (hblankStops _)
  simp only [filter, bind_eq_ok_iff, Prod.exists] at hread
  obtain ⟨t₁, h₁, name, t₂, h₂, sign, t₃, h₃, read, t₄, h₄, -⟩ := hread
  obtain rfl := Except.ok.inj (hat.symm.trans h₁)
  obtain ⟨-, rfl⟩ := Prod.mk.inj (Except.ok.inj (hname.symm.trans h₂))
  obtain ⟨-, rfl⟩ := Prod.mk.inj (Except.ok.inj (hcomparison.symm.trans h₃))
  rw [hskip] at h₄
  exact ⟨_, h₄⟩

/-- No filter is read from the canonical text of one with an infinity or NaN. -/
theorem finite_of_filter {result : PropertyFilter × List Char} (h : condition.Legible)
    (hread : filter ('@' :: (condition.name.toList ++ (condition.comparison.sign.toList ++
      (condition.value.canonical ++ ']' :: rest)))) = .ok result) : condition.value.Finite := by
  cases hvalue : condition.value with
  | number x =>
    by_contra hx
    have hcanonical : condition.value.canonical = display x := by
      rw [hvalue]
      rfl
    obtain ⟨read, hr⟩ :=
      exists_value_of_filter h (hcanonical ▸ exists_cons_of_not_finite hx) hread
    obtain ⟨refusal, hrefused⟩ := value_display_append hx (']' :: rest)
    rw [hcanonical, hrefused] at hr
    cases hr
  | string => trivial
  | bool => trivial
  | null => trivial

/-- No pattern is read from the canonical text of one with an infinity or NaN. -/
theorem finite_of_entryPattern {result : EntryPattern × List Char} (h : pattern.Legible)
    (hc : pattern.name.Classified) (hread : entryPattern (pattern.canonical ++ rest) = .ok result) :
    ∀ filter ∈ pattern.filter, filter.value.Finite := by
  obtain ⟨name, found⟩ := pattern
  rintro condition rfl
  let inside := '@' :: (condition.name.toList ++ (condition.comparison.sign.toList ++
    (condition.value.canonical ++ ']' :: rest)))
  have htext : EntryPattern.canonical ⟨name, some condition⟩ ++ rest =
      '/' :: (name.text.toList ++ '[' :: inside) := by
    simp [EntryPattern.canonical, PropertyFilter.canonical, inside]
  have hname : entryName (name.text.toList ++ '[' :: inside) = .ok (name, '[' :: inside) :=
    entryName_append blanks_nil (name_iff.mpr ⟨rfl, h.name, hc⟩)
      (stops_cons.mpr (isNameChar_of_ascii (by decide)))
  have hskip : skipBlanks ('[' :: inside) = '[' :: inside :=
    Text.skipBlanks_append blanks_nil (stops_cons.mpr (by decide))
  rw [htext, entryPattern] at hread
  simp only [bind_eq_ok_iff, Prod.exists] at hread
  obtain ⟨name', t₁, h₁, found, t₂, h₂, -⟩ := hread
  obtain ⟨-, rfl⟩ := Prod.mk.inj (Except.ok.inj (hname.symm.trans h₁))
  simp only [optionalFilter, hskip, bind_eq_ok_iff, Prod.exists] at h₂
  obtain ⟨condition', t₃, h₃, -⟩ := h₂
  exact finite_of_filter (h.filter condition rfl) h₃

/-! ### Queries -/

/-- The canonical text of a query is nothing at all or starts with a slash. -/
theorem eq_nil_or_cons_of_canonical (query : Query) :
    Query.canonical query = [] ∨ ∃ more, Query.canonical query = '/' :: more := by
  cases query with
  | nil => exact Or.inl rfl
  | cons pattern query =>
    rw [Query.canonical_cons]
    exact Or.inr ⟨_, rfl⟩

/-- **If the canonical text of a query is read, the numbers in it are finite.**  By induction on the
query: the numbers of the first pattern are finite because that pattern is read; but then it derives
from its text and is read whole, so that the text of the others is left to be read. -/
theorem finite_of_patterns (h : ∀ pattern ∈ query, pattern.Legible ∧ pattern.name.Classified)
    (hread : patterns (Query.canonical query) = .ok found) :
    ∀ pattern ∈ query, ∀ filter ∈ pattern.filter, filter.value.Finite := by
  induction query generalizing found with
  | nil => exact fun pattern hmem => absurd hmem List.not_mem_nil
  | cons pattern query ih =>
    obtain ⟨⟨hlegible, hc⟩, hmore⟩ := List.forall_mem_cons.mp h
    have hslash := eq_nil_or_cons_of_canonical query
    have hskip : skipBlanks (Query.canonical (pattern :: query)) =
        pattern.canonical ++ Query.canonical query := by
      rw [Query.canonical_cons]
      exact Text.skipBlanks_append blanks_nil (stops_cons.mpr (by decide))
    cases found with
    | nil =>
      rw [patterns_eq_ok_nil_iff, hskip] at hread
      cases hread
    | cons first found =>
      obtain ⟨rest, hfirst, hrest⟩ := patterns_eq_ok_cons_iff.mp hread
      rw [hskip] at hfirst
      have hfinite := finite_of_entryPattern hlegible hc hfirst
      have hp := pattern_canonical hlegible hc fun filter hf => value_canonical (hfinite filter hf)
      obtain ⟨gap, hgap, hwhole⟩ := entryPattern_append hp hslash
      obtain ⟨-, rfl⟩ := Prod.mk.inj (Except.ok.inj (hwhole.symm.trans hfirst))
      have hq := patterns_skipBlanks (patterns_eq_ok_iff_queryText.mp hrest)
      rw [Text.skipBlanks_append hgap (stops_of_slash hslash (by decide))] at hq
      exact List.forall_mem_cons.mpr
        ⟨hfinite, ih hmore (patterns_eq_ok_iff_queryText.mpr (.query blanks_nil hq))⟩

end CatalogGuard.Rule
