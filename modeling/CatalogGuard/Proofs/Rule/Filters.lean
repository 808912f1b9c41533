import CatalogGuard.Proofs.Rule.Numbers
import CatalogGuard.Proofs.Rule.Strings

/-!
# Reading filters

What stands in the brackets of an entry pattern: the name of a property, a comparison and a value,
with blanks between them.  For each of these there is a pair of lemmas.  One says that what was read
derives in the grammar.  The other says that what derives is read whole, provided that what follows
stops it.  The brackets stop a filter themselves, and the quotes a string, so that these two need no
such proviso.

## Main results

* `value_derives`, `value_append` — values
* `value_string_iff`, `value_eq_string_iff` — the values that are strings
* `filter_derives`, `filter_append` — filters
-/

namespace CatalogGuard.Rule

open Grammar
open Text (Stops isBlank isWordChar isDecimalDigit skipBlanks stops_nil stops_cons)
open Text.Quoted (Literal decode decode_eq_ok_iff literal_encode)

variable {c : Char} {text token rest gap decoded : List Char} {wanted : PropertyValue}

/-! ### Values -/

theorem value_derives (h : value text = .ok (wanted, rest)) :
    ∃ token, text = token ++ rest ∧ Value token wanted := by
  rw [value] at h
  split at h
  · next token tail hq =>
    split at h
    · next decoded more hd =>
      obtain ⟨rfl, rfl⟩ := Prod.mk.inj (Except.ok.inj h)
      obtain ⟨rfl, rfl⟩ := decode_of_takeQuoted hq hd
      exact ⟨token, rfl, .string hd⟩
    · cases h
  split at h
  · next hw =>
    obtain ⟨rfl, rfl⟩ := Prod.mk.inj (Except.ok.inj h)
    exact ⟨_, (takeWord_eq_some_iff.mp hw).1, .yes⟩
  split at h
  · next hw =>
    obtain ⟨rfl, rfl⟩ := Prod.mk.inj (Except.ok.inj h)
    exact ⟨_, (takeWord_eq_some_iff.mp hw).1, .no⟩
  split at h
  · next hw =>
    obtain ⟨rfl, rfl⟩ := Prod.mk.inj (Except.ok.inj h)
    exact ⟨_, (takeWord_eq_some_iff.mp hw).1, .null⟩
  split at h
  · next token tail ht =>
    obtain ⟨htext, negative, whole, fraction, hn⟩ := exists_numeral_of_takeNumber ht
    split at h
    · next number hp =>
      obtain ⟨rfl, rfl⟩ := Prod.mk.inj (Except.ok.inj h)
      have hn := numeral_isDigit_of_parseFinite? hn hp
      obtain rfl := Option.some.inj (hp.symm.trans (parseFinite?_eq_some hn))
      exact ⟨token, htext, .number hn⟩
    · cases h
  · cases h

theorem takeQuoted_cons (hc : c ≠ '\x22') (rest : List Char) : takeQuoted (c :: rest) = none := by
  rw [takeQuoted]
  rintro tail heq
  exact hc (List.cons.inj heq).1

theorem takeWord_cons {d : Char} (hc : c ≠ d) (word rest : List Char) :
    takeWord (d :: word) (c :: rest) = none := by
  rw [Option.eq_none_iff_forall_ne_some]
  intro tail heq
  exact hc (List.cons.inj (takeWord_eq_some_iff.mp heq).1).1

/-- A quoted string is read whole, whatever follows. -/
theorem value_append_of_decode (hd : decode token = .ok (decoded, [])) (rest : List Char) :
    value (token ++ rest) = .ok (.string (String.ofList decoded), rest) := by
  simp only [value, takeQuoted_of_decode hd rest, hd]

/-- A value is read whole if what follows could not stand in a name. -/
theorem value_append (hv : Value token wanted) (h : Stops isNameChar rest) :
    value (token ++ rest) = .ok (wanted, rest) := by
  have hword : Stops isWordChar rest := h.mono fun c hc => isNameChar_of_isWordChar hc
  cases hv with
  | string hd => exact value_append_of_decode hd rest
  | yes =>
    have hw : takeWord ['t', 'r', 'u', 'e'] (['t', 'r', 'u', 'e'] ++ rest) = some rest :=
      takeWord_eq_some_iff.mpr ⟨rfl, hword⟩
    rw [value, hw]
    rfl
  | no =>
    have hw : takeWord ['f', 'a', 'l', 's', 'e'] (['f', 'a', 'l', 's', 'e'] ++ rest) = some rest :=
      takeWord_eq_some_iff.mpr ⟨rfl, hword⟩
    rw [value, hw]
    rfl
  | null =>
    have hw : takeWord ['n', 'u', 'l', 'l'] (['n', 'u', 'l', 'l'] ++ rest) = some rest :=
      takeWord_eq_some_iff.mpr ⟨rfl, hword⟩
    rw [value, hw]
    rfl
  | number hn =>
    obtain ⟨c, more, rfl, hc⟩ := exists_cons_of_numeral hn
    have hne : ∀ d, d ∉ ['+', '-'] → d.isDigit = false → c ≠ d := by
      rintro d hsign hdigit rfl
      rcases hc with hc | hc
      · exact hsign hc
      · rw [hdigit] at hc
        exact Bool.false_ne_true hc
    have ht := takeNumber_append (numeral_isDecimalDigit hn) h
    rw [List.cons_append] at ht ⊢
    simp only [value, takeQuoted_cons (hne '\x22' (by simp) rfl),
      takeWord_cons (hne 't' (by simp) rfl), takeWord_cons (hne 'f' (by simp) rfl),
      takeWord_cons (hne 'n' (by simp) rfl), ht, parseFinite?_eq_some hn]

/-- A value starts neither with a blank nor with a character of a sign of comparison. -/
theorem exists_cons_of_value (hv : Value token wanted) :
    ∃ c more, token = c :: more ∧ isBlank c = false ∧ c ≠ '=' := by
  cases hv with
  | string hd =>
    rw [Text.Quoted.decode.eq_def] at hd
    split at hd
    · next more => exact ⟨'\x22', more, rfl, by decide, by decide⟩
    · cases hd
  | yes => exact ⟨_, _, rfl, by decide, by decide⟩
  | no => exact ⟨_, _, rfl, by decide, by decide⟩
  | null => exact ⟨_, _, rfl, by decide, by decide⟩
  | number hn =>
    obtain ⟨c, more, rfl, hc⟩ := exists_cons_of_numeral hn
    refine ⟨c, more, rfl, ?_, ?_⟩
    · rcases hc with hc | hc
      · simp only [List.mem_cons, List.not_mem_nil, or_false] at hc
        rcases hc with rfl | rfl
        · decide
        · decide
      · exact Text.isBlank_of_isWordChar
          (Text.isWordChar_of_isDecimalDigit (Text.isDecimalDigit_of_isDigit hc))
    · rintro rfl
      exact absurd hc (by decide)

/-! ### Strings -/

/-- The texts of a string are its literals. -/
theorem value_string_iff {s : String} : Value token (.string s) ↔ Literal token s.toList := by
  constructor
  · rintro ⟨hd⟩
    obtain ⟨literal, hliteral, rfl⟩ := decode_eq_ok_iff.mp hd
    rw [List.append_nil, String.toList_ofList]
    exact hliteral
  · intro h
    have hv := Value.string (decode_eq_ok_iff.mpr ⟨token, h, (List.append_nil token).symm⟩)
    rwa [String.ofList_toList] at hv

/-- **A value is read as a string where one of its literals comes next**, and nowhere else; what
comes behind the closing quote is left, whatever it is.  So the canonical text of a string is read,
too. -/
theorem value_eq_string_iff (s : String) (rest : List Char) :
    (∀ text, value text = .ok (.string s, rest) ↔
      ∃ literal, Literal literal s.toList ∧ text = literal ++ rest) ∧
    value ((PropertyValue.string s).canonical ++ rest) = .ok (.string s, rest) := by
  have hiff : ∀ text, value text = .ok (.string s, rest) ↔
      ∃ literal, Literal literal s.toList ∧ text = literal ++ rest := by
    intro text
    constructor
    · intro h
      obtain ⟨literal, htext, hv⟩ := value_derives h
      exact ⟨literal, value_string_iff.mp hv, htext⟩
    · rintro ⟨literal, hliteral, rfl⟩
      have hd := decode_eq_ok_iff.mpr ⟨literal, hliteral, (List.append_nil literal).symm⟩
      rw [value_append_of_decode hd rest, String.ofList_toList]
  exact ⟨hiff, (hiff _).mpr ⟨_, literal_encode s.toList, rfl⟩⟩

-- The backslash before the closing quote is escaped itself, and another quote follows.
example : value "\"\\uD83d\\udE00\\\\\"\"]".toList = .ok (.string "😀\\", "\"]".toList) := by cbv

/-! ### Names -/

theorem propertyName_derives {name : String} (h : propertyName text = .ok (name, rest)) :
    ∃ token, text = token ++ rest ∧ Property token name := by
  rw [propertyName.eq_def] at h
  split at h
  · next c more =>
    split at h
    · next hc =>
      obtain ⟨rfl, rfl⟩ := Prod.mk.inj (Except.ok.inj h)
      refine ⟨c :: more.takeWhile isIdentifierChar, ?_, .chars (isIdentifierStart_iff.mp hc) ?_⟩
      · rw [List.cons_append, List.takeWhile_append_dropWhile]
      · intro d hd
        exact isIdentifierChar_iff.mp (List.mem_takeWhile_imp hd)
    · cases h
  · cases h

theorem propertyName_append {name : String} (hp : Property token name)
    (h : Stops isIdentifierChar rest) : propertyName (token ++ rest) = .ok (name, rest) := by
  obtain ⟨hstart, hchars⟩ := hp
  have hchars : ∀ d ∈ _, isIdentifierChar d = true := fun d hd =>
    isIdentifierChar_iff.mpr (hchars d hd)
  simp only [List.cons_append, propertyName, isIdentifierStart_iff.mpr hstart, if_pos,
    Text.takeWhile_append_of_stops hchars h, Text.dropWhile_append_of_stops hchars h]

/-! ### Comparisons -/

/-- A sign starts neither with a blank nor with a character of a property name. -/
theorem exists_cons_of_sign {comparison : Comparison} (hs : Sign token comparison) :
    ∃ c more, token = c :: more ∧ isBlank c = false ∧ isIdentifierChar c = false := by
  have hall : (comparisonTokens.all fun entry => entry.1.head?.any fun c =>
      Nat.blt c.toNat 0x80 && !isBlank c && !(Text.asciiWordRanges.contains c || c == '-')) =
        true := by
    decide
  have hone := List.all_eq_true.mp hall _ (mem_comparisonTokens_iff.mpr hs)
  obtain ⟨c, hhead, hc⟩ := (Option.any_eq_true _ _).mp hone
  obtain ⟨more, rfl⟩ := List.head?_eq_some_iff.mp hhead
  rw [Bool.and_eq_true, Bool.and_eq_true, Bool.not_eq_true', Bool.not_eq_true', Nat.blt_eq] at hc
  obtain ⟨⟨hascii, hblank⟩, hchar⟩ := hc
  exact ⟨c, more, rfl, hblank, (isIdentifierChar_of_ascii hascii).trans hchar⟩

theorem comparison_derives {read : Comparison} (h : comparison text = .ok (read, rest)) :
    ∃ gap sign, Blanks gap ∧ Sign sign read ∧ text = gap ++ (sign ++ rest) := by
  obtain ⟨gap, hgap, htext⟩ := Text.eq_append_skipBlanks text
  rw [comparison] at h
  split at h
  · next found hf =>
    obtain rfl := Except.ok.inj h
    obtain ⟨sign, hrest, hs⟩ := exists_sign_of_takeComparison hf
    exact ⟨gap, sign, hgap, hs, hrest ▸ htext⟩
  · cases h

theorem comparison_append {read : Comparison} (hgap : Blanks gap) (hs : Sign token read)
    (h : Stops (· == '=') rest) : comparison (gap ++ (token ++ rest)) = .ok (read, rest) := by
  have hskip : skipBlanks (gap ++ (token ++ rest)) = token ++ rest := by
    obtain ⟨c, more, rfl, hc, -⟩ := exists_cons_of_sign hs
    exact Text.skipBlanks_append hgap (stops_cons.mpr hc)
  simp only [comparison, hskip, takeComparison_append hs h]

/-! ### Filters -/

theorem punctuation_eq_ok_iff {fault : Fault} (hc : isBlank c = false) :
    punctuation c fault text = .ok rest ↔ ∃ gap, Blanks gap ∧ text = gap ++ c :: rest := by
  constructor
  · intro h
    obtain ⟨gap, hgap, htext⟩ := Text.eq_append_skipBlanks text
    rw [punctuation] at h
    split at h
    · cases h
    · next d more hskip =>
      split at h
      · next hd =>
        obtain rfl := Except.ok.inj h
        rw [hskip, hd] at htext
        exact ⟨gap, hgap, htext⟩
      · cases h
  · rintro ⟨gap, hgap, rfl⟩
    have hskip : skipBlanks (gap ++ c :: rest) = c :: rest :=
      Text.skipBlanks_append hgap (stops_cons.mpr hc)
    simp only [punctuation, hskip, if_pos]

/-- What is read behind an opening bracket makes a filter with it. -/
theorem filter_derives {read : PropertyFilter} (h : filter text = .ok (read, rest)) :
    ∃ token, '[' :: text = token ++ rest ∧ Filter token read := by
  simp only [filter, bind_eq_ok_iff, Prod.exists] at h
  obtain ⟨t₁, h₁, name, t₂, h₂, sign, t₃, h₃, wanted, t₄, h₄, t₅, h₅, heq⟩ := h
  obtain ⟨rfl, rfl⟩ := Prod.mk.inj (Except.ok.inj heq)
  obtain ⟨gap₁, hg₁, rfl⟩ := (punctuation_eq_ok_iff (by decide)).mp h₁
  obtain ⟨property, rfl, hp⟩ := propertyName_derives h₂
  obtain ⟨gap₂, token, hg₂, hs, rfl⟩ := comparison_derives h₃
  obtain ⟨gap₃, hg₃, htext⟩ := Text.eq_append_skipBlanks t₃
  obtain ⟨value, hvalue, hv⟩ := value_derives h₄
  obtain ⟨gap₄, hg₄, rfl⟩ := (punctuation_eq_ok_iff (by decide)).mp h₅
  refine ⟨_, ?_, .filter hg₁ hp hg₂ hs hg₃ hv hg₄⟩
  rw [htext, hvalue]
  simp

/-- Blanks may be put before what stops a name. -/
theorem stops_isNameChar_append (hgap : Blanks gap) (h : Stops isNameChar rest) :
    Stops isNameChar (gap ++ rest) :=
  h.append fun c hc => isNameChar_of_isBlank (hgap c hc)

/-- A filter is read whole, whatever follows. -/
theorem filter_append {read : PropertyFilter} (hf : Filter ('[' :: token) read)
    (rest : List Char) : filter (token ++ rest) = .ok (read, rest) := by
  generalize htoken : '[' :: token = bracket at hf
  obtain @⟨gap₁, property, gap₂, sign, gap₃, written, gap₄, name, _, wanted, hg₁, hp, hg₂, hs, hg₃,
    hv, hg₄⟩ := hf
  obtain ⟨-, rfl⟩ := List.cons.inj htoken
  obtain ⟨c, more, hsign, hc, hc'⟩ := exists_cons_of_sign hs
  obtain ⟨d, more', hwritten, hd, hd'⟩ := exists_cons_of_value hv
  have hstop₄ : Stops isNameChar (gap₄ ++ ']' :: rest) :=
    stops_isNameChar_append hg₄ (stops_cons.mpr (isNameChar_of_ascii (by decide)))
  have hskip : skipBlanks (gap₃ ++ (written ++ (gap₄ ++ ']' :: rest))) =
      written ++ (gap₄ ++ ']' :: rest) :=
    Text.skipBlanks_append hg₃ (hwritten ▸ stops_cons.mpr hd)
  have hstop₃ : Stops (· == '=') (gap₃ ++ (written ++ (gap₄ ++ ']' :: rest))) := by
    refine Stops.append (hwritten ▸ stops_cons.mpr (beq_false_of_ne hd')) fun e he => ?_
    refine beq_false_of_ne ?_
    rintro rfl
    exact absurd (hg₃ _ he) (by decide)
  have hstop₂ : Stops isIdentifierChar
      (gap₂ ++ (sign ++ (gap₃ ++ (written ++ (gap₄ ++ ']' :: rest))))) :=
    Stops.append (hsign ▸ stops_cons.mpr hc') fun e he => isIdentifierChar_of_isBlank (hg₂ e he)
  simp only [filter, bind_eq_ok_iff, Prod.exists, List.append_assoc, List.cons_append,
    List.nil_append]
  exact ⟨_, (punctuation_eq_ok_iff (by decide)).mpr ⟨gap₁, hg₁, rfl⟩,
    name, _, propertyName_append hp hstop₂, _, _, comparison_append hg₂ hs hstop₃,
    wanted, _, by rw [hskip, value_append hv hstop₄],
    rest, (punctuation_eq_ok_iff (by decide)).mpr ⟨gap₄, hg₄, rfl⟩, rfl⟩

end CatalogGuard.Rule
