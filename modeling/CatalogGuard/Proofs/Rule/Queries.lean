import CatalogGuard.Proofs.Rule.Filters

/-!
# Reading queries

Entry patterns one behind the other, up to the end of the text.  The grammar counts the blanks
behind an entry pattern as part of it; the reader leaves them, and skips them before the next one.

A name is never cut short: what follows it is a blank, a bracket, a slash or the end of the text,
none of which may stand in a name.

## Main results

* `entryPattern_derives`, `entryPattern_append` — entry patterns
* `patterns_eq_ok_iff_queryText` — a query is read exactly if the text derives it
-/

namespace CatalogGuard.Rule

open Grammar
open Text (Stops isBlank skipBlanks stops_nil stops_cons)

variable {c : Char} {text token rest gap : List Char} {pattern : EntryPattern} {query : Query}

theorem blanks_append {more : List Char} (h : Blanks gap) (h' : Blanks more) :
    Blanks (gap ++ more) :=
  List.forall_mem_append.mpr ⟨h, h'⟩

theorem skipBlanks_append_of_blanks (h : Blanks gap) (rest : List Char) :
    skipBlanks (gap ++ rest) = skipBlanks rest :=
  List.dropWhile_append_of_pos h

/-! ### Entry patterns -/

theorem entryName_derives {read : NamePattern} (h : entryName text = .ok (read, rest)) :
    ∃ gap token, Blanks gap ∧ Name token read ∧ text = gap ++ (token ++ rest) := by
  obtain ⟨gap, hgap, htext⟩ := Text.eq_append_skipBlanks text
  rw [entryName] at h
  split at h
  · cases h
  · next hne =>
    obtain ⟨rfl, rfl⟩ := Prod.mk.inj (Except.ok.inj h)
    refine ⟨gap, _, hgap, .chars hne fun c hc => isNameChar_iff.mp (List.mem_takeWhile_imp hc), ?_⟩
    rwa [List.takeWhile_append_dropWhile]

/-- A name starts with no blank. -/
theorem stops_isBlank_of_name {read : NamePattern} (hn : Name token read) (rest : List Char) :
    Stops isBlank (token ++ rest) := by
  obtain ⟨ne, hchars⟩ := hn
  obtain ⟨c, more, rfl⟩ := List.exists_cons_of_ne_nil ne
  exact stops_cons.mpr (isBlank_of_isNameChar (isNameChar_iff.mpr (hchars c List.mem_cons_self)))

theorem entryName_append {read : NamePattern} (hgap : Blanks gap) (hn : Name token read)
    (h : Stops isNameChar rest) : entryName (gap ++ (token ++ rest)) = .ok (read, rest) := by
  have hskip := Text.skipBlanks_append hgap (stops_isBlank_of_name hn rest)
  obtain ⟨ne, hchars⟩ := hn
  have hchars : ∀ c ∈ token, isNameChar c = true := fun c hc => isNameChar_iff.mpr (hchars c hc)
  simp only [entryName, hskip, Text.takeWhile_append_of_stops hchars h,
    Text.dropWhile_append_of_stops hchars h]

/-- Behind a name there are blanks and perhaps a filter. -/
theorem optionalFilter_derives {read : Option PropertyFilter}
    (h : optionalFilter text = .ok (read, rest)) :
    ∃ gap, Blanks gap ∧ (read = none ∧ text = gap ++ rest ∨
      ∃ filter bracket, read = some filter ∧ Filter bracket filter ∧
        text = gap ++ (bracket ++ rest)) := by
  obtain ⟨gap, hgap, htext⟩ := Text.eq_append_skipBlanks text
  refine ⟨gap, hgap, ?_⟩
  rw [optionalFilter] at h
  split at h
  · next inside hskip =>
    simp only [bind_eq_ok_iff, Prod.exists] at h
    obtain ⟨filter, behind, hf, heq⟩ := h
    obtain ⟨rfl, rfl⟩ := Prod.mk.inj (Except.ok.inj heq)
    obtain ⟨bracket, hbracket, hf⟩ := filter_derives hf
    rw [hskip, hbracket] at htext
    exact Or.inr ⟨filter, bracket, rfl, hf, htext⟩
  · obtain ⟨rfl, rfl⟩ := Prod.mk.inj (Except.ok.inj h)
    exact Or.inl ⟨rfl, htext⟩

theorem optionalFilter_of_stops (hgap : Blanks gap) (h : Stops isBlank rest)
    (hb : ∀ more, rest ≠ '[' :: more) : optionalFilter (gap ++ rest) = .ok (none, rest) := by
  rw [optionalFilter, Text.skipBlanks_append hgap h]
  split
  · next more => exact absurd rfl (hb more)
  · rfl

theorem optionalFilter_append {filter : PropertyFilter} (hgap : Blanks gap)
    (hf : Filter token filter) (rest : List Char) :
    optionalFilter (gap ++ (token ++ rest)) = .ok (some filter, rest) := by
  obtain ⟨inside, rfl⟩ : ∃ inside, token = '[' :: inside := by
    cases hf
    exact ⟨_, rfl⟩
  have hskip : skipBlanks (gap ++ ('[' :: inside ++ rest)) = '[' :: (inside ++ rest) :=
    Text.skipBlanks_append hgap (stops_cons.mpr (by decide))
  simp only [optionalFilter, hskip, bind_eq_ok_iff, Prod.exists]
  exact ⟨filter, rest, filter_append hf rest, rfl⟩

/-- What is read of an entry pattern derives in the grammar. -/
theorem entryPattern_derives (h : entryPattern text = .ok (pattern, rest)) :
    ∃ token, text = token ++ rest ∧ Pattern token pattern := by
  rw [entryPattern.eq_def] at h
  split at h
  · next behind =>
    simp only [bind_eq_ok_iff, Prod.exists] at h
    obtain ⟨name, t₁, h₁, filter, t₂, h₂, heq⟩ := h
    obtain ⟨rfl, rfl⟩ := Prod.mk.inj (Except.ok.inj heq)
    obtain ⟨gap, token, hgap, hn, rfl⟩ := entryName_derives h₁
    obtain ⟨gap', hgap', ⟨rfl, rfl⟩ | ⟨filter, bracket, rfl, hf, rfl⟩⟩ := optionalFilter_derives h₂
    · exact ⟨_, by simp, .plain hgap hn hgap'⟩
    · exact ⟨_, by simp, .filtered hgap hn hgap' hf blanks_nil⟩
  · cases h

/-! ### Queries -/

/-- Patterns are nothing at all or start with a slash. -/
theorem eq_nil_or_cons_of_patterns (h : Patterns text query) :
    text = [] ∨ ∃ more, text = '/' :: more := by
  rcases h with _ | ⟨⟨⟩ | ⟨⟩, hq⟩
  · exact Or.inl rfl
  · exact Or.inr ⟨_, rfl⟩
  · exact Or.inr ⟨_, rfl⟩

theorem stops_of_slash {p : Char → Bool} (h : text = [] ∨ ∃ more, text = '/' :: more)
    (hp : p '/' = false) : Stops p text := by
  rcases h with rfl | ⟨more, rfl⟩
  · exact stops_nil
  · exact stops_cons.mpr hp

theorem stops_of_patterns {p : Char → Bool} (h : Patterns text query) (hp : p '/' = false) :
    Stops p text :=
  stops_of_slash (eq_nil_or_cons_of_patterns h) hp

theorem isNameChar_slash : isNameChar '/' = false :=
  isNameChar_of_ascii (by decide)

/-- An entry pattern is read where others follow, except perhaps for blanks behind it. -/
theorem entryPattern_append (hp : Pattern token pattern)
    (h : rest = [] ∨ ∃ more, rest = '/' :: more) :
    ∃ gap, Blanks gap ∧ entryPattern (token ++ rest) = .ok (pattern, gap ++ rest) := by
  have hslash : Stops isNameChar rest := stops_of_slash h isNameChar_slash
  cases hp with
  | @plain gap₁ name gap₂ read h₁ hn h₂ =>
    have hname := entryName_append h₁ hn (stops_isNameChar_append h₂ hslash)
    have hbracket : ∀ more, rest ≠ '[' :: more := by
      rintro more rfl
      exact absurd (stops_of_slash (p := (· == '[')) h (by decide) '[' rfl) (by decide)
    have hfilter := optionalFilter_of_stops h₂ (stops_of_slash h (by decide)) hbracket
    refine ⟨[], blanks_nil, ?_⟩
    simp only [List.cons_append, List.append_assoc, List.nil_append, entryPattern, bind_eq_ok_iff,
      Prod.exists]
    exact ⟨read, _, hname, none, rest, hfilter, rfl⟩
  | @filtered gap₁ name gap₂ bracket gap₃ read filter h₁ hn h₂ hf h₃ =>
    have hbracket : Stops isNameChar (bracket ++ (gap₃ ++ rest)) := by
      cases hf
      exact stops_cons.mpr (isNameChar_of_ascii (by decide))
    have hname := entryName_append h₁ hn (stops_isNameChar_append h₂ hbracket)
    refine ⟨gap₃, h₃, ?_⟩
    simp only [List.cons_append, List.append_assoc, entryPattern, bind_eq_ok_iff, Prod.exists]
    exact ⟨read, _, hname, some filter, _, optionalFilter_append h₂ hf _, rfl⟩

/-! #### One pattern after the other -/

/-- Where nothing but blanks is left, there are no patterns. -/
theorem patterns_of_skipBlanks (hskip : skipBlanks text = []) : patterns text = .ok [] := by
  rw [patterns]
  split
  · rfl
  · next hcons =>
    rw [hskip] at hcons
    cases hcons

/-- Where an entry pattern is read, the patterns behind it decide the rest. -/
theorem patterns_of_entryPattern (h : entryPattern (skipBlanks text) = .ok (pattern, rest)) :
    patterns text = (patterns rest).map (pattern :: ·) := by
  rw [patterns]
  split
  · next hskip =>
    rw [hskip] at h
    cases h
  · next hskip =>
    rw [hskip] at h
    split
    · next h' =>
      rw [h] at h'
      cases h'
    · next h' =>
      obtain ⟨rfl, rfl⟩ := Prod.mk.inj (Except.ok.inj (h.symm.trans h'))
      cases patterns rest <;> rfl

/-- Where an entry pattern is refused, so is the query. -/
theorem patterns_of_refusal {refusal : Refusal} (hskip : skipBlanks text ≠ [])
    (h : entryPattern (skipBlanks text) = .error refusal) : patterns text = .error refusal := by
  rw [patterns]
  split
  · next hnil => exact absurd hnil hskip
  · next hcons =>
    rw [hcons] at h
    split
    · next h' => exact congrArg Except.error (Except.error.inj (h'.symm.trans h))
    · next h' =>
      rw [h] at h'
      cases h'

theorem patterns_eq_ok_nil_iff : patterns text = .ok [] ↔ skipBlanks text = [] := by
  refine ⟨fun h => ?_, patterns_of_skipBlanks⟩
  by_contra hskip
  cases he : entryPattern (skipBlanks text) with
  | error refusal =>
    rw [patterns_of_refusal hskip he] at h
    cases h
  | ok read =>
    rw [patterns_of_entryPattern he] at h
    cases hmore : patterns read.2 <;> rw [hmore] at h <;> cases h

theorem patterns_eq_ok_cons_iff : patterns text = .ok (pattern :: query) ↔
    ∃ rest, entryPattern (skipBlanks text) = .ok (pattern, rest) ∧ patterns rest = .ok query := by
  constructor
  · intro h
    have hskip : skipBlanks text ≠ [] := by
      intro hnil
      rw [patterns_of_skipBlanks hnil] at h
      cases h
    cases he : entryPattern (skipBlanks text) with
    | error refusal =>
      rw [patterns_of_refusal hskip he] at h
      cases h
    | ok read =>
      obtain ⟨first, rest⟩ := read
      rw [patterns_of_entryPattern he] at h
      cases hmore : patterns rest with
      | error refusal =>
        rw [hmore] at h
        cases h
      | ok more =>
        rw [hmore] at h
        obtain ⟨rfl, rfl⟩ := List.cons.inj (Except.ok.inj h)
        exact ⟨rest, rfl, hmore⟩
  · rintro ⟨rest, he, hmore⟩
    rw [patterns_of_entryPattern he, hmore]
    rfl

/-- Blanks in front do not matter. -/
theorem patterns_congr {other : List Char} (h : skipBlanks text = skipBlanks other) :
    patterns text = patterns other := by
  by_cases hskip : skipBlanks text = []
  · rw [patterns_eq_ok_nil_iff.mpr hskip, patterns_eq_ok_nil_iff.mpr (h ▸ hskip)]
  · cases he : entryPattern (skipBlanks text) with
    | error refusal => rw [patterns_of_refusal hskip he, patterns_of_refusal (h ▸ hskip) (h ▸ he)]
    | ok read =>
      obtain ⟨pattern, rest⟩ := read
      exact (patterns_of_entryPattern he).trans (patterns_of_entryPattern (h ▸ he)).symm

/-- Blanks behind an entry pattern belong to it. -/
theorem pattern_append_blanks (hp : Pattern token pattern) (h : Blanks gap) :
    Pattern (token ++ gap) pattern := by
  cases hp with
  | plain h₁ hn h₂ =>
    rw [List.cons_append, List.append_assoc]
    exact .plain h₁ hn (blanks_append h₂ h)
  | filtered h₁ hn h₂ hf h₃ =>
    rw [List.cons_append, List.append_assoc]
    exact .filtered h₁ hn h₂ hf (blanks_append h₃ h)

/-- What is left of a text that derives a query when its blanks are skipped. -/
theorem patterns_skipBlanks (h : QueryText text query) : Patterns (skipBlanks text) query := by
  obtain ⟨hgap, hq⟩ := h
  rwa [Text.skipBlanks_append hgap (stops_of_patterns hq (by decide))]

/-- A slash comes next or nothing at all, but for blanks. -/
def SlashNext (text : List Char) : Prop :=
  skipBlanks text = [] ∨ ∃ more, skipBlanks text = '/' :: more

theorem slashNext_of_queryText (h : QueryText text query) : SlashNext text :=
  eq_nil_or_cons_of_patterns (patterns_skipBlanks h)

/-- What may not stand in front of a query stops at blanks and slashes. -/
theorem SlashNext.stops {p : Char → Bool} (h : SlashNext text) (hp : p '/' = false)
    (hblank : ∀ c, isBlank c = true → p c = false) : Stops p text := by
  obtain ⟨gap, hgap, htext⟩ := Text.eq_append_skipBlanks text
  rw [htext]
  exact (stops_of_slash h hp).append fun c hc => hblank c (hgap c hc)

theorem SlashNext.append_patterns (h : SlashNext rest) (hq : Patterns text query) :
    SlashNext (text ++ rest) := by
  rcases eq_nil_or_cons_of_patterns hq with rfl | ⟨more, rfl⟩
  · exact h
  · exact Or.inr ⟨more ++ rest, (stops_cons.mpr (by decide)).dropWhile_eq⟩

/-- Queries leave a slash next. -/
theorem SlashNext.append_queryText (h : SlashNext rest) (hq : QueryText text query) :
    SlashNext (text ++ rest) := by
  obtain ⟨hgap, hq⟩ := hq
  rw [SlashNext, List.append_assoc, skipBlanks_append_of_blanks hgap]
  exact h.append_patterns hq

/-- A pattern is read as the first of a query where a slash comes next. -/
theorem patterns_append_of_pattern (hp : Pattern token pattern) (h : SlashNext rest) :
    patterns (token ++ rest) = (patterns rest).map (pattern :: ·) := by
  obtain ⟨gap, hgap, hrest⟩ := Text.eq_append_skipBlanks rest
  obtain ⟨gap', hgap', he⟩ := entryPattern_append (pattern_append_blanks hp hgap) h
  rw [List.append_assoc, ← hrest] at he
  have hskip : skipBlanks (token ++ rest) = token ++ rest := by
    cases hp with
    | plain h₁ hn h₂ => exact (stops_cons.mpr (by decide)).dropWhile_eq
    | filtered h₁ hn h₂ hf h₃ => exact (stops_cons.mpr (by decide)).dropWhile_eq
  rw [patterns_of_entryPattern (hskip.symm ▸ he)]
  refine congrArg _ (patterns_congr ?_)
  rw [Text.skipBlanks_append hgap' (Text.stops_skipBlanks rest)]

theorem patterns_append_of_patterns (hq : Patterns text query) (h : SlashNext rest) :
    patterns (text ++ rest) = (patterns rest).map (query ++ ·) := by
  induction hq with
  | nil =>
    rw [List.nil_append]
    cases patterns rest <;> rfl
  | @cons text more pattern query hp hq ih =>
    rw [List.append_assoc, patterns_append_of_pattern hp (h.append_patterns hq), ih]
    cases patterns rest <;> rfl

/-- **Queries may be put one behind the other.**  What is read behind a query where a slash comes
next is read as if nothing stood before. -/
theorem patterns_append (hq : QueryText text query) (h : SlashNext rest) :
    patterns (text ++ rest) = (patterns rest).map (query ++ ·) := by
  obtain @⟨gap, text, query, hgap, hq⟩ := hq
  rw [List.append_assoc, patterns_congr (skipBlanks_append_of_blanks hgap (text ++ rest)),
    patterns_append_of_patterns hq h]

/-- **A query is read exactly if the text derives it.**  In one direction by induction on the query:
its first pattern is read and derives, and what follows derives by the same rule.  In the other the
text is read up to its end, where nothing comes next. -/
theorem patterns_eq_ok_iff_queryText : patterns text = .ok query ↔ QueryText text query := by
  constructor
  · intro h
    induction query generalizing text with
    | nil =>
      obtain ⟨gap, hgap, htext⟩ := Text.eq_append_skipBlanks text
      rw [htext, patterns_eq_ok_nil_iff.mp h]
      exact .query hgap .nil
    | cons pattern query ih =>
      obtain ⟨rest, he, hmore⟩ := patterns_eq_ok_cons_iff.mp h
      obtain ⟨gap, hgap, htext⟩ := Text.eq_append_skipBlanks text
      obtain ⟨token, htoken, hp⟩ := entryPattern_derives he
      obtain @⟨gap', more, _, hgap', hq⟩ := ih hmore
      rw [htext, htoken, ← List.append_assoc token]
      exact .query hgap (.cons (pattern_append_blanks hp hgap') hq)
  · intro hq
    have hnil : patterns [] = .ok [] := patterns_eq_ok_nil_iff.mpr rfl
    have hall : patterns (text ++ []) = _ := patterns_append hq (Or.inl rfl)
    rw [List.append_nil, hnil] at hall
    exact hall.trans (congrArg Except.ok (List.append_nil query))

end CatalogGuard.Rule
