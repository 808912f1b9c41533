import CatalogGuard.Proofs.Rule.Readable
import CatalogGuard.Proofs.Rule.Reading
import CatalogGuard.Proofs.Text.Bytes

/-!
# Where a text is refused

A complaint points at the first character that could not be read.  That there was nothing wrong
before it is a statement about other texts: what stands before the place can be completed to a text
that is read.  For each production there is therefore a lemma that completes what it had consumed
when it stopped.  The completed text is not read again; it is derived in the grammar, where what
was read before derives as it stands, and what is missing is made up.

Some refusals are at the start of a token that was recognised and then found to have no value, such
as a date that does not exist.  Nothing of such a token has been consumed, so that it is completed
like one that was not found at all.

## Main definitions

* `Completable` — what stands before a refusal can be completed to a text that derives
* `Complaint.IsPlaced` — a complaint is at a character of its text, behind which all is well

## Main results

* `whole_completable`, `patterns_completable` — all refusals of rules and queries are completable
* `parse_error_isPlaced` — so all complaints about rules and queries are placed
-/

namespace CatalogGuard.Rule

open Grammar
open Text (byteSize isBlank skipBlanks)

variable {c : Char} {text token rest gap front : List Char} {refusal : Refusal} {fault : Fault}
  {derives : List Char → Prop}

/-- What stands before the place of a refusal can be completed to a text that derives. -/
def Completable (derives : List Char → Prop) (text : List Char) (refusal : Refusal) : Prop :=
  ∃ before more, text = before ++ refusal.rest ∧ derives (before ++ more)

theorem Completable.mono {derives' : List Char → Prop} (h : Completable derives text refusal)
    (himp : ∀ t, derives t → derives' t) : Completable derives' text refusal := by
  obtain ⟨before, more, htext, hd⟩ := h
  exact ⟨before, more, htext, himp _ hd⟩

/-- If what is left behind a part of a text is completable, so is the text, provided that what
completes the one goes on to something that completes the other. -/
theorem Completable.behind {derives' : List Char → Prop} (h : Completable derives rest refusal)
    (front : List Char) (htext : text = front ++ rest)
    (himp : ∀ t, derives t → ∃ more, derives' (front ++ (t ++ more))) :
    Completable derives' text refusal := by
  obtain ⟨before, more, rfl, hd⟩ := h
  obtain ⟨further, hd'⟩ := himp _ hd
  refine ⟨front ++ before, more ++ further, by simp [htext], ?_⟩
  simpa using hd'

/-- A refusal at the start of a text is completable if anything derives. -/
theorem completable_of_rest_eq (hrest : refusal.rest = text) (hd : derives token) :
    Completable derives text refusal :=
  ⟨[], token, by simp [hrest], hd⟩

/-- A refusal behind the blanks of a text, likewise. -/
theorem completable_of_rest_eq_skipBlanks (hrest : refusal.rest = skipBlanks text)
    (hd : ∀ gap, Blanks gap → derives (gap ++ token)) : Completable derives text refusal := by
  obtain ⟨gap, hgap, htext⟩ := Text.eq_append_skipBlanks text
  exact ⟨gap, token, hrest ▸ htext, hd gap hgap⟩

/-! ### Filters -/

theorem value_completable (h : value text = .error refusal) :
    Completable (fun t => ∃ wanted, Value t wanted) text refusal := by
  refine completable_of_rest_eq ?_ ⟨_, .null⟩
  rw [value] at h
  split at h
  · split at h
    · cases h
    · exact congrArg Refusal.rest (Except.error.inj h).symm
  split at h
  · cases h
  split at h
  · cases h
  split at h
  · cases h
  split at h
  · split at h
    · cases h
    · exact congrArg Refusal.rest (Except.error.inj h).symm
  · exact congrArg Refusal.rest (Except.error.inj h).symm

/-- A property that a filter may ask about. -/
theorem property_p : Property ['p'] "p" :=
  @Property.chars 'p' [] (Or.inr (Or.inl (by decide))) fun _ hd => absurd hd List.not_mem_nil

theorem propertyName_completable (h : propertyName text = .error refusal) :
    Completable (fun t => ∃ name, Property t name) text refusal := by
  refine completable_of_rest_eq ?_ ⟨_, property_p⟩
  rw [propertyName.eq_def] at h
  split at h
  · split at h
    · cases h
    · exact congrArg Refusal.rest (Except.error.inj h).symm
  · exact congrArg Refusal.rest (Except.error.inj h).symm

theorem comparison_completable (h : comparison text = .error refusal) :
    Completable (fun t => ∃ gap sign comparison, Blanks gap ∧ Sign sign comparison ∧
      t = gap ++ sign) text refusal := by
  refine completable_of_rest_eq_skipBlanks ?_ fun gap hgap => ⟨gap, _, _, hgap, .doubled, rfl⟩
  rw [comparison] at h
  split at h
  · cases h
  · exact congrArg Refusal.rest (Except.error.inj h).symm

theorem punctuation_completable (h : punctuation c fault text = .error refusal) :
    Completable (fun t => ∃ gap, Blanks gap ∧ t = gap ++ [c]) text refusal := by
  refine completable_of_rest_eq_skipBlanks ?_ fun gap hgap => ⟨gap, hgap, rfl⟩
  rw [punctuation] at h
  split at h
  · next hskip =>
    rw [hskip]
    exact congrArg Refusal.rest (Except.error.inj h).symm
  · next hskip =>
    rw [hskip]
    split at h
    · cases h
    · exact congrArg Refusal.rest (Except.error.inj h).symm

/-- A filter may be refused at each of its five parts; the parts behind are made up. -/
theorem filter_completable (h : filter text = .error refusal) :
    Completable (fun t => ∃ read, Filter ('[' :: t) read) text refusal := by
  simp only [filter, bind_eq_error_iff, Prod.exists, reduceCtorEq, and_false, exists_false,
    or_false] at h
  rcases h with h | ⟨t₁, h₁, h⟩
  · refine (punctuation_completable h).behind [] rfl ?_
    rintro _ ⟨gap₁, hg₁, rfl⟩
    have hf := Filter.filter hg₁ property_p blanks_nil .doubled blanks_nil .null blanks_nil
    exact ⟨['p', '=', '=', 'n', 'u', 'l', 'l', ']'], _, by simpa using hf⟩
  obtain ⟨gap₁, hg₁, htext⟩ := (punctuation_eq_ok_iff (by decide)).mp h₁
  rcases h with h | ⟨name, t₂, h₂, h⟩
  · refine (propertyName_completable h).behind (gap₁ ++ ['@']) (by simp [htext]) ?_
    rintro property ⟨name, hp⟩
    have hf := Filter.filter hg₁ hp blanks_nil .doubled blanks_nil .null blanks_nil
    exact ⟨['=', '=', 'n', 'u', 'l', 'l', ']'], _, by simpa using hf⟩
  obtain ⟨property, rfl, hp⟩ := propertyName_derives h₂
  rcases h with h | ⟨sign, t₃, h₃, h⟩
  · refine (comparison_completable h).behind (gap₁ ++ '@' :: property) (by simp [htext]) ?_
    rintro _ ⟨gap₂, token, read, hg₂, hs, rfl⟩
    have hf := Filter.filter hg₁ hp hg₂ hs blanks_nil .null blanks_nil
    exact ⟨['n', 'u', 'l', 'l', ']'], _, by simpa using hf⟩
  obtain ⟨gap₂, token, hg₂, hs, rfl⟩ := comparison_derives h₃
  obtain ⟨gap₃, hg₃, hskip⟩ := Text.eq_append_skipBlanks t₃
  rcases h with h | ⟨wanted, t₄, h₄, h⟩
  · refine (value_completable h).behind
      (gap₁ ++ '@' :: (property ++ (gap₂ ++ (token ++ gap₃)))) ?_ ?_
    · rw [htext]
      nth_rewrite 1 [hskip]
      simp
    rintro value ⟨wanted, hv⟩
    have hf := Filter.filter hg₁ hp hg₂ hs hg₃ hv blanks_nil
    exact ⟨[']'], _, by simpa using hf⟩
  obtain ⟨value, hvalue, hv⟩ := value_derives h₄
  refine (punctuation_completable h).behind
    (gap₁ ++ '@' :: (property ++ (gap₂ ++ (token ++ (gap₃ ++ value))))) ?_ ?_
  · rw [htext, hskip, hvalue]
    simp
  rintro _ ⟨gap₄, hg₄, rfl⟩
  exact ⟨[], _, by simpa using Filter.filter hg₁ hp hg₂ hs hg₃ hv hg₄⟩

/-! ### Queries -/

/-- The name of an entry. -/
theorem name_p : Name ['p'] (.ofText (String.ofList ['p'])) :=
  .chars (List.cons_ne_nil _ _) (nameChars_of_ascii (by decide))

theorem entryName_completable (h : entryName text = .error refusal) :
    Completable (fun t => ∃ gap token read, Blanks gap ∧ Name token read ∧ t = gap ++ token) text
      refusal := by
  refine completable_of_rest_eq_skipBlanks ?_ fun gap hgap => ⟨gap, _, _, hgap, name_p, rfl⟩
  rw [entryName] at h
  split at h
  · exact congrArg Refusal.rest (Except.error.inj h).symm
  · cases h

theorem optionalFilter_completable (h : optionalFilter text = .error refusal) :
    Completable (fun t => ∃ gap bracket read, Blanks gap ∧ Filter bracket read ∧
      t = gap ++ bracket) text refusal := by
  obtain ⟨gap, hgap, htext⟩ := Text.eq_append_skipBlanks text
  rw [optionalFilter] at h
  split at h
  · next inside hskip =>
    simp only [bind_eq_error_iff, reduceCtorEq, and_false, exists_false, or_false] at h
    rw [hskip] at htext
    refine (filter_completable h).behind (gap ++ ['[']) (by simp [htext]) ?_
    rintro t ⟨read, hf⟩
    exact ⟨[], gap, '[' :: t, read, hgap, hf, by simp⟩
  · cases h

theorem entryPattern_completable (h : entryPattern text = .error refusal) :
    Completable (fun t => ∃ pattern, Pattern t pattern) text refusal := by
  rw [entryPattern.eq_def] at h
  split at h
  · next behind =>
    simp only [bind_eq_error_iff, Prod.exists, reduceCtorEq, and_false, exists_false,
      or_false] at h
    rcases h with h | ⟨name, t₁, h₁, h⟩
    · refine (entryName_completable h).behind ['/'] rfl ?_
      rintro _ ⟨gap, token, read, hgap, hn, rfl⟩
      exact ⟨[], _, by simpa using Pattern.plain hgap hn blanks_nil⟩
    · obtain ⟨gap, token, hgap, hn, rfl⟩ := entryName_derives h₁
      refine (optionalFilter_completable h).behind ('/' :: (gap ++ token)) (by simp) ?_
      rintro _ ⟨gap', bracket, read, hgap', hf, rfl⟩
      exact ⟨[], _, by simpa using Pattern.filtered hgap hn hgap' hf blanks_nil⟩
  · have hp := Pattern.plain blanks_nil name_p blanks_nil
    exact completable_of_rest_eq (congrArg Refusal.rest (Except.error.inj h).symm) ⟨_, hp⟩

/-- **What stands before the refusal of a query begins another one.**  By induction on the text:
the patterns that are read derive as they stand. -/
theorem patterns_completable (h : patterns text = .error refusal) :
    Completable (fun t => ∃ query, QueryText t query) text refusal := by
  induction hlength : text.length using Nat.strong_induction_on generalizing text with
  | _ length ih =>
    subst hlength
    obtain ⟨gap, hgap, htext⟩ := Text.eq_append_skipBlanks text
    by_cases hskip : skipBlanks text = []
    · rw [patterns_eq_ok_nil_iff.mpr hskip] at h
      cases h
    cases he : entryPattern (skipBlanks text) with
    | error other =>
      obtain rfl := Except.error.inj ((patterns_of_refusal hskip he).symm.trans h)
      refine (entryPattern_completable he).behind gap htext ?_
      rintro t ⟨pattern, hp⟩
      exact ⟨[], _, .query hgap (.cons hp .nil)⟩
    | ok read =>
      obtain ⟨pattern, rest⟩ := read
      have hrest : patterns rest = .error refusal := by
        rw [patterns_of_entryPattern he] at h
        cases hp : patterns rest with
        | error other =>
          rw [hp] at h
          exact congrArg Except.error (Except.error.inj h)
        | ok query =>
          rw [hp] at h
          cases h
      have hlt : rest.length < text.length :=
        Nat.lt_of_lt_of_le (length_lt_of_entryPattern he) (Text.length_skipBlanks_le text)
      obtain ⟨token, htoken, hp⟩ := entryPattern_derives he
      refine (ih _ hlt hrest rfl).behind (gap ++ token) ?_ ?_
      · rw [htext, htoken, List.append_assoc]
      · rintro _ ⟨query, hgap', hq⟩
        have hall := Patterns.cons (pattern_append_blanks hp hgap') hq
        exact ⟨[], _, by simpa using QueryText.query hgap hall⟩

/-! ### Rules -/

/-- A date that any bound can have. -/
theorem exists_date : ∃ text t, Date text t :=
  ⟨_, ⟨⟨2000, 1, 1, 0, 0, 0, 0⟩, by decide⟩,
    Instant.date_toMinutes ⟨by decide, by decide, rfl, rfl⟩⟩

/-- A bound is refused behind its keyword, or behind the blanks there. -/
theorem bound_completable {keyword : String} (h : bound keyword text = .error refusal) :
    Completable (fun t => ∃ instant, Bound keyword (keyword.toList ++ t) instant) text refusal := by
  obtain ⟨date, instant, hd⟩ := exists_date
  rw [bound] at h
  split at h
  · have hb : Bound keyword _ instant := .bound gap_space hd
    rw [List.append_assoc] at hb
    exact completable_of_rest_eq (congrArg Refusal.rest (Except.error.inj h).symm) ⟨_, hb⟩
  · next hlen =>
    obtain ⟨gap, hgap, htext, -⟩ := exists_gap_iff.mpr ⟨rfl, hlen⟩
    have hb : Bound keyword _ instant := .bound hgap hd
    rw [List.append_assoc] at hb
    have hrest : refusal.rest = skipBlanks text := by
      split at h
      · exact congrArg Refusal.rest (Except.error.inj h).symm
      · split at h
        · cases h
        · exact congrArg Refusal.rest (Except.error.inj h).symm
    exact ⟨gap, date, hrest ▸ htext, _, hb⟩

theorem window_completable (h : window text = .error refusal) :
    Completable (fun t => ∃ opens closes, Window t opens closes) text refusal := by
  rw [window] at h
  split at h
  · next behind hword =>
    obtain rfl := isPrefixOf?_eq_some_iff.mp hword
    rcases bind_eq_error_iff.mp h with h | ⟨⟨t, t₁⟩, h₁, hread⟩
    · refine (bound_completable h).behind _ rfl ?_
      rintro t ⟨instant, hb⟩
      exact ⟨[], _, _, by simpa using Window.opens hb⟩
    obtain ⟨gap, date, hgap, hd, rfl⟩ := bound_eq_ok_iff.mp h₁
    dsimp only at hread
    split at hread
    · cases hread
    · next behind hsome =>
      obtain ⟨gap', hgap', rfl⟩ := takeUntil_eq_some_iff.mp hsome
      rcases bind_eq_error_iff.mp hread with h | ⟨⟨u, t₂⟩, h₂, h⟩
      · refine (bound_completable h).behind
          ("after".toList ++ gap ++ date ++ gap' ++ "until".toList) (by simp) ?_
        rintro t ⟨instant, hb⟩
        exact ⟨[], _, _, by simpa using Window.both (.bound hgap hd) hgap' hb⟩
      · cases h
  split at h
  · next behind hword =>
    obtain rfl := isPrefixOf?_eq_some_iff.mp hword
    rcases bind_eq_error_iff.mp h with h | ⟨⟨t, t₁⟩, h₁, h⟩
    · refine (bound_completable h).behind _ rfl ?_
      rintro t ⟨instant, hb⟩
      exact ⟨[], _, _, by simpa using Window.closes hb⟩
    · cases h
  · cases h

/-- **What stands before the refusal of a rule begins another one.** -/
theorem whole_completable (h : whole text = .error refusal) :
    Completable (fun t => ∃ rule, RuleText t rule) text refusal := by
  obtain ⟨gap, hgap, htext⟩ := Text.eq_append_skipBlanks text
  rw [whole] at h
  rcases bind_eq_error_iff.mp h with h | ⟨⟨⟨opens, closes⟩, rest⟩, hwindow, h⟩
  · refine (window_completable h).behind gap htext ?_
    rintro t ⟨opens, closes, hw⟩
    exact ⟨[], _, by simpa using RuleText.rule hgap hw (.query blanks_nil .nil)⟩
  rcases bind_eq_error_iff.mp h with h | ⟨query, hquery, h⟩
  · obtain ⟨token, htoken, hw⟩ := window_derives hwindow
    refine (patterns_completable h).behind (gap ++ token) ?_ ?_
    · rw [htext, htoken, List.append_assoc]
    · rintro t ⟨query, hq⟩
      exact ⟨[], _, by simpa using RuleText.rule hgap hw hq⟩
  · cases h

/-! ### Complaints -/

/-- A complaint is at a character of a text or at its end, its label covers that character alone,
and what stands before goes on to some text that is accepted. -/
structure Complaint.IsPlaced (accepts : String → Prop) (text : String) (complaint : Complaint) :
    Prop where
  /-- The offset is not beyond the end of the text. -/
  offset_le : complaint.offset ≤ text.utf8ByteSize
  /-- No character of the text reaches across the offset. -/
  isValid : (String.Pos.Raw.mk complaint.offset).IsValid text
  /-- Cut the text at the offset: the label is as wide as the first character behind, if there is
  one, and there is a completion of what stands before. -/
  cut : ∃ before after, text.toList = before ++ after ∧ complaint.offset = byteSize before ∧
    complaint.labelWidth = byteSize (after.take 1) ∧
      ∃ more, accepts (String.ofList (before ++ more))

/-- The place of a complaint is that of the refusal it comes from. -/
theorem offset_complaint {source : String} {before : List Char}
    (htext : source.toList = before ++ refusal.rest) :
    (refusal.complaint source).offset = byteSize before := by
  have hsize : byteSize source.toList = byteSize before + byteSize refusal.rest := by
    rw [htext, Text.byteSize_append]
  show min (byteSize source.toList - byteSize refusal.rest) (byteSize source.toList) = _
  omega

theorem labelWidth_complaint {source : String} {before : List Char}
    (htext : source.toList = before ++ refusal.rest) :
    (refusal.complaint source).labelWidth = byteSize (refusal.rest.take 1) := by
  have hwidth : (refusal.complaint source).labelWidth =
      Text.widthAt source.toList (refusal.complaint source).offset := rfl
  rw [hwidth, offset_complaint htext, htext]
  cases refusal.rest with
  | nil => rw [List.append_nil, Text.widthAt_byteSize, List.take_nil, Text.byteSize_nil]
  | cons c after => rw [Text.widthAt_byteSize_append]; simp

theorem Completable.isPlaced {source : String} {accepts : String → Prop}
    (h : Completable (fun t => accepts (String.ofList t)) source.toList refusal) :
    (refusal.complaint source).IsPlaced accepts source := by
  obtain ⟨before, more, htext, hd⟩ := h
  have hoffset := offset_complaint htext
  obtain ⟨hle, hvalid⟩ := Text.isValid_of_cut htext
  exact ⟨hoffset ▸ hle, hoffset ▸ hvalid, before, refusal.rest, htext, hoffset,
    labelWidth_complaint htext, more, hd⟩

/-- **Complaints are placed.**  Whenever a text is refused as a rule, the complaint is at one of its
characters or at its end, with a label for that character, and what stands before can be completed
to a rule; and likewise for queries. -/
theorem parse_error_isPlaced (text : String) (complaint : Complaint) :
    (parse text = .error complaint →
      complaint.IsPlaced (fun t => ∃ rule, parse t = .ok rule) text) ∧
    (Query.parse text = .error complaint →
      complaint.IsPlaced (fun t => ∃ query, Query.parse t = .ok query) text) := by
  constructor
  · intro h
    obtain ⟨refusal, hrefusal, rfl⟩ := rule_parse_eq_error_iff.mp h
    refine ((whole_completable hrefusal).mono ?_).isPlaced
    rintro t ⟨rule, hrule⟩
    exact ⟨rule, rule_parse_eq_ok_iff.mpr (by rwa [String.toList_ofList])⟩
  · intro h
    obtain ⟨refusal, hrefusal, rfl⟩ := query_parse_eq_error_iff.mp h
    refine ((patterns_completable hrefusal).mono ?_).isPlaced
    rintro t ⟨query, hquery⟩
    exact ⟨query, query_parse_eq_ok_iff.mpr (by rwa [String.toList_ofList])⟩

/-- The refusal of a text, if it is refused. -/
def refusal? {α : Type} : Except Refusal α → Option Refusal
  | .error refusal => some refusal
  | .ok _ => none

theorem refusal?_eq_some_iff {α : Type} {outcome : Except Refusal α} :
    refusal? outcome = some refusal ↔ outcome = .error refusal := by
  cases outcome with
  | error other =>
    constructor
    · intro h
      exact congrArg Except.error (Option.some.inj h)
    · intro h
      exact congrArg some (Except.error.inj h)
  | ok read =>
    constructor
    · intro h
      cases h
    · intro h
      cases h

/-- A rule with a letter where a value should stand. -/
def faultyText : String := "after 2024-02-29T08:05 /wéb[@n=ö]"

/-- The letter is two bytes wide; what stands before it is a rule as far as it goes.  As a query the
text is refused at its first letter. -/
theorem isPlaced_faultyText : ∃ complaint complaint',
    parse faultyText = .error complaint ∧ complaint.offset = 32 ∧ complaint.labelWidth = 2 ∧
      complaint.IsPlaced (fun t => ∃ rule, parse t = .ok rule) faultyText ∧
    Query.parse faultyText = .error complaint' ∧ complaint'.offset = 0 ∧
      complaint'.IsPlaced (fun t => ∃ query, Query.parse t = .ok query) faultyText := by
  have hrefusals : refusal? (whole faultyText.toList) = some ⟨.value, ['ö', ']']⟩ ∧
      refusal? (patterns faultyText.toList) = some ⟨.slash, faultyText.toList⟩ := by
    decide +kernel
  have hrule := rule_parse_eq_error_iff.mpr ⟨_, refusal?_eq_some_iff.mp hrefusals.1, rfl⟩
  have hquery := query_parse_eq_error_iff.mpr ⟨_, refusal?_eq_some_iff.mp hrefusals.2, rfl⟩
  exact ⟨_, _, hrule, by decide, by decide, (parse_error_isPlaced _ _).1 hrule, hquery, by decide,
    (parse_error_isPlaced _ _).2 hquery⟩

end CatalogGuard.Rule
