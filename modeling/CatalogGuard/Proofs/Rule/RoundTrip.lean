import CatalogGuard.Proofs.Rule.Reading
import CatalogGuard.Proofs.Rule.Unreadable

/-!
# Rules read back from their canonical texts

A canonical text is read as a rule equal to the one it was written from exactly if that rule is
readable.  One direction is that the text derives the rule.  For the other, whatever is read has
names that could have been read and bounds of whole minutes, and an equal rule has the same ones;
numbers are another matter, as two equal numbers may both be infinite.

The window of a rule is written without a slash, whatever its bounds are.  So the text of the query
in it starts at the first slash, in the canonical text and in any other.

## Main results

* `Grammar.patterns_of_ruleText`, `dropWhile_canonical` — the query in the text of a rule
* `query_readable_of_beq`, `rule_readable_of_beq` — what is read back is readable
* `parse_canonical_iff_readable` — which rules and queries are read back
-/

namespace CatalogGuard

variable {α : Type} [BEq α] {xs ys : List α}

/-! ### Equality of data -/

/-- Equal lists have equal members. -/
theorem exists_mem_of_beq (h : (xs == ys) = true) : ∀ y ∈ ys, ∃ x ∈ xs, (x == y) = true := by
  induction ys generalizing xs with
  | nil => exact fun y hy => absurd hy List.not_mem_nil
  | cons y ys ih =>
    cases xs with
    | nil => cases h
    | cons x xs =>
      rw [List.cons_beq_cons, Bool.and_eq_true] at h
      refine List.forall_mem_cons.mpr ⟨⟨x, List.mem_cons_self, h.1⟩, fun z hz => ?_⟩
      obtain ⟨w, hw, heq⟩ := ih h.2 z hz
      exact ⟨w, List.mem_cons_of_mem x hw, heq⟩

/-- A list equals itself if its members do. -/
theorem list_beq_self (h : ∀ x ∈ xs, (x == x) = true) : (xs == xs) = true := by
  induction xs with
  | nil => rfl
  | cons x xs ih =>
    obtain ⟨hx, hxs⟩ := List.forall_mem_cons.mp h
    rw [List.cons_beq_cons, hx, ih hxs]
    rfl

theorem PropertyFilter.beq_iff {a b : PropertyFilter} : (a == b) = true ↔
    a.name = b.name ∧ a.comparison = b.comparison ∧ (a.value == b.value) = true := by
  show (a.name == b.name && (a.comparison == b.comparison && a.value == b.value)) = true ↔ _
  rw [Bool.and_eq_true, Bool.and_eq_true, beq_iff_eq, beq_iff_eq]

theorem EntryPattern.beq_iff {a b : EntryPattern} :
    (a == b) = true ↔ a.name = b.name ∧ (a.filter == b.filter) = true := by
  show (a.name == b.name && a.filter == b.filter) = true ↔ _
  rw [Bool.and_eq_true, beq_iff_eq]

theorem Rule.beq_iff {a b : Rule} : (a == b) = true ↔
    (a.query == b.query) = true ∧ a.opens = b.opens ∧ a.closes = b.closes := by
  show (a.query == b.query && (a.opens == b.opens && a.closes == b.closes)) = true ↔ _
  rw [Bool.and_eq_true, Bool.and_eq_true]
  exact and_congr Iff.rfl (and_congr beq_iff_eq beq_iff_eq)

/-- Of two equal patterns both could have been read, or neither. -/
theorem EntryPattern.Legible.of_beq {a b : EntryPattern} (ha : a.Legible) (h : (a == b) = true) :
    b.Legible := by
  obtain ⟨hname, hfilter⟩ := EntryPattern.beq_iff.mp h
  refine ⟨hname ▸ ha.name, fun filter hb => ?_⟩
  cases hread : a.filter with
  | none =>
    rw [hread, hb] at hfilter
    cases hfilter
  | some condition =>
    rw [hread, hb, Option.some_beq_some] at hfilter
    have hlegible := ha.filter condition hread
    rwa [PropertyFilter.Legible, (PropertyFilter.beq_iff.mp hfilter).1] at hlegible

/-- A value equals itself unless it is NaN. -/
theorem PropertyValue.beq_self_of_finite {value : PropertyValue} (h : value.Finite) :
    (value == value) = true := by
  cases value with
  | string text => exact beq_self_eq_true text
  | number x =>
    have hnan := (Number.Binary64.isFinite_iff_not_special.mp h).1
    exact Number.Binary64.beq_self (Bool.eq_false_iff.mpr hnan)
  | bool value => exact beq_self_eq_true value
  | null => rfl

theorem Query.beq_self_of_finite {query : Query}
    (h : ∀ pattern ∈ query, ∀ filter ∈ pattern.filter, filter.value.Finite) :
    (query == query) = true := by
  refine list_beq_self fun pattern hmem => EntryPattern.beq_iff.mpr ⟨rfl, ?_⟩
  have hfinite := h pattern hmem
  cases hf : pattern.filter with
  | none => rfl
  | some filter =>
    rw [Option.some_beq_some]
    exact PropertyFilter.beq_iff.mpr
      ⟨rfl, rfl, PropertyValue.beq_self_of_finite (hfinite filter hf)⟩

theorem Query.beq_self_of_readable {query : Query} (h : query.Readable) :
    (query == query) = true :=
  Query.beq_self_of_finite h.finite

namespace Rule

open Grammar
open Text (skipBlanks)

variable {text : List Char} {query read : Query} {rule found : Rule}

/-! ### The query in the text of a rule -/

theorem dropWhile_of_slash {run rest : List Char} (hrun : '/' ∉ run)
    (h : rest = [] ∨ ∃ more, rest = '/' :: more) :
    (run ++ rest).dropWhile (· != '/') = rest :=
  Text.dropWhile_append_of_stops
    (fun c hc => bne_iff_ne.mpr fun heq => hrun (heq ▸ hc)) (stops_of_slash h (by decide))

theorem slash_not_mem_blanks {gap : List Char} (h : Blanks gap) : '/' ∉ gap := fun hmem =>
  absurd (h '/' hmem) (by decide)

theorem slash_not_mem_date {date : List Char} {t : Instant} (h : Date date t) : '/' ∉ date := by
  have hfield : ∀ {count field}, Field Char.isDigit count field → '/' ∉ field := fun hf hmem =>
    absurd (hf.2 '/' hmem) (by decide)
  rw [Date] at h
  generalize t.toFields = fields at h
  obtain ⟨hyear, hmonth, hday, hhour, hminute⟩ := h
  simp [hfield hyear, hfield hmonth, hfield hday, hfield hhour, hfield hminute]

theorem slash_not_mem_bound {keyword : String} {bound : List Char} {t : Instant}
    (hkeyword : '/' ∉ keyword.toList) (h : Bound keyword bound t) : '/' ∉ bound := by
  obtain ⟨hgap, hd⟩ := h
  simp [hkeyword, slash_not_mem_blanks hgap.2, slash_not_mem_date hd]

theorem slash_not_mem_window {window : List Char} {opens closes : Option Instant}
    (h : Window window opens closes) : '/' ∉ window := by
  cases h with
  | always => exact List.not_mem_nil
  | opens hb => exact slash_not_mem_bound (by decide) hb
  | closes hb => exact slash_not_mem_bound (by decide) hb
  | both ho hgap hc =>
    simp [slash_not_mem_bound (by decide) ho, slash_not_mem_blanks hgap.2,
      slash_not_mem_bound (by decide) hc]

/-- The query in the text of a rule starts at the first slash. -/
theorem Grammar.patterns_of_ruleText (h : RuleText text rule) :
    Patterns (text.dropWhile (· != '/')) rule.query := by
  obtain @⟨gap, window, _, opens, closes, query, hgap, hw, hq⟩ := h
  obtain @⟨gap', text, _, hgap', hq⟩ := hq
  have hrun : '/' ∉ gap ++ window ++ gap' := by
    simp [slash_not_mem_blanks hgap, slash_not_mem_window hw, slash_not_mem_blanks hgap']
  rwa [← List.append_assoc, dropWhile_of_slash hrun (eq_nil_or_cons_of_patterns hq)]

theorem slash_not_mem_canonical (opens closes : Option Instant) :
    '/' ∉ Rule.canonical ⟨[], opens, closes⟩ := by
  cases opens with
  | none =>
    cases closes with
    | none => exact List.not_mem_nil
    | some u => simp [Rule.canonical, Rule.words, Instant.slash_not_mem_toMinutes]
  | some t =>
    cases closes with
    | none => simp [Rule.canonical, Rule.words, Instant.slash_not_mem_toMinutes]
    | some u => simp [Rule.canonical, Rule.words, Instant.slash_not_mem_toMinutes]

theorem dropWhile_canonical (rule : Rule) :
    rule.canonical.dropWhile (· != '/') = Query.canonical rule.query := by
  obtain ⟨gap, hgap, heq⟩ := exists_canonical_eq rule
  have hrun : '/' ∉ Rule.canonical ⟨[], rule.opens, rule.closes⟩ ++ gap := by
    simp [slash_not_mem_canonical, slash_not_mem_blanks hgap]
  rw [heq, ← List.append_assoc, dropWhile_of_slash hrun (eq_nil_or_cons_of_canonical rule.query)]

/-! ### What is read back is readable -/

theorem legible_of_bound {keyword : String} {bound : List Char} {t : Instant}
    (h : Bound keyword bound t) : ∀ u ∈ some t, u.Legible := by
  obtain ⟨-, hd⟩ := h
  rintro u hu
  obtain rfl := Option.some.inj hu
  exact Instant.legible_of_date hd

/-- The bounds of a rule that derives could have been read. -/
theorem legible_of_ruleText (h : RuleText text rule) :
    (∀ t ∈ rule.opens, t.Legible) ∧ ∀ t ∈ rule.closes, t.Legible := by
  have hnone : ∀ t ∈ (none : Option Instant), t.Legible := fun t ht => by cases ht
  obtain ⟨-, hw, -⟩ := h
  cases hw with
  | always => exact ⟨hnone, hnone⟩
  | opens hb => exact ⟨legible_of_bound hb, hnone⟩
  | closes hb => exact ⟨hnone, legible_of_bound hb⟩
  | both ho _ hc => exact ⟨legible_of_bound ho, legible_of_bound hc⟩

/-- **A query that is read back is readable.** -/
theorem query_readable_of_beq (hc : ∀ pattern ∈ query, pattern.name.Classified)
    (hread : Patterns (Query.canonical query) read) (h : (read == query) = true) :
    query.Readable := by
  have hlegible : ∀ pattern ∈ query, pattern.Legible := by
    intro pattern hmem
    obtain ⟨first, hfirst, heq⟩ := exists_mem_of_beq h pattern hmem
    exact (legible_of_patterns hread first hfirst).1.of_beq heq
  have hok := patterns_eq_ok_iff_queryText.mpr (.query blanks_nil hread)
  exact ⟨hlegible,
    finite_of_patterns (fun pattern hmem => ⟨hlegible pattern hmem, hc pattern hmem⟩) hok⟩

/-- **A rule that is read back is readable.** -/
theorem rule_readable_of_beq (hc : ∀ pattern ∈ rule.query, pattern.name.Classified)
    (hread : RuleText rule.canonical found) (h : (found == rule) = true) : rule.Readable := by
  obtain ⟨hquery, hopens, hcloses⟩ := Rule.beq_iff.mp h
  have hq := patterns_of_ruleText hread
  rw [dropWhile_canonical] at hq
  have hbounds := legible_of_ruleText hread
  exact ⟨query_readable_of_beq hc hq hquery, hopens ▸ hbounds.1, hcloses ▸ hbounds.2⟩

/-! ### Reading canonical texts -/

theorem queryText_canonical_iff : QueryText (Query.canonical query) read ↔
    Patterns (Query.canonical query) read := by
  constructor
  · intro h
    have hskip : skipBlanks (Query.canonical query) = Query.canonical query :=
      Text.skipBlanks_append blanks_nil
        (stops_of_slash (eq_nil_or_cons_of_canonical query) (by decide))
    exact hskip ▸ patterns_skipBlanks h
  · exact .query blanks_nil

theorem query_parse_canonical : Query.parse (String.ofList (Query.canonical query)) = .ok read ↔
    Patterns (Query.canonical query) read := by
  rw [query_parse_eq_ok_iff, String.toList_ofList, queryText_canonical_iff]

theorem rule_parse_canonical : parse (String.ofList rule.canonical) = .ok found ↔
    RuleText rule.canonical found := by
  rw [rule_parse_eq_ok_iff, String.toList_ofList]

/-- A query derives from its canonical text exactly if it is readable. -/
theorem patterns_canonical_iff (hc : ∀ pattern ∈ query, pattern.name.Classified) :
    Patterns (Query.canonical query) query ↔ query.Readable := by
  refine ⟨fun h => ?_, fun h => patterns_of_readable h hc⟩
  have hlegible := legible_of_patterns h
  have hok := patterns_eq_ok_iff_queryText.mpr (.query blanks_nil h)
  exact ⟨fun pattern hmem => (hlegible pattern hmem).1, finite_of_patterns hlegible hok⟩

theorem exists_patterns_canonical_iff (hc : ∀ pattern ∈ query, pattern.name.Classified) :
    (∃ read, Patterns (Query.canonical query) read ∧ (read == query) = true) ↔ query.Readable := by
  constructor
  · rintro ⟨read, hread, h⟩
    exact query_readable_of_beq hc hread h
  · exact fun h => ⟨query, patterns_of_readable h hc, Query.beq_self_of_readable h⟩

/-- A rule derives from its canonical text exactly if it is readable. -/
theorem ruleText_canonical_iff (hc : ∀ pattern ∈ rule.query, pattern.name.Classified) :
    RuleText rule.canonical rule ↔ rule.Readable := by
  refine ⟨fun h => ?_, fun h => ruleText_canonical h hc⟩
  have hq := patterns_of_ruleText h
  rw [dropWhile_canonical] at hq
  exact ⟨(patterns_canonical_iff hc).mp hq, (legible_of_ruleText h).1, (legible_of_ruleText h).2⟩

theorem exists_ruleText_canonical_iff (hc : ∀ pattern ∈ rule.query, pattern.name.Classified) :
    (∃ read, RuleText rule.canonical read ∧ (read == rule) = true) ↔ rule.Readable := by
  constructor
  · rintro ⟨read, hread, h⟩
    exact rule_readable_of_beq hc hread h
  · exact fun h => ⟨rule, ruleText_canonical h hc,
      Rule.beq_iff.mpr ⟨Query.beq_self_of_readable h.query, rfl, rfl⟩⟩

/-- What derives from a text is read back if it holds no infinite number. -/
theorem patterns_canonical_iff_of_patterns (h : Patterns text query) :
    Patterns (Query.canonical query) query ↔
      ∀ pattern ∈ query, ∀ filter ∈ pattern.filter, ¬filter.value.Infinite := by
  have hlegible := legible_of_patterns h
  have hfinite := finite_iff_of_patterns h
  rw [patterns_canonical_iff fun pattern hmem => (hlegible pattern hmem).2]
  constructor
  · exact fun hr pattern hmem filter hf =>
      (hfinite pattern hmem filter hf).mp (hr.finite pattern hmem filter hf)
  · exact fun hn => ⟨fun pattern hmem => (hlegible pattern hmem).1, fun pattern hmem filter hf =>
      (hfinite pattern hmem filter hf).mpr (hn pattern hmem filter hf)⟩

theorem ruleText_canonical_iff_of_ruleText (h : RuleText text rule) :
    RuleText rule.canonical rule ↔
      ∀ pattern ∈ rule.query, ∀ filter ∈ pattern.filter, ¬filter.value.Infinite := by
  have hq := patterns_of_ruleText h
  have hc : ∀ pattern ∈ rule.query, pattern.name.Classified := fun pattern hmem =>
    (legible_of_patterns hq pattern hmem).2
  rw [← patterns_canonical_iff_of_patterns hq, patterns_canonical_iff hc,
    ruleText_canonical_iff hc]
  exact ⟨fun hr => hr.query, fun hr => ⟨hr, (legible_of_ruleText h).1, (legible_of_ruleText h).2⟩⟩

/-- **What is read back.**  Let the names of a rule be patterns that some text stands for.  Then its
canonical text is read as an equal rule exactly if the rule is readable, and it is then read as the
rule itself; and likewise for queries.  Of what was read from a text, all is read back that holds no
infinite number. -/
theorem parse_canonical_iff_readable :
    (∀ rule : Rule, (∀ pattern ∈ rule.query, pattern.name.Classified) →
      ((∃ read, parse (String.ofList rule.canonical) = .ok read ∧ (read == rule) = true) ↔
        rule.Readable) ∧
      (parse (String.ofList rule.canonical) = .ok rule ↔ rule.Readable)) ∧
    (∀ query : Query, (∀ pattern ∈ query, pattern.name.Classified) →
      ((∃ read, Query.parse (String.ofList (Query.canonical query)) = .ok read ∧
          (read == query) = true) ↔ query.Readable) ∧
      (Query.parse (String.ofList (Query.canonical query)) = .ok query ↔ query.Readable)) ∧
    (∀ text rule, parse text = .ok rule → (parse (String.ofList rule.canonical) = .ok rule ↔
      ∀ pattern ∈ rule.query, ∀ filter ∈ pattern.filter, ¬filter.value.Infinite)) ∧
    ∀ text query, Query.parse text = .ok query →
      (Query.parse (String.ofList (Query.canonical query)) = .ok query ↔
        ∀ pattern ∈ query, ∀ filter ∈ pattern.filter, ¬filter.value.Infinite) := by
  simp only [rule_parse_canonical, query_parse_canonical]
  refine ⟨fun rule hc => ⟨exists_ruleText_canonical_iff hc, ruleText_canonical_iff hc⟩,
    fun query hc => ⟨exists_patterns_canonical_iff hc, patterns_canonical_iff hc⟩,
    fun text rule hread => ?_, fun text query hread => ?_⟩
  · exact ruleText_canonical_iff_of_ruleText (rule_parse_eq_ok_iff.mp hread)
  · exact patterns_canonical_iff_of_patterns (patterns_skipBlanks (query_parse_eq_ok_iff.mp hread))

/-- The rule `after 2024-02-29T08:05 /web*[@n>=x]/**`. -/
def webRule (x : Float) : Rule where
  query := [⟨.ofText "web*", some ⟨"n", .greaterOrEqual, .number x⟩⟩, ⟨.ofText "**", none⟩]
  opens := some ⟨⟨2024, 2, 29, 8, 5, 0, 0⟩, by decide⟩
  closes := none

theorem webRule_classified (x : Float) :
    ∀ pattern ∈ (webRule x).query, pattern.name.Classified :=
  List.forall_mem_cons.mpr ⟨⟨"web*", rfl⟩, List.forall_mem_singleton.mpr ⟨"**", rfl⟩⟩

theorem webRule_readable {x : Float} (hx : x.isFinite = true) : (webRule x).Readable := by
  have hweb : (NamePattern.ofText "web*").Legible := ⟨by decide, nameChars_of_ascii (by decide)⟩
  have hstars : (NamePattern.ofText "**").Legible := ⟨by decide, nameChars_of_ascii (by decide)⟩
  refine ⟨⟨List.forall_mem_cons.mpr ⟨⟨hweb, ?_⟩,
    List.forall_mem_singleton.mpr ⟨hstars, fun filter hf => by cases hf⟩⟩,
    List.forall_mem_cons.mpr ⟨?_, List.forall_mem_singleton.mpr fun filter hf => by cases hf⟩⟩,
    ?_, fun t ht => by cases ht⟩
  · rintro filter hf
    obtain rfl := Option.some.inj hf
    have hname : "n".toList = ['n'] := by decide
    exact ⟨'n', [], hname, Or.inr (Or.inl (by decide)), fun d hd => absurd hd List.not_mem_nil⟩
  · rintro filter hf
    obtain rfl := Option.some.inj hf
    exact hx
  · rintro t ht
    obtain rfl := Option.some.inj ht
    exact ⟨by decide, by decide, rfl, rfl⟩

/-- With a one in it the rule is read back, and so is its query; with an infinity it is not. -/
theorem webRule_read_back :
    (∃ one : Float, one = .ofBits 0x3FF0000000000000 ∧
      parse (String.ofList (webRule one).canonical) = .ok (webRule one) ∧
      Query.parse (String.ofList (Query.canonical (webRule one).query)) =
        .ok (webRule one).query ∧
      ∀ pattern ∈ (webRule one).query, ∀ filter ∈ pattern.filter, ¬filter.value.Infinite) ∧
    ¬∃ read, parse (String.ofList (webRule Number.Binary64.infinity).canonical) = .ok read ∧
      (read == webRule Number.Binary64.infinity) = true := by
  have hone : (Number.Binary64.ofPattern false 0x3FF0000000000000).isFinite = true := by
    rw [Number.Binary64.isFinite_iff, Number.Binary64.magnitude_ofPattern]
    decide
  have hinfinity : ¬Number.Binary64.infinity.isFinite = true := by
    rw [Number.Binary64.isFinite_iff, Number.Binary64.infinity,
      Number.Binary64.magnitude_ofPattern]
    decide
  have hreadable := webRule_readable hone
  obtain ⟨hrules, hqueries, hread, -⟩ := parse_canonical_iff_readable
  have hrule := (hrules _ (webRule_classified _)).2.mpr hreadable
  have hquery := (hqueries _ (webRule_classified _)).2.mpr hreadable.query
  have hrefused := (hrules _ (webRule_classified _)).1.not.mpr fun hbad =>
    hinfinity (hbad.query.finite _ List.mem_cons_self _ rfl)
  exact ⟨⟨_, rfl, hrule, hquery, (hread _ _ hrule).mp hrule⟩, hrefused⟩

end Rule

end CatalogGuard
