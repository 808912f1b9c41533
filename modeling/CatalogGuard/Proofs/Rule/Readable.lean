import CatalogGuard.Proofs.Number.Layout
import CatalogGuard.Proofs.Rule.Canonical
import CatalogGuard.Proofs.Rule.Queries
import CatalogGuard.Proofs.Text.Spelling
import CatalogGuard.Proofs.Time.Writing

/-!
# Rules that can be written

A rule is `Readable` if nothing in it is foreign to the grammar: its names could have been read, its
numbers are finite, and its bounds are whole minutes of a year with four digits.  Texts are under no
condition, since every character has a spelling in quotes.

The canonical text of a rule is its window, perhaps a blank, and its query.  Each of these derives
what it was written from, so that the canonical text of a readable rule derives the rule.

## Main definitions

* `Query.Readable`, `Rule.Readable`

## Main results

* `Grammar.patterns_of_readable`, `Grammar.ruleText_canonical` — what is readable derives from its
  canonical text
-/

namespace CatalogGuard

open Rule.Grammar

/-- A value that the grammar has a text for. -/
def PropertyValue.Finite : PropertyValue → Prop
  | .number value => value.isFinite = true
  | _ => True

/-- A value that is an infinite number. -/
def PropertyValue.Infinite : PropertyValue → Prop
  | .number value => value.isInf = true
  | _ => False

/-- A query that the grammar has a text for. -/
structure Query.Readable (query : Query) : Prop where
  /-- The names could have been read. -/
  legible : ∀ pattern ∈ query, pattern.Legible
  /-- The numbers are finite. -/
  finite : ∀ pattern ∈ query, ∀ filter ∈ pattern.filter, filter.value.Finite

/-- A rule that the grammar has a text for. -/
structure Rule.Readable (rule : Rule) : Prop where
  /-- The grammar has a text for its query. -/
  query : Query.Readable rule.query
  /-- The opening bound could have been read. -/
  opens : ∀ t ∈ rule.opens, t.Legible
  /-- The closing bound could have been read. -/
  closes : ∀ t ∈ rule.closes, t.Legible

namespace Rule.Grammar

variable {query : Query} {rule : Rule} {opens closes : Option Instant} {t : Instant}

/-! ### Values and queries -/

theorem value_canonical {value : PropertyValue} (h : value.Finite) :
    Value value.canonical value := by
  cases value with
  | string text =>
    have hv := Value.string (Text.Quoted.decode_encode text.toList)
    rwa [String.ofList_toList] at hv
  | number value => exact Number.value_display h
  | bool value =>
    cases value with
    | true => exact .yes
    | false => exact .no
  | null => exact .null

/-- No value in a text is NaN. -/
theorem finite_iff_of_value {token : List Char} {value : PropertyValue} (h : Value token value) :
    value.Finite ↔ ¬value.Infinite := by
  cases h with
  | string | yes | no | null => exact ⟨fun _ hinf => hinf, fun _ => trivial⟩
  | number =>
    refine Number.Binary64.isFinite_iff_not_special.trans (and_iff_right ?_)
    rw [Number.Binary64.isNaN_ofDecimal]
    exact Bool.false_ne_true

theorem finite_iff_of_patterns {text : List Char} (h : Patterns text query) :
    ∀ pattern ∈ query, ∀ filter ∈ pattern.filter,
      (filter.value.Finite ↔ ¬filter.value.Infinite) := by
  induction h with
  | nil => exact fun pattern hmem => absurd hmem List.not_mem_nil
  | cons hp _ ih =>
    refine List.forall_mem_cons.mpr ⟨?_, ih⟩
    cases hp with
    | plain => exact fun filter hf => by cases hf
    | filtered _ _ _ hf _ =>
      rintro filter hfilter
      obtain rfl := Option.some.inj hfilter
      obtain ⟨-, -, -, -, -, hv, -⟩ := hf
      exact finite_iff_of_value hv

/-- **A readable query derives from its canonical text.** -/
theorem patterns_of_readable (h : Query.Readable query)
    (hc : ∀ pattern ∈ query, pattern.name.Classified) : Patterns (Query.canonical query) query :=
  patterns_canonical (fun pattern hmem => ⟨h.legible pattern hmem, hc pattern hmem⟩)
    fun pattern hmem filter hf => value_canonical (h.finite pattern hmem filter hf)

/-! ### Windows -/

theorem blanks_space : Blanks [' '] :=
  List.forall_mem_singleton.mpr (by decide)

theorem gap_space : Gap [' '] := ⟨List.cons_ne_nil _ _, blanks_space⟩

/-- Words are joined by blanks. -/
theorem exists_intercalate_concat (words : List (List Char)) (last : List Char) :
    ∃ gap, Blanks gap ∧
      [' '].intercalate (words ++ [last]) = [' '].intercalate words ++ (gap ++ last) := by
  induction words with
  | nil => exact ⟨[], blanks_nil, by simp⟩
  | cons word words ih =>
    cases words with
    | nil => exact ⟨[' '], blanks_space, by simp⟩
    | cons next words =>
      obtain ⟨gap, hgap, heq⟩ := ih
      refine ⟨gap, hgap, ?_⟩
      rw [List.cons_append, List.cons_append, List.intercalate_cons_cons, ← List.cons_append, heq,
        List.intercalate_cons_cons]
      simp only [List.append_assoc]

/-- The canonical text of a rule is that of its window, perhaps a blank, and that of its query. -/
theorem exists_canonical_eq (rule : Rule) : ∃ gap, Blanks gap ∧
    rule.canonical =
      Rule.canonical ⟨[], rule.opens, rule.closes⟩ ++ (gap ++ Query.canonical rule.query) := by
  obtain ⟨query, opens, closes⟩ := rule
  cases query with
  | nil => exact ⟨[], blanks_nil, (List.append_nil _).symm⟩
  | cons pattern query =>
    obtain ⟨gap, hgap, heq⟩ := exists_intercalate_concat
      (Rule.words ⟨[], opens, closes⟩) (Query.canonical (pattern :: query))
    refine ⟨gap, hgap, Eq.trans ?_ heq⟩
    simp [Rule.canonical, Rule.words]

theorem bound_toMinutes (keyword : String) (h : t.Legible) :
    Bound keyword (keyword.toList ++ [' '] ++ t.toMinutes) t :=
  .bound gap_space (Instant.date_toMinutes h)

theorem window_canonical (hopens : ∀ t ∈ opens, t.Legible) (hcloses : ∀ t ∈ closes, t.Legible) :
    Window (Rule.canonical ⟨[], opens, closes⟩) opens closes := by
  cases opens with
  | none =>
    cases closes with
    | none => exact .always
    | some u =>
      have hc := bound_toMinutes "until" (hcloses u rfl)
      simpa [Rule.canonical, Rule.words] using Window.closes hc
  | some t =>
    have ho := bound_toMinutes "after" (hopens t rfl)
    cases closes with
    | none => simpa [Rule.canonical, Rule.words] using Window.opens ho
    | some u =>
      have hc := bound_toMinutes "until" (hcloses u rfl)
      simpa [Rule.canonical, Rule.words] using Window.both ho gap_space hc

/-- **A readable rule derives from its canonical text.** -/
theorem ruleText_canonical (h : rule.Readable)
    (hc : ∀ pattern ∈ rule.query, pattern.name.Classified) : RuleText rule.canonical rule := by
  obtain ⟨gap, hgap, heq⟩ := exists_canonical_eq rule
  rw [heq]
  exact .rule blanks_nil (window_canonical h.opens h.closes)
    (.query hgap (patterns_of_readable h.query hc))

end Rule.Grammar

end CatalogGuard
