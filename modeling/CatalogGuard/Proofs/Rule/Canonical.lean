import CatalogGuard.Proofs.Rule.Grammar
import Mathlib.Data.List.Basic

/-!
# Canonical texts in the grammar

Canonical texts are written without regard to the grammar: whatever a name holds is put between
slashes and brackets as it stands.  What comes out derives the query again if its names could have
been read from a text, and nothing else is ever read.

That a value can be read back is another matter and depends on the value alone, so it is a
hypothesis here.

## Main definitions

* `NamePattern.Legible`, `PropertyFilter.Legible`, `EntryPattern.Legible` — names that could have
  been read from a text
* `NamePattern.Classified` — the pattern is of the kind that its text says

## Main results

* `Grammar.name_iff`, `Grammar.property_iff` — the texts that a name derives from
* `Grammar.legible_of_patterns` — what derives is legible
* `Grammar.patterns_canonical` — what is legible derives from its canonical text
-/

namespace CatalogGuard

open Rule.Grammar

/-- The name of an entry that could have been read: one character of a name or more. -/
def NamePattern.Legible (pattern : NamePattern) : Prop :=
  pattern.text ≠ "" ∧ ∀ c ∈ pattern.text.toList, NameChar c

/-- A pattern that some text stands for. -/
def NamePattern.Classified (pattern : NamePattern) : Prop := ∃ text, pattern = .ofText text

/-- The name of a property that could have been read. -/
def PropertyFilter.Legible (filter : PropertyFilter) : Prop :=
  ∃ c more, filter.name.toList = c :: more ∧ PropertyStart c ∧ ∀ d ∈ more, PropertyChar d

/-- An entry pattern with names that could have been read. -/
structure EntryPattern.Legible (pattern : EntryPattern) : Prop where
  /-- The name of the entry could. -/
  name : pattern.name.Legible
  /-- The name of the property could. -/
  filter : ∀ filter ∈ pattern.filter, filter.Legible

theorem NamePattern.ofText_text {pattern : NamePattern} (h : pattern.Classified) :
    .ofText pattern.text = pattern := by
  obtain ⟨text, rfl⟩ := h
  rw [text_ofText]

theorem Query.canonical_cons (pattern : EntryPattern) (query : Query) :
    Query.canonical (pattern :: query) = pattern.canonical ++ Query.canonical query :=
  List.flatMap_cons

/-- Without filters, the canonical text is the names with a slash before each of them. -/
theorem Query.canonical_of_filter_eq_none {query : Query}
    (h : ∀ pattern ∈ query, pattern.filter = none) :
    Query.canonical query =
      (query.map fun pattern => pattern.name.text.toList).flatMap fun name => '/' :: name := by
  rw [Query.canonical, List.flatMap_map]
  refine List.flatMap_congr fun pattern hmem => ?_
  rw [EntryPattern.canonical, h pattern hmem]
  simp

namespace Rule.Grammar

variable {text token : List Char} {pattern : EntryPattern} {query : Query}
  {filter : PropertyFilter}

/-! ### Names -/

/-- A name derives from its own text only. -/
theorem name_iff {name : NamePattern} :
    Name token name ↔ token = name.text.toList ∧ name.Legible ∧ name.Classified := by
  constructor
  · rintro ⟨ne, chars⟩
    refine ⟨by simp, ⟨?_, by simpa using chars⟩, _, rfl⟩
    intro hempty
    rw [NamePattern.text_ofText, ← String.toList_inj, String.toList_ofList] at hempty
    exact ne hempty
  · rintro ⟨rfl, ⟨ne, chars⟩, hc⟩
    have hname := Name.chars (fun hnil => ne (String.toList_inj.mp hnil)) chars
    rwa [String.ofList_toList, NamePattern.ofText_text hc] at hname

/-- The name of a property derives from its own text only. -/
theorem property_iff : Property token filter.name ↔
    token = filter.name.toList ∧ filter.Legible := by
  generalize hname : filter.name = name
  rw [PropertyFilter.Legible, hname]
  constructor
  · rintro ⟨start, chars⟩
    exact ⟨by simp, _, _, String.toList_ofList, start, chars⟩
  · rintro ⟨rfl, c, more, heq, start, chars⟩
    have hp := Property.chars start chars
    rwa [← heq, String.ofList_toList] at hp

/-! ### What derives is legible -/

theorem legible_of_filter (h : Filter token filter) : filter.Legible := by
  obtain @⟨_, property, _, sign, _, value, _, name, comparison, wanted, -, hp, -⟩ := h
  have hname : Property property (PropertyFilter.mk name comparison wanted).name := hp
  exact (property_iff.mp hname).2

theorem legible_of_pattern (h : Pattern token pattern) :
    pattern.Legible ∧ pattern.name.Classified := by
  cases h with
  | plain _ hn _ =>
    obtain ⟨-, hlegible, hclassified⟩ := name_iff.mp hn
    exact ⟨⟨hlegible, fun filter hf => by cases hf⟩, hclassified⟩
  | filtered _ hn _ hf _ =>
    obtain ⟨-, hlegible, hclassified⟩ := name_iff.mp hn
    refine ⟨⟨hlegible, fun filter heq => ?_⟩, hclassified⟩
    obtain rfl := Option.some.inj heq
    exact legible_of_filter hf

theorem legible_of_patterns (h : Patterns text query) :
    ∀ pattern ∈ query, pattern.Legible ∧ pattern.name.Classified := by
  induction h with
  | nil => exact fun pattern hmem => absurd hmem List.not_mem_nil
  | cons hp hq ih => exact List.forall_mem_cons.mpr ⟨legible_of_pattern hp, ih⟩

/-! ### What is legible derives -/

theorem filter_canonical (h : filter.Legible) (hv : Value filter.value.canonical filter.value) :
    Filter filter.canonical filter := by
  have hf := Filter.filter blanks_nil (property_iff.mpr ⟨rfl, h⟩) blanks_nil
    (.single filter.comparison) blanks_nil hv blanks_nil
  simpa [PropertyFilter.canonical] using hf

theorem pattern_canonical (h : pattern.Legible) (hc : pattern.name.Classified)
    (hv : ∀ filter ∈ pattern.filter, Value filter.value.canonical filter.value) :
    Pattern pattern.canonical pattern := by
  obtain ⟨name, found⟩ := pattern
  have hn := name_iff.mpr ⟨rfl, h.name, hc⟩
  cases found with
  | none => simpa [EntryPattern.canonical] using Pattern.plain blanks_nil hn blanks_nil
  | some filter =>
    have hf := filter_canonical (h.filter filter rfl) (hv filter rfl)
    simpa [EntryPattern.canonical] using Pattern.filtered blanks_nil hn blanks_nil hf blanks_nil

/-- **The canonical text of a query derives the query** if its names are legible and its values can
be read back. -/
theorem patterns_canonical (h : ∀ pattern ∈ query, pattern.Legible ∧ pattern.name.Classified)
    (hv : ∀ pattern ∈ query, ∀ filter ∈ pattern.filter,
      Value filter.value.canonical filter.value) :
    Patterns (Query.canonical query) query := by
  induction query with
  | nil => exact .nil
  | cons pattern query ih =>
    obtain ⟨hp, hq⟩ := List.forall_mem_cons.mp h
    obtain ⟨hvp, hvq⟩ := List.forall_mem_cons.mp hv
    rw [Query.canonical_cons]
    exact .cons (pattern_canonical hp.1 hp.2 hvp) (ih hq hvq)

end Rule.Grammar

end CatalogGuard
