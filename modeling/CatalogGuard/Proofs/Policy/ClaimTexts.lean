import CatalogGuard.Claim.Graph
import CatalogGuard.Policy.OfKdl
import CatalogGuard.Proofs.Rule.Canonical
import CatalogGuard.Proofs.Rule.Reading
import CatalogGuard.Proofs.Text.Pieces

/-!
# The texts of claims

A claim is cut at its slashes when it is followed, and read as a query when it is checked.  The two
agree on the claims that pass the check.  The check does not look at the text itself: it reads a
query, refuses filters, and compares the canonical text of what it has read.  That leaves exactly
the names with a slash before each of them, without blanks and empty names.

No condition on the characters of the text is needed for this.  A name that was read holds no slash
and no bracket, and no blank since blanks are no word characters, so a canonical text without
filters can be cut at its slashes and nowhere else.

## Main definitions

* `PlainQuery` — a query without filters whose names could have been read

## Main results

* `validateClaim_eq_ok_iff_plain` — the claims that pass are the canonical texts of plain queries
* `patternsOf_canonical` — cutting the canonical text of a plain query gives its names
* `validateClaim_eq_ok_iff_names` — the claims that pass are names behind slashes, and their parts
  are what the query reader finds in them
-/

namespace CatalogGuard.Policy

open Rule Rule.Grammar
open Claim (Graph.patternsOf)

variable {claim : String} {query : Query}

/-- A query without filters whose names could have been read. -/
def PlainQuery (query : Query) : Prop :=
  ∀ pattern ∈ query, pattern.filter = none ∧ pattern.name.Legible ∧ pattern.name.Classified

/-- The query that names stand for. -/
def queryOfNames (names : List (List Char)) : Query :=
  names.map fun name => ⟨.ofText (String.ofList name), none⟩

/-! ### Plain queries and their texts -/

/-- Names that can be written in a claim, where they hold characters of ASCII only. -/
theorem names_of_ascii {names : List (List Char)} (h : (names.all fun name => !name.isEmpty &&
      name.all fun c => c.toNat < 0x80 &&
        (Text.asciiWordRanges.contains c || c == '.' || c == '*' || c == '-')) = true) :
    ∀ name ∈ names, name ≠ [] ∧ ∀ c ∈ name, NameChar c := by
  intro name hname
  have hall := List.all_eq_true.mp h name hname
  rw [Bool.and_eq_true, Bool.not_eq_true', List.isEmpty_eq_false_iff] at hall
  exact ⟨hall.1, nameChars_of_ascii hall.2⟩

theorem PlainQuery.canonical_eq (h : PlainQuery query) :
    Query.canonical query =
      (query.map fun pattern => pattern.name.text.toList).flatMap fun name => '/' :: name :=
  Query.canonical_of_filter_eq_none fun pattern hmem => (h pattern hmem).1

theorem PlainQuery.patterns_canonical (h : PlainQuery query) :
    Patterns (Query.canonical query) query := by
  refine Grammar.patterns_canonical (fun pattern hmem => ?_) (fun pattern hmem filter hf => ?_)
  · obtain ⟨hnone, hlegible, hclassified⟩ := h pattern hmem
    refine ⟨⟨hlegible, fun filter hf => ?_⟩, hclassified⟩
    rw [hnone] at hf
    cases hf
  · rw [(h pattern hmem).1] at hf
    cases hf

/-- Cutting the canonical text of a plain query gives its names. -/
theorem patternsOf_canonical (h : PlainQuery query) (hc : claim.toList = Query.canonical query) :
    Graph.patternsOf claim = query.map EntryPattern.name := by
  have hparts : Text.parts claim.toList = query.map fun pattern => pattern.name.text.toList := by
    rw [hc, h.canonical_eq]
    refine Text.parts_flatMap_cons fun name hmem => ?_
    obtain ⟨pattern, hp, rfl⟩ := List.mem_map.mp hmem
    obtain ⟨-, ⟨hne, hchars⟩, -⟩ := h pattern hp
    refine ⟨fun hnil => hne (String.toList_inj.mp hnil), fun hslash => ?_⟩
    have := isNameChar_iff.mpr (hchars '/' hslash)
    rw [isNameChar_slash] at this
    cases this
  rw [Graph.patternsOf, hparts, List.map_map]
  refine List.map_congr_left fun pattern hp => ?_
  rw [Function.comp_apply, String.ofList_toList, NamePattern.ofText_text (h pattern hp).2.2]

theorem plainQuery_queryOfNames {names : List (List Char)}
    (h : ∀ name ∈ names, name ≠ [] ∧ ∀ c ∈ name, NameChar c) : PlainQuery (queryOfNames names) := by
  intro pattern hmem
  obtain ⟨name, hname, rfl⟩ := List.mem_map.mp hmem
  obtain ⟨ne, chars⟩ := h name hname
  obtain ⟨-, hlegible, hclassified⟩ := name_iff.mp (Name.chars ne chars)
  exact ⟨rfl, hlegible, hclassified⟩

theorem canonical_queryOfNames (names : List (List Char)) :
    Query.canonical (queryOfNames names) = names.flatMap fun name => '/' :: name := by
  have hnone : ∀ pattern ∈ queryOfNames names, pattern.filter = none := by
    intro pattern hmem
    obtain ⟨name, -, rfl⟩ := List.mem_map.mp hmem
    rfl
  rw [Query.canonical_of_filter_eq_none hnone, queryOfNames, List.map_map, List.flatMap_map]
  simp

/-! ### The check -/

/-- What the check asks for, in its own terms. -/
theorem validateClaim_eq_ok_iff : validateClaim claim = .ok () ↔
    ∃ query, Query.parse claim = .ok query ∧ (∀ pattern ∈ query, pattern.filter = none) ∧
      claim.toList = Query.canonical query := by
  rw [validateClaim]
  split
  · next complaint hparse =>
    constructor
    · intro h
      cases h
    · rintro ⟨query, hq, -⟩
      cases hparse.symm.trans hq
  · next read hparse =>
    have hread : ∀ query, Query.parse claim = .ok query ↔ query = read := by
      intro query
      rw [hparse, Except.ok.injEq, eq_comm]
    simp only [hread, exists_eq_left]
    have hany : (read.any fun pattern => pattern.filter.isSome) = true ↔
        ¬ ∀ pattern ∈ read, pattern.filter = none := by
      simp [Option.isSome_iff_ne_none]
    have hspelled : String.ofList (Query.canonical read) = claim ↔
        claim.toList = Query.canonical read := by
      rw [← String.toList_inj, String.toList_ofList, eq_comm]
    split
    · next hfilters =>
      constructor
      · intro h
        cases h
      · exact fun h => absurd h.1 (hany.mp hfilters)
    · next hplain =>
      rw [hany, not_not] at hplain
      split
      · next hc => exact ⟨fun _ => ⟨hplain, hspelled.mp hc⟩, fun _ => rfl⟩
      · next hc =>
        constructor
        · intro h
          cases h
        · exact fun h => absurd (hspelled.mpr h.2) hc

/-- **The claims that pass are the canonical texts of plain queries**, and these are what is read
of them. -/
theorem validateClaim_eq_ok_iff_plain : validateClaim claim = .ok () ↔
    ∃ query, Query.parse claim = .ok query ∧ PlainQuery query ∧
      claim.toList = Query.canonical query := by
  rw [validateClaim_eq_ok_iff]
  refine exists_congr fun query => and_congr_right fun hparse => and_congr_left fun _ => ?_
  have hnames := legible_of_patterns (patterns_skipBlanks (query_parse_eq_ok_iff.mp hparse))
  constructor
  · intro h pattern hmem
    obtain ⟨hlegible, hclassified⟩ := hnames pattern hmem
    exact ⟨h pattern hmem, hlegible.name, hclassified⟩
  · exact fun h pattern hmem => (h pattern hmem).1

theorem validateClaim_of_plain (h : PlainQuery query) (hc : claim.toList = Query.canonical query) :
    validateClaim claim = .ok () := by
  refine validateClaim_eq_ok_iff_plain.mpr ⟨query, query_parse_eq_ok_iff.mpr ?_, h, hc⟩
  rw [hc]
  exact .query blanks_nil h.patterns_canonical

/-- **What is accepted as a claim.**  A claim passes the check exactly if it is made of names, none
of them empty, with a slash before each; and then the parts it is cut into when it is followed are,
in order, the names of the query that is read of it, which has no filters. -/
theorem validateClaim_eq_ok_iff_names (claim : String) :
    (validateClaim claim = .ok () ↔
        ∃ names : List (List Char), (∀ name ∈ names, name ≠ [] ∧ ∀ c ∈ name, NameChar c) ∧
          claim.toList = names.flatMap fun name => '/' :: name) ∧
      (validateClaim claim = .ok () →
        ∃ query, Query.parse claim = .ok query ∧
          Graph.patternsOf claim = query.map EntryPattern.name ∧
            ∀ pattern ∈ query, pattern.filter = none) := by
  refine ⟨⟨fun h => ?_, ?_⟩, fun h => ?_⟩
  · obtain ⟨query, -, hplain, hc⟩ := validateClaim_eq_ok_iff_plain.mp h
    refine ⟨_, fun name hmem => ?_, hc.trans hplain.canonical_eq⟩
    obtain ⟨pattern, hp, rfl⟩ := List.mem_map.mp hmem
    obtain ⟨-, ⟨hne, hchars⟩, -⟩ := hplain pattern hp
    exact ⟨fun hnil => hne (String.toList_inj.mp hnil), hchars⟩
  · rintro ⟨names, hnames, hc⟩
    exact validateClaim_of_plain (plainQuery_queryOfNames hnames)
      (hc.trans (canonical_queryOfNames names).symm)
  · obtain ⟨query, hparse, hplain, hc⟩ := validateClaim_eq_ok_iff_plain.mp h
    exact ⟨query, hparse, patternsOf_canonical hplain hc, fun pattern hmem =>
      (hplain pattern hmem).1⟩

/-- A claim that passes, and the patterns that it is followed by and read as. -/
theorem validateClaim_slash_courses :
    validateClaim "/courses/web*/**" = .ok () ∧
      ∃ query, Query.parse "/courses/web*/**" = .ok query ∧
        query.map EntryPattern.name = [.literal "courses", .glob "web*", .anySequence] := by
  have h : validateClaim "/courses/web*/**" = .ok () := by
    exact (validateClaim_eq_ok_iff_names _).1.mpr
      ⟨["courses".toList, "web*".toList, "**".toList], names_of_ascii (by decide), by decide⟩
  obtain ⟨query, hparse, hnames, -⟩ := (validateClaim_eq_ok_iff_names _).2 h
  exact ⟨h, query, hparse, hnames.symm.trans (by decide)⟩

end CatalogGuard.Policy
