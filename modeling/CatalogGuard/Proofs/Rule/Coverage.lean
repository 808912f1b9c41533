import CatalogGuard.Proofs.Rule.Walk
import Mathlib.Data.List.TakeWhile

/-!
# What a rule covers

A rule covers a path if it is in force and its patterns go along with the path.  Written out entry
by entry this is one of two conditions, depending on whether there is a `**` among the patterns.
Without one, the patterns accept as many entries as there are patterns, and only here the coverage
has a say, about entries that are left over.  With one, the patterns before it accept as many
entries, and all the others have to pass its filter; the patterns behind it must be `**` too, and
nothing else about them matters.

The root takes no part in this: its own pattern fits it, and the first pattern of the query is held
against the entry below it.

## Main definitions

* `Query.AcceptsEach` — patterns accept the entries at the same places

## Main results

* `Query.walk_iff` — a walk, in terms of lengths and places
* `Rule.covers_iff_at_places` — what a rule covers, and when
-/

namespace CatalogGuard

namespace Query

variable {coverage : Coverage} {pattern star : EntryPattern} {entry : Entry}
  {query before after : Query} {path : List Entry}

/-- Patterns accept the entries at the same places, as far as there are both. -/
def AcceptsEach (query : Query) (path : List Entry) : Prop :=
  ∀ (i : Nat) (pattern : EntryPattern) (entry : Entry), query[i]? = some pattern →
    path[i]? = some entry → pattern.accepts entry = true

theorem acceptsEach_nil : AcceptsEach [] path := by
  intro i pattern entry hpattern
  cases hpattern

theorem acceptsEach_cons :
    AcceptsEach (pattern :: query) (entry :: path) ↔
      pattern.accepts entry = true ∧ AcceptsEach query path := by
  constructor
  · intro h
    exact ⟨h 0 pattern entry rfl rfl, fun i => h (i + 1)⟩
  · rintro ⟨hfirst, hrest⟩ (_ | i) _ _ hpattern hentry
    · obtain rfl := Option.some.inj hpattern
      obtain rfl := Option.some.inj hentry
      exact hfirst
    · exact hrest i _ _ hpattern hentry

/-- A part of a path that patterns take one by one is as long as there are patterns. -/
theorem exists_takes_iff {goesOn : List Entry → Prop} :
    (∃ first rest, path = first ++ rest ∧ Takes query first ∧ goesOn rest) ↔
      query.length ≤ path.length ∧ AcceptsEach query path ∧ goesOn (path.drop query.length) := by
  induction query generalizing path with
  | nil =>
    constructor
    · rintro ⟨first, rest, rfl, hfirst, hrest⟩
      obtain rfl := List.forall₂_nil_left_iff.mp hfirst
      exact ⟨Nat.zero_le _, acceptsEach_nil, hrest⟩
    · rintro ⟨-, -, hrest⟩
      exact ⟨[], path, rfl, .nil, hrest⟩
  | cons pattern query ih =>
    cases path with
    | nil =>
      constructor
      · rintro ⟨first, rest, heq, hfirst, -⟩
        obtain ⟨rfl, rfl⟩ := List.append_eq_nil_iff.mp heq.symm
        cases hfirst
      · rintro ⟨hlen, -⟩
        exact absurd hlen (Nat.not_succ_le_zero _)
    | cons entry path =>
      rw [acceptsEach_cons, List.length_cons, List.length_cons, Nat.succ_le_succ_iff,
        List.drop_succ_cons, and_assoc, and_left_comm, ← ih]
      constructor
      · rintro ⟨_, rest, heq, hfirst, hrest⟩
        cases hfirst with
        | @cons _ other _ first hentry hfirst =>
          obtain ⟨rfl, rfl⟩ := List.cons.inj heq
          exact ⟨hentry, first, rest, rfl, hfirst, hrest⟩
      · rintro ⟨hentry, first, rest, rfl, hfirst, hrest⟩
        exact ⟨entry :: first, rest, rfl, .cons hentry hfirst, hrest⟩

/-- **A walk, place by place.**  The patterns before the first `**` accept as many entries, and what
is left of the query takes those behind. -/
theorem walk_iff : walk coverage query path = true ↔
    query.spelled.length ≤ path.length ∧ AcceptsEach query.spelled path ∧
      GoesOn coverage query.onward (path.drop query.spelled.length) :=
  walk_iff_exists_split.trans exists_takes_iff

/-! ### The first `**` -/

/-- A query has no `**`, or it is divided by the first one. -/
theorem eq_append_star (query : Query) :
    (∀ pattern ∈ query, pattern.name ≠ .anySequence) ∨
      ∃ before star after, query = before ++ star :: after ∧ star.name = .anySequence ∧
        ∀ pattern ∈ before, pattern.name ≠ .anySequence := by
  have hcut : query.spelled ++ query.onward = query := List.takeWhile_append_dropWhile
  have hspelled : ∀ pattern ∈ query.spelled, pattern.name ≠ .anySequence := by
    intro pattern hmem
    rw [spelled] at hmem
    simpa using List.mem_takeWhile_imp hmem
  cases honward : query.onward with
  | nil =>
    rw [honward, List.append_nil] at hcut
    exact Or.inl (hcut ▸ hspelled)
  | cons star after =>
    exact Or.inr ⟨_, star, after, (honward ▸ hcut).symm, name_of_onward_eq_cons honward, hspelled⟩

theorem spelled_append (h : ∀ pattern ∈ before, pattern.name ≠ .anySequence) :
    spelled (before ++ after) = before ++ after.spelled :=
  List.takeWhile_append_of_pos fun pattern hmem => bne_iff_ne.mpr (h pattern hmem)

theorem onward_append (h : ∀ pattern ∈ before, pattern.name ≠ .anySequence) :
    onward (before ++ after) = after.onward :=
  List.dropWhile_append_of_pos fun pattern hmem => bne_iff_ne.mpr (h pattern hmem)

/-- A walk along a query without `**`: only the number of entries depends on the coverage. -/
theorem walk_iff_of_spelled (h : ∀ pattern ∈ query, pattern.name ≠ .anySequence) :
    walk coverage query path = true ↔
      (path.length = query.length ∨ query.length < path.length ∧ coverage = .subtree) ∧
        AcceptsEach query path := by
  have hne : ∀ pattern ∈ query, (pattern.name != .anySequence) = true :=
    fun pattern hmem => bne_iff_ne.mpr (h pattern hmem)
  have hspelled : query.spelled = query := List.takeWhile_eq_self_iff.mpr hne
  have honward : query.onward = [] := List.dropWhile_eq_nil_iff.mpr hne
  rw [walk_iff, hspelled, honward, GoesOn, List.drop_eq_nil_iff]
  constructor
  · rintro ⟨hle, haccepts, hge | hcoverage⟩
    · exact ⟨Or.inl (Nat.le_antisymm hge hle), haccepts⟩
    · exact ⟨(Nat.eq_or_lt_of_le hle).imp Eq.symm fun hlt => ⟨hlt, hcoverage⟩, haccepts⟩
  · rintro ⟨heq | ⟨hlt, hcoverage⟩, haccepts⟩
    · exact ⟨heq.ge, haccepts, Or.inl heq.le⟩
    · exact ⟨hlt.le, haccepts, Or.inr hcoverage⟩

/-- What a `**` makes of an entry. -/
theorem accepts_of_anySequence (h : star.name = .anySequence) (entry : Entry) :
    star.accepts entry = true ↔
      ∀ filter ∈ star.filter, filter.accepts (entry.property filter.name) = true := by
  rw [EntryPattern.accepts, h]
  cases star.filter <;> simp [NamePattern.accepts]

/-- A walk along a query with a `**`: all entries from its place on have to pass its filter. -/
theorem walk_iff_of_star (hbefore : ∀ pattern ∈ before, pattern.name ≠ .anySequence)
    (hstar : star.name = .anySequence) :
    walk coverage (before ++ star :: after) path = true ↔
      (∀ pattern ∈ after, pattern.name = .anySequence) ∧ before.length ≤ path.length ∧
        AcceptsEach before path ∧ ∀ entry ∈ path.drop before.length,
          ∀ filter ∈ star.filter, filter.accepts (entry.property filter.name) = true := by
  have hspelled : spelled (before ++ star :: after) = before := by
    rw [spelled_append hbefore, spelled_cons_of_eq hstar, List.append_nil]
  have honward : onward (before ++ star :: after) = star :: after := by
    rw [onward_append hbefore, onward_cons_of_eq hstar]
  rw [walk_iff, hspelled, honward, GoesOn]
  simp only [accepts_of_anySequence hstar]
  constructor
  · exact fun ⟨hle, haccepts, hrest, hafter⟩ => ⟨hafter, hle, haccepts, hrest⟩
  · exact fun ⟨hafter, hle, haccepts, hrest⟩ => ⟨hle, haccepts, hrest, hafter⟩

end Query

namespace Rule

variable {rule : Rule} {now : Instant} {coverage : Coverage} {root : Entry} {entries : List Entry}
  {position : Position}

theorem inForce_iff :
    rule.inForce now = true ↔
      (∀ start ∈ rule.opens, start ≤ now) ∧ ∀ stop ∈ rule.closes, now ≤ stop := by
  cases hopens : rule.opens <;> cases hcloses : rule.closes <;> simp [inForce, hopens, hcloses]

/-- **What a rule covers.**  At an instant in its window, both ends included, a rule covers the path
of entries below the root in one of two cases.  If none of its patterns is `**`, each accepts the
entry at its place, and there are as many entries as patterns, or more where subtrees are covered.
If the first `**` stands at place `k`, all patterns behind it are `**` too, there are at least `k`
entries, each pattern before it accepts the entry at its place, and all entries from place `k` on
pass the filter of that `**`, if it has one. -/
theorem covers_iff_at_places (hroot : root.name = "") (hpath : position.path = root :: entries)
    (rule : Rule) (now : Instant) (coverage : Coverage) :
    rule.covers now coverage position = true ↔
      ((∀ start ∈ rule.opens, start ≤ now) ∧ ∀ stop ∈ rule.closes, now ≤ stop) ∧
        ((∀ pattern ∈ rule.query, pattern.name ≠ .anySequence) ∧
            (entries.length = rule.query.length ∨
              rule.query.length < entries.length ∧ coverage = .subtree) ∧
            Query.AcceptsEach rule.query entries ∨
          ∃ k star, rule.query[k]? = some star ∧ star.name = .anySequence ∧
            (∀ pattern ∈ rule.query.take k, pattern.name ≠ .anySequence) ∧
            (∀ pattern ∈ rule.query.drop (k + 1), pattern.name = .anySequence) ∧
            k ≤ entries.length ∧ Query.AcceptsEach (rule.query.take k) entries ∧
            ∀ entry ∈ entries.drop k, ∀ filter ∈ star.filter,
              filter.accepts (entry.property filter.name) = true) := by
  rw [Rule.covers, Bool.and_eq_true, inForce_iff, Query.covers_iff_walk hroot hpath]
  refine and_congr_right fun _ => ⟨fun h => ?_, ?_⟩
  · rcases Query.eq_append_star rule.query with hall | ⟨before, star, after, hq, hstar, hbefore⟩
    · exact Or.inl ⟨hall, (Query.walk_iff_of_spelled hall).mp h⟩
    · rw [hq, Query.walk_iff_of_star hbefore hstar] at h
      obtain ⟨hafter, hle, haccepts, hrest⟩ := h
      refine Or.inr ⟨before.length, star, ?_, hstar, ?_, ?_, hle, ?_, hrest⟩
      · rw [hq, List.getElem?_append_right (Nat.le_refl _), Nat.sub_self]
        rfl
      · rwa [hq, List.take_left]
      · rwa [hq, ← List.drop_drop, List.drop_left]
      · rwa [hq, List.take_left]
  · rintro (⟨hall, h⟩ | ⟨k, star, hk, hstar, hbefore, hafter, hle, haccepts, hrest⟩)
    · exact (Query.walk_iff_of_spelled hall).mpr h
    · obtain ⟨hlt, rfl⟩ := List.getElem?_eq_some_iff.mp hk
      have hlen : (rule.query.take k).length = k := List.length_take_of_le hlt.le
      rw [← List.take_append_drop k rule.query, List.drop_eq_getElem_cons hlt,
        Query.walk_iff_of_star hbefore hstar, hlen]
      exact ⟨hafter, hle, haccepts, hrest⟩

/-- From 2026 on, whatever is below the courses and is a page, at any depth. -/
def sampleRule : Rule :=
  ⟨[⟨.literal "courses", none⟩, ⟨.anySequence, some ⟨"kind", .equal, .string "page"⟩⟩,
    ⟨.anySequence, none⟩], some ⟨⟨2026, 1, 1, 0, 0, 0, 0⟩, by decide⟩, none⟩

/-- A page of a name. -/
def samplePage (name : String) : Entry :=
  { Entry.named name with data := [("kind", .string "page")] }

/-- A page two levels below the courses. -/
def samplePosition : Position :=
  ⟨[.root, .named "courses", samplePage "web"], .node (samplePage "html") []⟩

/-- At its first instant the rule covers the page. -/
theorem sampleRule_covers :
    Entry.root.name = "" ∧
      samplePosition.path = [.root, .named "courses", samplePage "web", samplePage "html"] ∧
      ∃ now, sampleRule.opens = some now ∧
        sampleRule.covers now .exact samplePosition = true := by
  refine ⟨rfl, rfl, _, rfl, ?_⟩
  refine (covers_iff_at_places rfl rfl sampleRule _ _).mpr ⟨⟨?_, ?_⟩, Or.inr ⟨1, _, rfl, ?_⟩⟩
  · decide
  · decide
  · refine ⟨rfl, by decide, by decide, by decide, ?_, by decide⟩
    exact Query.acceptsEach_cons.mpr ⟨by decide, Query.acceptsEach_nil⟩

end Rule

end CatalogGuard
