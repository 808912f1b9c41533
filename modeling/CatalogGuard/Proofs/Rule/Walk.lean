import CatalogGuard.Rule.Matching
import Mathlib.Data.List.Forall2

/-!
# What a walk along a path finds

Patterns and entries are walked side by side, one step of the path at a time.  Seen from the end,
the path falls into two parts.  The first one is taken by the patterns before the first `**`, entry
by entry; whether the other one is taken is decided by what is left of the query, which is nothing
or starts with a `**`.

## Main definitions

* `Query.spelled`, `Query.onward` — the patterns before the first `**`, and those from there on
* `Query.Takes` — patterns accept entries one by one
* `Query.GoesOn` — what is left of a query takes what is left of a path

## Main results

* `Query.walk_iff_exists_split` — a walk succeeds exactly if the path falls into two such parts
* `Query.covers_iff_walk` — a query covers what is walked along below the root
-/

namespace CatalogGuard.Query

variable {coverage : Coverage} {pattern : EntryPattern} {query : Query} {path : List Entry}

/-- The patterns before the first `**`. -/
def spelled (query : Query) : Query := query.takeWhile fun pattern => pattern.name != .anySequence

/-- The patterns from the first `**` on. -/
def onward (query : Query) : Query := query.dropWhile fun pattern => pattern.name != .anySequence

/-- Patterns accept entries one by one, and there are as many of either. -/
def Takes (query : Query) (path : List Entry) : Prop :=
  List.Forall₂ (fun pattern entry => pattern.accepts entry = true) query path

/-- Whether what is left of a query, from its first `**` on, takes what is left of a path.  If
nothing is left of the query, the coverage decides. -/
def GoesOn (coverage : Coverage) : Query → List Entry → Prop
  | [], path => path = [] ∨ coverage = .subtree
  | star :: stars, path =>
    (∀ entry ∈ path, star.accepts entry = true) ∧ ∀ pattern ∈ stars, pattern.name = .anySequence

/-! ### Single steps -/

theorem walk_nil_left : walk coverage [] path = true ↔ path = [] ∨ coverage = .subtree := by
  cases path with
  | nil => simp [walk]
  | cons entry path => simp [walk]

/-- A pattern that is no `**` takes one entry. -/
theorem walk_cons_of_ne (h : pattern.name ≠ .anySequence) :
    walk coverage (pattern :: query) path = true ↔
      ∃ entry rest, path = entry :: rest ∧ pattern.accepts entry = true ∧
        walk coverage query rest = true := by
  cases path with
  | nil => simp [walk, h]
  | cons entry path => simp [walk, h, and_assoc]

/-- A `**` stays in place and has to accept all that comes. -/
theorem walk_cons_of_eq (h : pattern.name = .anySequence) :
    walk coverage (pattern :: query) path = true ↔
      (∀ entry ∈ path, pattern.accepts entry = true) ∧
        ∀ pattern ∈ query, pattern.name = .anySequence := by
  induction path with
  | nil => simp [walk, h]
  | cons entry path ih =>
    rw [walk, if_pos h, Bool.and_eq_true, ih, List.forall_mem_cons, and_assoc]

/-! ### Whole walks -/

theorem spelled_cons_of_ne (h : pattern.name ≠ .anySequence) :
    spelled (pattern :: query) = pattern :: spelled query :=
  List.takeWhile_cons_of_pos (by simpa using h)

theorem onward_cons_of_ne (h : pattern.name ≠ .anySequence) :
    onward (pattern :: query) = onward query :=
  List.dropWhile_cons_of_pos (by simpa using h)

theorem spelled_cons_of_eq (h : pattern.name = .anySequence) : spelled (pattern :: query) = [] :=
  List.takeWhile_cons_of_neg (by simpa using h)

theorem onward_cons_of_eq (h : pattern.name = .anySequence) :
    onward (pattern :: query) = pattern :: query :=
  List.dropWhile_cons_of_neg (by simpa using h)

/-- What is left of a query starts with a `**`. -/
theorem name_of_onward_eq_cons {star : EntryPattern} {stars : Query}
    (h : onward query = star :: stars) : star.name = .anySequence := by
  induction query with
  | nil => cases h
  | cons pattern query ih =>
    by_cases hp : pattern.name = .anySequence
    · rw [onward_cons_of_eq hp] at h
      exact (List.cons.inj h).1 ▸ hp
    · rw [onward_cons_of_ne hp] at h
      exact ih h

/-- **A walk succeeds exactly if the path falls into two parts**: one that is taken by the patterns
before the first `**`, and one that is taken by what is left of the query. -/
theorem walk_iff_exists_split : walk coverage query path = true ↔
    ∃ first rest, path = first ++ rest ∧ Takes query.spelled first ∧
      GoesOn coverage query.onward rest := by
  induction query generalizing path with
  | nil =>
    rw [walk_nil_left]
    constructor
    · exact fun h => ⟨[], path, rfl, .nil, h⟩
    · rintro ⟨first, rest, rfl, hfirst, h⟩
      obtain rfl := List.forall₂_nil_left_iff.mp hfirst
      exact h
  | cons pattern query ih =>
    by_cases hp : pattern.name = .anySequence
    · rw [walk_cons_of_eq hp, spelled_cons_of_eq hp, onward_cons_of_eq hp]
      constructor
      · exact fun h => ⟨[], path, rfl, .nil, h⟩
      · rintro ⟨first, rest, rfl, hfirst, h⟩
        obtain rfl := List.forall₂_nil_left_iff.mp hfirst
        exact h
    · rw [walk_cons_of_ne hp, spelled_cons_of_ne hp, onward_cons_of_ne hp]
      constructor
      · rintro ⟨entry, path, rfl, hentry, hwalk⟩
        obtain ⟨first, rest, rfl, hfirst, h⟩ := ih.mp hwalk
        exact ⟨entry :: first, rest, rfl, .cons hentry hfirst, h⟩
      · rintro ⟨first, rest, rfl, hfirst, h⟩
        cases hfirst with
        | @cons _ entry _ first hentry hfirst =>
          exact ⟨entry, first ++ rest, rfl, hentry, ih.mpr ⟨first, rest, rfl, hfirst, h⟩⟩

/-- The unnamed root is passed by its own pattern. -/
theorem covers_iff_walk {position : Position} {root : Entry} (hroot : root.name = "")
    (hpath : position.path = root :: path) :
    query.covers coverage position = true ↔ walk coverage query path = true := by
  have hne : EntryPattern.root.name ≠ .anySequence := by decide
  have haccepts : EntryPattern.root.accepts root = true := by
    rw [EntryPattern.accepts, hroot]
    rfl
  rw [covers, hpath, walk_cons_of_ne hne]
  constructor
  · rintro ⟨_, _, heq, -, h⟩
    obtain ⟨rfl, rfl⟩ := List.cons.inj heq
    exact h
  · exact fun h => ⟨root, path, rfl, haccepts, h⟩

end CatalogGuard.Query
