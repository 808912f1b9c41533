import CatalogGuard.Pattern.Name
import Mathlib.Data.List.Infix

/-!
# What globs match

A glob looks for its pieces greedily: each as far left as it occurs, and none of them is moved
again.  It loses nothing by that.  If the pieces can be placed in a name at all, then the leftmost
occurrence of the first of them ends no later than where it was placed, and what comes behind it is
there still.

## Main definitions

* `Glob.Placed` — pieces can be placed in a text one behind the other, with a last one at its end

## Main results

* `Text.afterFirst_eq_some`, `Text.exists_afterFirst_append` — the leftmost occurrence
* `Glob.exists_afterAll_iff` — the greedy search finds a place for the pieces if there is one
* `NamePattern.exists_accepts` — every pattern matches some name
-/

namespace CatalogGuard

variable {piece text rest last : List Char} {inner : List (List Char)}

/-! ### The leftmost occurrence -/

namespace Text

theorem afterFirst_eq_some (h : afterFirst piece text = some rest) :
    ∃ gap, text = gap ++ (piece ++ rest) := by
  induction text with
  | nil =>
    rw [afterFirst] at h
    split at h
    · next hempty =>
      obtain rfl := Option.some.inj h
      exact ⟨[], by rw [List.isEmpty_iff.mp hempty]; rfl⟩
    · cases h
  | cons c text ih =>
    rw [afterFirst] at h
    split at h
    · next hpre =>
      obtain ⟨behind, heq⟩ := List.isPrefixOf_iff_prefix.mp hpre
      obtain rfl := Option.some.inj h
      exact ⟨[], by rw [← heq, List.drop_left]; rfl⟩
    · obtain ⟨gap, rfl⟩ := ih h
      exact ⟨c :: gap, rfl⟩

/-- Where a piece occurs, what follows its leftmost occurrence holds all that follows it there. -/
theorem exists_afterFirst_append (gap piece rest : List Char) :
    ∃ behind, afterFirst piece (gap ++ (piece ++ rest)) = some behind ∧ rest <:+ behind := by
  induction gap with
  | nil =>
    rw [List.nil_append]
    cases htext : piece ++ rest with
    | nil =>
      obtain ⟨rfl, rfl⟩ := List.append_eq_nil_iff.mp htext
      exact ⟨[], rfl, List.suffix_rfl⟩
    | cons c text =>
      have hpre : piece.isPrefixOf (c :: text) = true :=
        List.isPrefixOf_iff_prefix.mpr (htext ▸ List.prefix_append piece rest)
      refine ⟨rest, ?_, List.suffix_rfl⟩
      rw [afterFirst, if_pos hpre, ← htext, List.drop_left]
  | cons c gap ih =>
    rw [List.cons_append, afterFirst]
    split
    · -- an occurrence further to the left
      next hpre =>
      refine ⟨_, rfl, List.suffix_of_suffix_length_le ?_ (List.drop_suffix _ _) (by simp; omega)⟩
      exact ((List.suffix_append piece rest).trans (List.suffix_append gap _)).trans
        (List.suffix_cons c _)
    · exact ih

end Text

/-! ### Greedy search -/

namespace Glob

/-- Pieces can be placed in a text in their order, with anything before each of them, and a last
one at its end. -/
inductive Placed (last : List Char) : List (List Char) → List Char → Prop where
  /-- The last one ends the text. -/
  | last (gap : List Char) : Placed last [] (gap ++ last)
  /-- The first of several stands before the others. -/
  | piece (gap piece : List Char) {more : List (List Char)} {rest : List Char}
      (h : Placed last more rest) : Placed last (piece :: more) (gap ++ (piece ++ rest))

theorem Placed.append (h : Placed last inner text) (before : List Char) :
    Placed last inner (before ++ text) := by
  cases h with
  | last gap => exact List.append_assoc before gap last ▸ .last (before ++ gap)
  | piece gap piece h => exact List.append_assoc before gap _ ▸ .piece (before ++ gap) piece h

/-- **Greed is no loss.**  The greedy search finds a place for the pieces if there is one. -/
theorem exists_afterAll_iff :
    (∃ rest, afterAll inner text = some rest ∧ last <:+ rest) ↔ Placed last inner text := by
  induction inner generalizing text with
  | nil =>
    constructor
    · rintro ⟨rest, heq, gap, rfl⟩
      obtain rfl := Option.some.inj heq
      exact .last gap
    · rintro ⟨gap⟩
      exact ⟨_, rfl, List.suffix_append gap last⟩
  | cons piece inner ih =>
    rw [afterAll]
    constructor
    · rintro ⟨rest, heq, hlast⟩
      split at heq
      · next behind hfirst =>
        obtain ⟨gap, rfl⟩ := Text.afterFirst_eq_some hfirst
        exact .piece gap piece (ih.mp ⟨rest, heq, hlast⟩)
      · cases heq
    · intro h
      cases h with
      | @piece gap _ _ rest h =>
        obtain ⟨behind, hfirst, before, rfl⟩ := Text.exists_afterFirst_append gap piece rest
        rw [hfirst]
        exact ih.mpr (h.append before)

/-- Pieces can be placed with nothing between them. -/
theorem Placed.of_flatten (inner : List (List Char)) (last : List Char) :
    Placed last inner (inner.flatten ++ last) := by
  induction inner with
  | nil => exact .last []
  | cons piece inner ih =>
    rw [List.flatten_cons, List.append_assoc]
    exact .piece [] piece ih

/-- A glob of pieces matches the names that start with the first and have a place for the others. -/
theorem accepts_pieces_iff {first name : List Char} :
    (Glob.pieces first inner last).accepts name = true ↔
      ∃ text, name = first ++ text ∧ Placed last inner text := by
  rw [accepts]
  constructor
  · intro h
    split at h
    · cases h
    · next text hfirst =>
      split at h
      · cases h
      · next rest hall =>
        exact ⟨text, (List.isPrefixOf?_eq_some_iff_append_eq.mp hfirst).symm,
          exists_afterAll_iff.mp ⟨rest, hall, List.isSuffixOf_iff_suffix.mp h⟩⟩
  · rintro ⟨text, rfl, h⟩
    obtain ⟨rest, hall, hlast⟩ := exists_afterAll_iff.mpr h
    have hfirst : first.isPrefixOf? (first ++ text) = some text :=
      List.isPrefixOf?_eq_some_iff_append_eq.mpr rfl
    simp only [hfirst, hall, List.isSuffixOf_iff_suffix.mpr hlast]

/-- Every glob matches some name. -/
theorem exists_accepts (glob : Glob) : ∃ name, glob.accepts name = true := by
  cases glob with
  | any => exact ⟨[], rfl⟩
  | literal text => exact ⟨text, beq_self_eq_true text⟩
  | pieces first inner last =>
    exact ⟨_, accepts_pieces_iff.mpr ⟨_, rfl, .of_flatten inner last⟩⟩

end Glob

/-- Every pattern matches some name. -/
theorem NamePattern.exists_accepts (pattern : NamePattern) :
    ∃ name, pattern.accepts name = true := by
  obtain ⟨name, h⟩ := pattern.toGlob.exists_accepts
  exact ⟨String.ofList name, by rw [← pattern.accepts_toGlob, String.toList_ofList, h]⟩

end CatalogGuard
