import CatalogGuard.Text.Parts
import Mathlib.Data.List.Basic

/-!
# Pieces put together are found again

Cutting a text at a character gives back the pieces it was put together from, as long as none of
them holds the character.  Among the parts between slashes empty pieces do not count, so that a
slash in front of every piece makes no difference.

## Main results

* `splitOn_eq_iff` — the pieces of a list are determined by what they make together
* `parts_flatMap_cons` — pieces with a slash before each of them are found again
* `MoreSlashes.parts_eq` — further slashes next to those of a text, or around it, change nothing
-/

namespace CatalogGuard.Text

section Cutting

variable {α : Type} [BEq α] [LawfulBEq α] {separator : α} {piece list : List α}
  {pieces : List (List α)}

/-- What a list is cut at is in no piece. -/
theorem notMem_of_mem_splitOn (h : piece ∈ list.splitOn separator) : separator ∉ piece := by
  induction list generalizing piece with
  | nil =>
    rw [List.splitOn_nil, List.mem_singleton] at h
    rw [h]
    exact List.not_mem_nil
  | cons a list ih =>
    rw [List.splitOn_cons_eq_if_modifyHead] at h
    split at h
    next =>
      rcases List.mem_cons.mp h with rfl | h
      · exact List.not_mem_nil
      · exact ih h
    next hne =>
      obtain ⟨first, others, hs⟩ := List.exists_cons_of_ne_nil (List.splitOn_ne_nil separator list)
      rw [hs, List.modifyHead_cons] at h
      rw [hs] at ih
      rcases List.mem_cons.mp h with rfl | h
      · refine List.not_mem_cons_of_ne_of_not_mem (fun heq => hne ?_) (ih List.mem_cons_self)
        exact beq_iff_eq.mpr heq.symm
      · exact ih (List.mem_cons_of_mem _ h)

/-- There is one way to write a list as pieces without the separator, joined by it. -/
theorem splitOn_eq_iff : list.splitOn separator = pieces ↔
    pieces ≠ [] ∧ (∀ piece ∈ pieces, separator ∉ piece) ∧
      [separator].intercalate pieces = list := by
  constructor
  · rintro rfl
    exact ⟨List.splitOn_ne_nil separator list, fun piece => notMem_of_mem_splitOn,
      List.intercalate_splitOn separator⟩
  · rintro ⟨hne, hpieces, rfl⟩
    exact List.splitOn_intercalate separator hpieces hne

end Cutting

/-! ### Slashes that say nothing -/

variable {separator : Char} {pieces : List (List Char)}

theorem parts_append_cons (before after : List Char) :
    parts (before ++ '/' :: after) = parts before ++ parts after := by
  rw [parts, List.splitOn_append_cons_self, List.filter_append]
  rfl

theorem parts_cons (text : List Char) : parts ('/' :: text) = parts text :=
  parts_append_cons [] text

/-- Non-empty pieces with slashes between them are the parts of the text. -/
theorem parts_intercalate (h : ∀ piece ∈ pieces, piece ≠ [] ∧ '/' ∉ piece) :
    parts (['/'].intercalate pieces) = pieces := by
  cases pieces with
  | nil => rfl
  | cons first rest =>
    have hpieces := splitOn_eq_iff.mpr
      ⟨List.cons_ne_nil first rest, fun piece hp => (h piece hp).2, rfl⟩
    rw [parts, hpieces, List.filter_eq_self]
    intro piece hp
    simpa using (h piece hp).1

/-- Separators before all pieces are separators between them, and one at the start. -/
theorem flatMap_cons_eq_cons_intercalate (hne : pieces ≠ []) :
    (pieces.flatMap fun piece => separator :: piece) =
      separator :: [separator].intercalate pieces := by
  induction pieces with
  | nil => exact absurd rfl hne
  | cons piece pieces ih =>
    cases pieces with
    | nil => simp
    | cons next more =>
      rw [List.flatMap_cons, ih (List.cons_ne_nil next more), List.intercalate_cons_cons,
        List.cons_append, List.append_assoc, List.singleton_append]

/-- Non-empty pieces with a slash before each of them are the parts of the text, too. -/
theorem parts_flatMap_cons (h : ∀ piece ∈ pieces, piece ≠ [] ∧ '/' ∉ piece) :
    parts (pieces.flatMap fun piece => '/' :: piece) = pieces := by
  cases pieces with
  | nil => rfl
  | cons first rest =>
    rw [flatMap_cons_eq_cons_intercalate (List.cons_ne_nil first rest), parts_cons,
      parts_intercalate h]

/-- A text is another one with further slashes, each of them at the start, at the end, or next to a
slash. -/
inductive MoreSlashes (text : List Char) : List Char → Prop where
  /-- No further slash. -/
  | refl : MoreSlashes text text
  /-- One at the start. -/
  | start {more : List Char} (h : MoreSlashes text more) : MoreSlashes text ('/' :: more)
  /-- One at the end. -/
  | stop {more : List Char} (h : MoreSlashes text more) : MoreSlashes text (more ++ ['/'])
  /-- One next to a slash. -/
  | beside {before after : List Char} (h : MoreSlashes text (before ++ '/' :: after)) :
      MoreSlashes text (before ++ '/' :: '/' :: after)

/-- Further slashes leave the parts of a text as they are. -/
theorem MoreSlashes.parts_eq {more : List Char} (h : MoreSlashes text more) :
    parts more = parts text := by
  induction h with
  | refl => rfl
  | start _ ih => rw [parts_cons, ih]
  | stop _ ih => rw [parts_append_cons, ih, show parts [] = [] from rfl, List.append_nil]
  | beside _ ih => rw [parts_append_cons, parts_cons, ← parts_append_cons, ih]

end CatalogGuard.Text
