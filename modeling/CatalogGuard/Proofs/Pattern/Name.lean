import CatalogGuard.Proofs.Pattern.Glob
import CatalogGuard.Proofs.Text.Pieces

/-!
# What the text of a pattern matches

The stars of a pattern divide it into pieces, and there is one way to do so.  A name matches if it
is made of these pieces in their order with any runs of characters between them, one run for each
star: the first piece starts the name and the last one ends it.

Compiling sorts the texts into three kinds, and name patterns sort them into four.  All of them come
to this: a text without a star is its only piece, and where the pieces are all empty one of the runs
can be the whole name.

## Main results

* `Glob.placed_iff_exists_runs` — placing pieces means choosing what is between them
* `Glob.accepts_compile_iff_of_splitOn` — what a compiled text matches, in terms of its pieces
* `NamePattern.accepts_ofText_iff_exists_runs` — the same for all ways to match a text
-/

namespace CatalogGuard

namespace Glob

variable {first last text name pattern : List Char} {inner rest : List (List Char)}

/-- Pieces are placed in a text by saying which runs of characters stand before them. -/
theorem placed_iff_exists_runs : Placed last inner text ↔
    ∃ runs : List (List Char), runs.length = (inner ++ [last]).length ∧
      text = (List.zipWith (· ++ ·) runs (inner ++ [last])).flatten := by
  induction inner generalizing text with
  | nil =>
    constructor
    · rintro ⟨gap⟩
      exact ⟨[gap], rfl, by simp⟩
    · rintro ⟨runs, hlen, rfl⟩
      obtain ⟨gap, rfl⟩ := List.length_eq_one_iff.mp hlen
      simpa using @Placed.last last gap
  | cons piece inner ih =>
    constructor
    · intro h
      cases h with
      | piece gap _ h =>
        obtain ⟨runs, hlen, rfl⟩ := ih.mp h
        exact ⟨gap :: runs, congrArg Nat.succ hlen, by simp⟩
    · rintro ⟨_ | ⟨gap, runs⟩, hlen, rfl⟩
      · cases hlen
      · have h := ih.mpr ⟨runs, Nat.succ.inj hlen, rfl⟩
        simpa using Placed.piece gap piece h

/-- Empty pieces can be placed in any text. -/
theorem placed_of_forall_eq_nil (h : ∀ piece ∈ inner ++ [last], piece = []) :
    Placed last inner text := by
  have hnone : inner.flatten ++ last = [] := by
    rw [List.append_eq_nil_iff, List.flatten_eq_nil_iff]
    exact ⟨fun piece hmem => h piece (List.mem_append_left _ hmem),
      h last (List.mem_append_right _ List.mem_cons_self)⟩
  have hall := (Placed.of_flatten inner last).append text
  rwa [hnone, List.append_nil] at hall

/-- The pieces between stars alone are empty. -/
theorem splitOn_replicate (n : Nat) :
    (List.replicate n '*').splitOn '*' = List.replicate (n + 1) [] := by
  induction n with
  | zero => rfl
  | succ n ih =>
    rw [List.replicate_succ, List.splitOn_cons_eq_if_modifyHead, if_pos (beq_self_eq_true _), ih,
      ← List.replicate_succ]

/-- A text with a star in it has more than one piece. -/
theorem exists_eq_append_of_mem (h : pattern.splitOn '*' = first :: rest) (hstar : '*' ∈ pattern) :
    ∃ inner last, rest = inner ++ [last] := by
  rcases List.eq_nil_or_concat rest with rfl | ⟨inner, last, rfl⟩
  · obtain ⟨-, hpieces, heq⟩ := Text.splitOn_eq_iff.mp h
    rw [List.intercalate_singleton] at heq
    exact absurd (heq ▸ hstar) (hpieces first List.mem_cons_self)
  · exact ⟨inner, last, List.concat_eq_append⟩

/-! ### Compiled texts -/

theorem compile_of_notMem (h : '*' ∉ pattern) : compile pattern = .literal pattern := by
  rw [compile, if_pos (by simpa using h)]

theorem compile_of_all (hstar : '*' ∈ pattern) (hall : ∀ c ∈ pattern, c = '*') :
    compile pattern = .any := by
  rw [compile, if_neg (by simpa using hstar), if_pos (by simpa using hall)]

theorem compile_of_splitOn (hstar : '*' ∈ pattern) (hall : ¬∀ c ∈ pattern, c = '*')
    (h : pattern.splitOn '*' = first :: (inner ++ [last])) :
    compile pattern = .pieces first inner last := by
  rw [compile, if_neg (by simpa using hstar), if_neg (by simpa using hall), h]
  simp

/-- A text of stars has empty pieces only. -/
theorem eq_nil_of_mem_splitOn (hall : ∀ c ∈ pattern, c = '*') {piece : List Char}
    (h : piece ∈ pattern.splitOn '*') : piece = [] := by
  have hstars : pattern = List.replicate pattern.length '*' := List.eq_replicate_of_mem hall
  rw [hstars, splitOn_replicate] at h
  exact List.eq_of_mem_replicate h

/-- **What a compiled text matches.**  The names that are made of its pieces, in their order, with a
run of characters for each star. -/
theorem accepts_compile_iff_of_splitOn (h : pattern.splitOn '*' = first :: rest) :
    (compile pattern).accepts name = true ↔ ∃ runs : List (List Char),
      runs.length = rest.length ∧ name = first ++ (List.zipWith (· ++ ·) runs rest).flatten := by
  by_cases hstar : '*' ∈ pattern
  · obtain ⟨inner, last, rfl⟩ := exists_eq_append_of_mem h hstar
    have hplaced : (∃ runs : List (List Char), runs.length = (inner ++ [last]).length ∧
        name = first ++ (List.zipWith (· ++ ·) runs (inner ++ [last])).flatten) ↔
          ∃ text, name = first ++ text ∧ Placed last inner text := by
      simp only [placed_iff_exists_runs]
      exact ⟨fun ⟨runs, hlen, hname⟩ => ⟨_, hname, runs, hlen, rfl⟩,
        fun ⟨_, hname, runs, hlen, htext⟩ => ⟨runs, hlen, htext ▸ hname⟩⟩
    rw [hplaced]
    by_cases hall : ∀ c ∈ pattern, c = '*'
    · have hnone : ∀ piece ∈ first :: (inner ++ [last]), piece = [] :=
        fun piece hmem => eq_nil_of_mem_splitOn hall (h ▸ hmem)
      obtain ⟨rfl, hothers⟩ := List.forall_mem_cons.mp hnone
      rw [compile_of_all hstar hall]
      exact ⟨fun _ => ⟨name, rfl, placed_of_forall_eq_nil hothers⟩, fun _ => rfl⟩
    · rw [compile_of_splitOn hstar hall h, accepts_pieces_iff]
  · -- without a star the text is its only piece, and there is no run to choose
    rw [List.splitOn_eq_singleton hstar] at h
    obtain ⟨rfl, rfl⟩ := List.cons.inj h
    rw [compile_of_notMem hstar, accepts, beq_iff_eq]
    constructor
    · rintro rfl
      exact ⟨[], rfl, by simp⟩
    · rintro ⟨runs, -, rfl⟩
      simp

end Glob

/-- A pattern matches what its text matches when compiled. -/
theorem NamePattern.accepts_ofText (pattern name : String) :
    (ofText pattern).accepts name = (Glob.compile pattern.toList).accepts name.toList := by
  by_cases hone : pattern = "*"
  · rw [hone]
    rfl
  by_cases htwo : pattern = "**"
  · rw [htwo]
    rfl
  rw [ofText, if_neg hone, if_neg htwo]
  by_cases hstar : pattern.toList.contains '*' = true
  · rw [if_pos hstar]
    rfl
  · rw [if_neg hstar, ← accepts_toGlob, Glob.compile_of_notMem (by simpa using hstar)]
    rfl

/-- **What the text of a pattern matches.**  Compiled, it matches a name exactly if the name is
made of the pieces of the text between its stars, in their order and with any run of characters for
each star, with nothing before the first piece and nothing behind the last one.  The pattern that
the text stands for matches the same names, and so does that pattern compiled. -/
theorem NamePattern.accepts_ofText_iff_exists_runs (pattern name : String) :
    ((Glob.compile pattern.toList).accepts name.toList = true ↔
        ∃ (first : List Char) (rest runs : List (List Char)),
          ((∀ piece ∈ first :: rest, '*' ∉ piece) ∧
            ['*'].intercalate (first :: rest) = pattern.toList) ∧
          runs.length = rest.length ∧
            name.toList = first ++ (List.zipWith (· ++ ·) runs rest).flatten) ∧
      (ofText pattern).accepts name = (Glob.compile pattern.toList).accepts name.toList ∧
      (ofText pattern).toGlob.accepts name.toList =
        (Glob.compile pattern.toList).accepts name.toList := by
  refine ⟨?_, accepts_ofText pattern name,
    (accepts_toGlob _ name).trans (accepts_ofText pattern name)⟩
  constructor
  · intro h
    cases hs : pattern.toList.splitOn '*' with
    | nil => exact absurd hs (List.splitOn_ne_nil '*' _)
    | cons first rest =>
      obtain ⟨runs, hruns⟩ := (Glob.accepts_compile_iff_of_splitOn hs).mp h
      exact ⟨first, rest, runs, (Text.splitOn_eq_iff.mp hs).2, hruns⟩
  · rintro ⟨first, rest, runs, hpieces, hruns⟩
    have hs : pattern.toList.splitOn '*' = first :: rest :=
      Text.splitOn_eq_iff.mpr ⟨List.cons_ne_nil _ _, hpieces⟩
    exact (Glob.accepts_compile_iff_of_splitOn hs).mpr ⟨runs, hruns⟩

/-- The first and the last piece must not overlap. -/
example : (NamePattern.ofText "ab*ba").accepts "aba" = false := by decide

end CatalogGuard
