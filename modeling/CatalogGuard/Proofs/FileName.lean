import CatalogGuard.Proofs.Text.Pieces
import CatalogGuard.Settings.Basic

/-!
# Where paths lead

Of the parts of a path only those that are not idle lead on.  They are the steps of the path.  To
join a path to a directory is to take the steps of the directory and then those of the path, with
one slash between the two or with several.

The folder of the policies is opened under the path as it was given, and shown without the idle
parts at its ends.  The two paths are different texts, but they have the same steps.

## Main definitions

* `FileName.steps` — the parts of a path that are not idle

## Main results

* `FileName.steps_join` — the steps of a joined path
* `Settings.steps_folderFrom` — the folder that is shown is the one that is opened
-/

namespace CatalogGuard

namespace FileName

variable {directory path : String} {parts : List (List Char)}

/-- The parts of a path that lead on. -/
def steps (path : List Char) : List (List Char) := (path.splitOn '/').filter fun part => !isIdle part

theorem steps_append_cons (before after : List Char) :
    steps (before ++ '/' :: after) = steps before ++ steps after := by
  rw [steps, List.splitOn_append_cons_self, List.filter_append]
  rfl

/-- A joined path goes through the directory. -/
theorem steps_join (h : path.toList.head? ≠ some '/') :
    steps (join directory path).toList = steps directory.toList ++ steps path.toList := by
  rw [join, if_neg h]
  split
  next hend =>
    rw [String.toList_append]
    rcases List.eq_nil_or_concat directory.toList with hnil | ⟨before, last, hlast⟩
    · rw [hnil]
      rfl
    · rw [List.concat_eq_append] at hlast
      obtain rfl : last = '/' := by simpa [hlast] using hend
      have hnone : steps [] = [] := rfl
      rw [hlast, List.append_assoc, List.singleton_append, steps_append_cons, steps_append_cons,
        hnone, List.append_nil]
  next =>
    rw [String.toList_append, String.toList_append, List.append_assoc]
    exact steps_append_cons _ _

/-! ### Without the idle parts at the ends -/

theorem filter_dropWhile_isIdle (parts : List (List Char)) :
    (parts.dropWhile isIdle).filter (fun part => !isIdle part) =
      parts.filter fun part => !isIdle part := by
  induction parts with
  | nil => rfl
  | cons part parts ih =>
    by_cases hidle : isIdle part = true
    · rw [List.dropWhile_cons_of_pos hidle, ih, List.filter_cons_of_neg (by simp [hidle])]
    · rw [List.dropWhile_cons_of_neg hidle]

theorem filter_partsToLast (path : List Char) :
    (partsToLast path).filter (fun part => !isIdle part) = steps path := by
  rw [partsToLast, List.filter_reverse, filter_dropWhile_isIdle, List.filter_reverse,
    List.reverse_reverse]
  rfl

theorem slash_not_mem_of_mem_partsToLast {path part : List Char} (h : part ∈ partsToLast path) :
    '/' ∉ part := by
  rw [partsToLast, List.mem_reverse] at h
  exact Text.notMem_of_mem_splitOn (List.mem_reverse.mp ((List.dropWhile_sublist _).subset h))

theorem steps_intercalate (h : ∀ part ∈ parts, '/' ∉ part) :
    steps (['/'].intercalate parts) = parts.filter fun part => !isIdle part := by
  cases parts with
  | nil => rfl
  | cons part rest =>
    rw [steps, Text.splitOn_eq_iff.mpr ⟨List.cons_ne_nil part rest, h, rfl⟩]

/-- Behind idle parts a path does not start with a slash. -/
theorem head?_intercalate_dropWhile (h : ∀ part ∈ parts, '/' ∉ part) :
    (['/'].intercalate (parts.dropWhile isIdle)).head? ≠ some '/' := by
  cases hs : parts.dropWhile isIdle with
  | nil => simp
  | cons part rest =>
    have hkept : isIdle part = false := by
      simpa [hs] using List.head?_dropWhile_not isIdle parts
    have hnone : '/' ∉ part := by
      refine h part ((List.dropWhile_sublist isIdle).subset ?_)
      rw [hs]
      exact List.mem_cons_self
    cases part with
    | nil => exact absurd hkept (by decide)
    | cons c more =>
      have hhead : (['/'].intercalate ((c :: more) :: rest)).head? = some c := by
        cases rest <;> simp
      rw [hhead]
      intro heq
      exact hnone (Option.some.inj heq ▸ List.mem_cons_self)

end FileName

/-- **The folder that is shown is the one that is opened.** -/
theorem Settings.steps_folderFrom (workingDirectory : String) (settings : Settings) :
    FileName.steps (settings.folderFrom workingDirectory).toList =
      FileName.steps (settings.folderIn workingDirectory).toList := by
  unfold folderFrom
  split
  next rest habsolute =>
    rw [folderIn, FileName.join, if_pos (by rw [habsolute]; rfl)]
  next hrelative =>
    have hfolder : settings.folder.toList.head? ≠ some '/' := by
      intro heq
      obtain ⟨rest, hrest⟩ := List.head?_eq_some_iff.mp heq
      exact hrelative rest hrest
    have hparts : ∀ part ∈ FileName.partsToLast settings.folder.toList, '/' ∉ part :=
      fun part => FileName.slash_not_mem_of_mem_partsToLast
    have hshown := FileName.head?_intercalate_dropWhile hparts
    rw [folderIn, FileName.steps_join hfolder, FileName.steps_join (by simpa using hshown),
      String.toList_ofList, FileName.steps_intercalate fun part hmem =>
        hparts part ((List.dropWhile_sublist _).subset hmem),
      FileName.filter_dropWhile_isIdle, FileName.filter_partsToLast]

end CatalogGuard
