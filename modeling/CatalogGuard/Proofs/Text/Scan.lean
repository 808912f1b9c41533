import CatalogGuard.Proofs.Text.Bytes
import CatalogGuard.Text.Scan

/-!
# What scanning keeps

An operation counts characters, and what is asked about a scan is a number of bytes.  `width?` says
how many bytes each operation takes, in terms of bytes alone: the blanks that are skipped are as
wide as the text gets narrower, and the longest literal is the widest one.  With it a step has one
of three outcomes, whichever operation it is: a piece of that width is taken, or nothing fits, or
there has been a failure before.

A step of any kind leaves the text as it was, cut at another place between two of its characters.
So does a run of steps, by induction.

## Main definitions

* `Operation`, `Operation.apply`, `run`, `reach` — operations with their arguments, and runs of them
* `Operation.width?` — the number of bytes that an operation takes
* `Step` — the outcomes of an operation

## Main results

* `step_apply`, `offset_apply` — every operation has one of these outcomes, and moves that far
* `run_cut`, `run_failed`, `exists_pieces_run` — the text, failures and pieces along a run
* `reach_spec` — what holds of every scan that is reached
-/

namespace CatalogGuard.Text

variable {text rest piece behind : List Char}

/-! ### Operations -/

/-- An operation on a scan, with its arguments. -/
inductive Operation where
  /-- Takes the blanks that come next. -/
  | skipBlanks
  /-- Takes the blanks that come next, at least one. -/
  | takeBlanks
  /-- Takes one of the candidates. -/
  | takeChar (candidates : List Char)
  /-- Takes the longest of the literals. -/
  | takeLiteral (literals : List (List Char))
  /-- Takes what a pattern fits. -/
  | takePattern (pattern : Pattern)

/-- What an operation makes of a scan. -/
def Operation.apply : Operation → Scan → Scan
  | .skipBlanks, scan => scan.skipBlanks
  | .takeBlanks, scan => scan.takeBlanks
  | .takeChar candidates, scan => scan.takeChar candidates
  | .takeLiteral literals, scan => scan.takeLiteral literals
  | .takePattern pattern, scan => scan.takePattern pattern

/-- The literals that a text starts with; the empty one does not count. -/
def startingLiterals (literals : List (List Char)) (rest : List Char) : List (List Char) :=
  literals.filter fun literal => !literal.isEmpty && literal.isPrefixOf rest

/-- The number of bytes that an operation takes, if it does not fail. -/
def Operation.width? : Operation → List Char → Option Nat
  | .skipBlanks, rest => some (byteSize rest - byteSize (Text.skipBlanks rest))
  | .takeBlanks, rest =>
    let width := byteSize rest - byteSize (Text.skipBlanks rest)
    if width = 0 then none else some width
  | .takeChar candidates, rest =>
    (rest.head?.filter fun c => candidates.contains c).map Char.utf8Size
  | .takeLiteral literals, rest => ((startingLiterals literals rest).map byteSize).max?
  | .takePattern pattern, rest =>
    ((pattern rest).filter (0 < ·)).map fun count => byteSize (rest.take count)

/-! ### Widths -/

theorem byteSize_leadingBlanks (rest : List Char) :
    byteSize rest - byteSize (skipBlanks rest) = byteSize (leadingBlanks rest) := by
  have hsize : byteSize (leadingBlanks rest) + byteSize (skipBlanks rest) = byteSize rest := by
    rw [← byteSize_append, leadingBlanks_append_skipBlanks]
  omega

theorem take_leadingBlanks (rest : List Char) :
    rest.take (leadingBlanks rest).length = leadingBlanks rest :=
  (List.prefix_iff_eq_take.mp (List.takeWhile_prefix isBlank)).symm

theorem byteSize_eq_zero_iff : byteSize text = 0 ↔ text = [] := by
  cases text with
  | nil => exact ⟨fun _ => rfl, fun _ => rfl⟩
  | cons c more =>
    have := c.utf8Size_pos
    simp only [byteSize_cons, List.cons_ne_nil, iff_false]
    omega

/-- Of the texts that a text starts with, the longest is the widest. -/
theorem byteSize_le_of_prefix {a b : List Char} (ha : a <+: rest) (hb : b <+: rest)
    (h : a.length ≤ b.length) : byteSize a ≤ byteSize b := by
  obtain ⟨more, rfl⟩ := List.prefix_of_prefix_length_le ha hb h
  rw [byteSize_append]
  exact Nat.le_add_right _ _

/-- So the greatest width is that of the greatest length. -/
theorem max?_byteSize {found : List (List Char)} (h : ∀ literal ∈ found, literal <+: rest) :
    (found.map byteSize).max? =
      ((found.map List.length).max?).map fun count => byteSize (rest.take count) := by
  cases hmax : (found.map List.length).max? with
  | none =>
    obtain rfl := List.map_eq_nil_iff.mp (List.max?_eq_none_iff.mp hmax)
    rfl
  | some count =>
    obtain ⟨hmem, hle⟩ := List.max?_eq_some_iff.mp hmax
    obtain ⟨longest, hlongest, rfl⟩ := List.mem_map.mp hmem
    have hpiece := List.prefix_iff_eq_take.mp (h longest hlongest)
    rw [Option.map_some, ← hpiece, List.max?_eq_some_iff]
    refine ⟨List.mem_map_of_mem hlongest, List.forall_mem_map.mpr fun literal hliteral => ?_⟩
    exact byteSize_le_of_prefix (h literal hliteral) (h longest hlongest)
      (hle _ (List.mem_map_of_mem hliteral))

theorem prefix_of_mem_startingLiterals {literals : List (List Char)} :
    ∀ literal ∈ startingLiterals literals rest, literal <+: rest := by
  intro literal hmem
  have hstarts := (Bool.and_eq_true_iff.mp (List.mem_filter.mp hmem).2).2
  exact List.isPrefixOf_iff_prefix.mp hstarts

/-! ### Steps -/

/-- The outcomes of an operation. -/
inductive Step (op : Operation) : Scan → Scan → Prop where
  /-- A piece comes next that is as wide as the operation takes. -/
  | takes {passed rest piece behind last : List Char} (hcut : rest = piece ++ behind)
      (hwidth : op.width? rest = some (byteSize piece)) :
      Step op ⟨passed, rest, some last⟩ ⟨passed ++ piece, behind, some piece⟩
  /-- Nothing that it takes comes next. -/
  | fails {passed rest last : List Char} (hwidth : op.width? rest = none) :
      Step op ⟨passed, rest, some last⟩ ⟨passed, rest, none⟩
  /-- There has been a failure. -/
  | stays {passed rest : List Char} : Step op ⟨passed, rest, none⟩ ⟨passed, rest, none⟩

/-- What is left of an operation is to count the characters that make up its width. -/
theorem step_advance? {op : Operation} {count? : List Char → Option Nat}
    (h : ∀ rest, op.width? rest = (count? rest).map fun count => byteSize (rest.take count))
    (scan : Scan) : Step op scan (scan.advance? count?) := by
  obtain ⟨passed, rest, taken⟩ := scan
  have hwidth := h rest
  cases taken with
  | none => exact .stays
  | some last =>
    have hready : (Scan.mk passed rest (some last)).isReady = true := rfl
    rw [Scan.advance?, if_pos hready]
    dsimp only
    split
    · next count hcount =>
      rw [hcount] at hwidth
      exact .takes (List.take_append_drop count rest).symm hwidth
    · next hcount =>
      rw [hcount] at hwidth
      exact .fails hwidth

/-- **Every operation has one of these outcomes.** -/
theorem step_apply (op : Operation) (scan : Scan) : Step op scan (op.apply scan) := by
  cases op with
  | skipBlanks =>
    rw [Operation.apply, Scan.skipBlanks]
    refine step_advance? (fun rest => ?_) scan
    rw [Operation.width?, byteSize_leadingBlanks, Option.map_some, take_leadingBlanks]
  | takeBlanks =>
    rw [Operation.apply, Scan.takeBlanks]
    refine step_advance? (fun rest => ?_) scan
    dsimp only [Operation.width?]
    rw [byteSize_leadingBlanks]
    by_cases hnone : leadingBlanks rest = []
    · rw [hnone]
      rfl
    · rw [if_neg (mt byteSize_eq_zero_iff.mp hnone)]
      have htake := take_leadingBlanks rest
      obtain ⟨c, more, hcons⟩ := List.exists_cons_of_ne_nil hnone
      rw [hcons] at htake ⊢
      exact congrArg (fun piece => some (byteSize piece)) htake.symm
  | takeChar candidates =>
    rw [Operation.apply, Scan.takeChar]
    refine step_advance? (fun rest => ?_) scan
    cases rest with
    | nil => rfl
    | cons c rest =>
      dsimp only [Operation.width?, List.head?_cons]
      by_cases hc : candidates.contains c = true
      · rw [if_pos hc, Option.filter_some, if_pos hc]
        rfl
      · rw [if_neg hc, Option.filter_some, if_neg hc]
        rfl
  | takeLiteral literals =>
    rw [Operation.apply, Scan.takeLiteral]
    refine step_advance? (fun rest => ?_) scan
    exact max?_byteSize prefix_of_mem_startingLiterals
  | takePattern pattern =>
    rw [Operation.apply, Scan.takePattern]
    refine step_advance? (fun rest => ?_) scan
    dsimp only [Operation.width?]
    cases hpattern : pattern rest with
    | none => rfl
    | some count =>
      cases count with
      | zero => rfl
      | succ count => rfl

/-- **How far an operation moves**: as many bytes as it takes.  It fails if what it takes does not
come next. -/
theorem offset_apply {op : Operation} {scan : Scan} (hready : scan.isReady = true) :
    (op.apply scan).isReady = (op.width? scan.rest).isSome ∧
      (op.apply scan).offset = scan.offset + (op.width? scan.rest).getD 0 := by
  have hstep := step_apply op scan
  generalize op.apply scan = next at hstep
  cases hstep with
  | @takes passed rest piece behind last hcut hwidth =>
    have hoffset : byteSize (passed ++ piece) = byteSize passed + byteSize piece :=
      byteSize_append passed piece
    refine ⟨?_, ?_⟩ <;> rw [hwidth]
    · rfl
    · exact hoffset
  | fails hwidth =>
    refine ⟨?_, ?_⟩ <;> rw [hwidth] <;> rfl
  | stays => cases hready

/-! ### Runs -/

/-- What operations make of a scan, one after the other. -/
def run (scan : Scan) (ops : List Operation) : Scan := ops.foldl (fun scan op => op.apply scan) scan

/-- The pieces that operations take one after the other; `none` for each that fails. -/
def values (scan : Scan) : List Operation → List (Option (List Char))
  | [] => []
  | op :: ops => (op.apply scan).taken :: values (op.apply scan) ops

theorem run_append (scan : Scan) (ops more : List Operation) :
    run scan (ops ++ more) = run (run scan ops) more :=
  List.foldl_append

theorem run_cons (scan : Scan) (op : Operation) (ops : List Operation) :
    run scan (op :: ops) = run (op.apply scan) ops := rfl

/-- A step cuts the text at the same place, or further on. -/
theorem Step.cut {op : Operation} {scan next : Scan} (h : Step op scan next) :
    ∃ piece, next.passed = scan.passed ++ piece ∧ scan.rest = piece ++ next.rest := by
  cases h with
  | takes hcut => exact ⟨_, rfl, hcut⟩
  | fails => exact ⟨[], (List.append_nil _).symm, rfl⟩
  | stays => exact ⟨[], (List.append_nil _).symm, rfl⟩

/-- **A run cuts the text further on.** -/
theorem run_cut (scan : Scan) (ops : List Operation) :
    ∃ piece, (run scan ops).passed = scan.passed ++ piece ∧
      scan.rest = piece ++ (run scan ops).rest := by
  induction ops generalizing scan with
  | nil => exact ⟨[], (List.append_nil _).symm, rfl⟩
  | cons op ops ih =>
    obtain ⟨piece, hpassed, hrest⟩ := (step_apply op scan).cut
    obtain ⟨more, hpassed', hrest'⟩ := ih (op.apply scan)
    refine ⟨piece ++ more, ?_, ?_⟩
    · rw [run_cons, hpassed', hpassed, List.append_assoc]
    · rw [run_cons, hrest, hrest', List.append_assoc]

theorem offset_run_le (scan : Scan) (ops : List Operation) :
    scan.offset ≤ (run scan ops).offset := by
  obtain ⟨piece, hpassed, -⟩ := run_cut scan ops
  rw [Scan.offset, Scan.offset, hpassed, byteSize_append]
  exact Nat.le_add_right _ _

/-- A failed scan stays as it is. -/
theorem Step.eq_of_failed {op : Operation} {scan next : Scan} (h : Step op scan next)
    (hfailed : scan.isReady = false) : next = scan := by
  cases h with
  | takes => cases hfailed
  | fails => cases hfailed
  | stays => rfl

/-- **A failure lasts.** -/
theorem run_failed {scan : Scan} (hfailed : scan.isReady = false) (ops : List Operation) :
    run scan ops = scan := by
  induction ops with
  | nil => rfl
  | cons op ops ih => rw [run_cons, (step_apply op scan).eq_of_failed hfailed, ih]

/-- An operation that fails moves nothing. -/
theorem Step.of_failed {op : Operation} {scan next : Scan} (h : Step op scan next)
    (hfailed : next.isReady = false) : next.offset = scan.offset ∧ next.taken = none := by
  cases h with
  | takes => cases hfailed
  | fails => exact ⟨rfl, rfl⟩
  | stays => exact ⟨rfl, rfl⟩

/-- What an operation takes that does not fail stands before the place it leads to. -/
theorem Step.of_ready {op : Operation} {scan next : Scan} (h : Step op scan next)
    (hready : next.isReady = true) :
    ∃ piece, next.taken = some piece ∧ next.passed = scan.passed ++ piece := by
  cases h with
  | takes => exact ⟨_, rfl, rfl⟩
  | fails => cases hready
  | stays => cases hready

/-- **The pieces make up the text** that has been passed, as long as nothing has failed. -/
theorem exists_pieces_run {scan : Scan} {ops : List Operation}
    (hready : (run scan ops).isReady = true) :
    ∃ pieces : List (List Char), values scan ops = pieces.map some ∧
      (run scan ops).passed = scan.passed ++ pieces.flatten := by
  induction ops generalizing scan with
  | nil => exact ⟨[], rfl, (List.append_nil _).symm⟩
  | cons op ops ih =>
    have hnext : (op.apply scan).isReady = true := by
      by_contra hfailed
      have hfailed := Bool.eq_false_iff.mpr hfailed
      rw [run_cons, run_failed hfailed, hfailed] at hready
      cases hready
    obtain ⟨piece, htaken, hpassed⟩ := (step_apply op scan).of_ready hnext
    obtain ⟨pieces, hvalues, hpassed'⟩ := ih hready
    refine ⟨piece :: pieces, ?_, ?_⟩
    · rw [values, htaken, hvalues, List.map_cons]
    · rw [run_cons, hpassed', hpassed, List.flatten_cons, List.append_assoc]

/-- The scan that is reached by operations from the start of a text. -/
def reach (text : String) (ops : List Operation) : Scan := run (.start text.toList) ops

/-- **What holds of every scan that is reached** from the start of a text, whatever the operations
were.  Its offset is in the text and between two characters, and no further operation moves it back:
the next one moves it by the bytes that it takes, or fails.  As long as no operation has failed,
what they have taken makes up the text before the offset.  An operation that fails moves nothing and
takes nothing, and the scan is the same ever after. -/
theorem reach_spec (text : String) (ops : List Operation) :
    text.toList = (reach text ops).passed ++ (reach text ops).rest ∧
    (reach text ops).offset ≤ text.utf8ByteSize ∧
    (String.Pos.Raw.mk (reach text ops).offset).IsValid text ∧
    (∀ more, (reach text ops).offset ≤ (reach text (ops ++ more)).offset) ∧
    (∀ op, (reach text ops).isReady = true →
      (reach text (ops ++ [op])).isReady = (op.width? (reach text ops).rest).isSome ∧
      (reach text (ops ++ [op])).offset =
        (reach text ops).offset + (op.width? (reach text ops).rest).getD 0) ∧
    ((reach text ops).isReady = true →
      ∃ pieces : List (List Char), values (.start text.toList) ops = pieces.map some ∧
        bytes (String.ofList pieces.flatten) = (bytes text).take (reach text ops).offset) ∧
    ∀ op, (reach text (ops ++ [op])).isReady = false →
      (reach text (ops ++ [op])).offset = (reach text ops).offset ∧
      (reach text (ops ++ [op])).taken = none ∧
      ∀ more, reach text (ops ++ op :: more) = reach text (ops ++ [op]) := by
  have hcut : text.toList = (reach text ops).passed ++ (reach text ops).rest := by
    obtain ⟨piece, hpassed, hrest⟩ := run_cut (.start text.toList) ops
    rw [reach, hpassed]
    exact hrest
  have hlast : ∀ op, reach text (ops ++ [op]) = op.apply (reach text ops) := fun op =>
    run_append _ ops [op]
  obtain ⟨hle, hvalid⟩ := isValid_of_cut hcut
  refine ⟨hcut, hle, hvalid, fun more => ?_, fun op hready => ?_, fun hready => ?_,
    fun op hfailed => ?_⟩
  · rw [reach, reach, run_append]
    exact offset_run_le _ more
  · rw [hlast]
    exact offset_apply hready
  · obtain ⟨pieces, hvalues, hpassed⟩ := exists_pieces_run hready
    have hpieces : (reach text ops).passed = pieces.flatten := hpassed
    refine ⟨pieces, hvalues, ?_⟩
    rw [Scan.offset, ← bytes_of_cut hcut, hpieces]
  · have hmore : ∀ more, reach text (ops ++ op :: more) = run (reach text (ops ++ [op])) more := by
      intro more
      rw [hlast]
      exact run_append _ ops (op :: more)
    obtain ⟨hoffset, htaken⟩ := (step_apply op _).of_failed (hlast op ▸ hfailed)
    refine ⟨hlast op ▸ hoffset, hlast op ▸ htaken, fun more => ?_⟩
    rw [hmore, run_failed hfailed]

end CatalogGuard.Text
