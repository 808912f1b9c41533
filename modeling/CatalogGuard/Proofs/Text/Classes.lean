import CatalogGuard.Text.Blank
import CatalogGuard.Text.DecimalDigit
import CatalogGuard.Text.WordChar
import Mathlib.Data.List.TakeWhile

/-!
# Classes of characters

What keeps tokens apart: no blank may stand in a word, every decimal digit may, and among the
characters of ASCII only its ten digits are decimal digits.  The classes are lists of ranges, so
each of these is a comparison of two lists, and nothing is looked up for a single character.

A token is often a run, as many characters of a class as there are.  A run is found again in a
longer text if what follows `Stops` the class, and a run that was read is always so followed.
-/

namespace CatalogGuard.Text

variable {p q : Char → Bool} {c : Char} {run rest text : List Char}

/-! ### Comparing classes -/

namespace CharRanges

variable {xs ys : CharRanges}

/-- Whether no range of one class meets one of the other.  Written with `Nat.blt`, which the kernel
evaluates on numbers directly; the lists are long. -/
def disjoint (xs ys : CharRanges) : Bool :=
  xs.all fun r => ys.all fun s => Nat.blt r.2 s.1 || Nat.blt s.2 r.1

/-- Whether each range of the second class lies within one of the first. -/
def covers (xs ys : CharRanges) : Bool :=
  ys.all fun r => xs.any fun s => Nat.ble r.2 s.2 && Nat.ble s.1 r.1

theorem contains_iff :
    xs.contains c = true ↔ ∃ range ∈ xs, range.1 ≤ c.toNat ∧ c.toNat ≤ range.2 := by
  simp [contains]

theorem contains_eq_false_of_disjoint (h : disjoint xs ys = true) (hc : xs.contains c = true) :
    ys.contains c = false := by
  rw [← Bool.not_eq_true, contains_iff]
  rintro ⟨s, hs, hs₁, hs₂⟩
  obtain ⟨r, hr, hr₁, hr₂⟩ := contains_iff.mp hc
  have hrs : r.2 < s.1 ∨ s.2 < r.1 := by
    simpa using List.all_eq_true.mp (List.all_eq_true.mp h r hr) s hs
  omega

theorem contains_of_covers (h : covers xs ys = true) (hc : ys.contains c = true) :
    xs.contains c = true := by
  obtain ⟨r, hr, hr₁, hr₂⟩ := contains_iff.mp hc
  obtain ⟨s, hs, hsr⟩ := List.any_eq_true.mp (List.all_eq_true.mp h r hr)
  have hsr : r.2 ≤ s.2 ∧ s.1 ≤ r.1 := by simpa using hsr
  exact contains_iff.mpr ⟨s, hs, by omega, by omega⟩

/-- Among the characters of ASCII only the ranges that start there matter. -/
theorem contains_eq_of_ascii (hc : c.toNat < 0x80) :
    xs.contains c = CharRanges.contains (xs.filter fun r => Nat.blt r.1 0x80) c := by
  rw [Bool.eq_iff_iff, contains_iff, contains_iff]
  constructor
  · rintro ⟨r, hr, hlow, hhigh⟩
    have hstart : Nat.blt r.1 0x80 = true := Nat.blt_eq.mpr (Nat.lt_of_le_of_lt hlow hc)
    exact ⟨r, List.mem_filter.mpr ⟨hr, hstart⟩, hlow, hhigh⟩
  · rintro ⟨r, hr, hlow, hhigh⟩
    exact ⟨r, (List.mem_filter.mp hr).1, hlow, hhigh⟩

end CharRanges

/-! ### Blanks, words and digits -/

/-- If one class excludes another, the other excludes it. -/
theorem eq_false_comm {a b : Bool} (h : a = true → b = false) (hb : b = true) : a = false := by
  rw [← Bool.not_eq_true]
  intro ha
  rw [h ha] at hb
  exact Bool.false_ne_true hb

/-- The letters and digits of ASCII and the underscore. -/
def asciiWordRanges : CharRanges := [(0x30, 0x39), (0x41, 0x5a), (0x5f, 0x5f), (0x61, 0x7a)]

/-- All that has to be looked up in the lists, at once. -/
theorem ranges_compared :
    CharRanges.disjoint blankRanges wordRanges = true ∧
      CharRanges.covers wordRanges decimalDigitRanges = true ∧
      (decimalDigitRanges.filter fun r => Nat.blt r.1 0x80) = [(0x30, 0x39)] ∧
      (wordRanges.filter fun r => Nat.blt r.1 0x80) = asciiWordRanges := by
  decide +kernel

/-- No blank may stand in a word. -/
theorem isWordChar_of_isBlank (h : isBlank c = true) : isWordChar c = false :=
  CharRanges.contains_eq_false_of_disjoint ranges_compared.1 h

theorem isWordChar_of_isDecimalDigit (h : isDecimalDigit c = true) : isWordChar c = true :=
  CharRanges.contains_of_covers ranges_compared.2.1 h

theorem isBlank_of_isWordChar (h : isWordChar c = true) : isBlank c = false :=
  eq_false_comm isWordChar_of_isBlank h

theorem isDigit_iff : c.isDigit = true ↔ 0x30 ≤ c.toNat ∧ c.toNat ≤ 0x39 := by
  rw [Char.isDigit, Bool.and_eq_true, decide_eq_true_iff, decide_eq_true_iff]
  exact Iff.rfl

/-- The decimal digits of ASCII are its ten digits. -/
theorem isDecimalDigit_of_ascii (hc : c.toNat < 0x80) : isDecimalDigit c = c.isDigit := by
  rw [isDecimalDigit, CharRanges.contains_eq_of_ascii hc, ranges_compared.2.2.1, Bool.eq_iff_iff,
    isDigit_iff]
  simp [CharRanges.contains]

theorem isDecimalDigit_of_isDigit (h : c.isDigit = true) : isDecimalDigit c = true := by
  have hc : c.toNat < 0x80 := by
    have := isDigit_iff.mp h
    omega
  rwa [isDecimalDigit_of_ascii hc]

theorem isWordChar_of_ascii (hc : c.toNat < 0x80) : isWordChar c = asciiWordRanges.contains c := by
  rw [isWordChar, CharRanges.contains_eq_of_ascii hc, ranges_compared.2.2.2]

/-! ### Runs -/

/-- No character of a class comes next. -/
def Stops (p : Char → Bool) (rest : List Char) : Prop := ∀ c ∈ rest.head?, p c = false

theorem stops_nil : Stops p [] := by simp [Stops]

theorem stops_cons : Stops p (c :: rest) ↔ p c = false := by simp [Stops]

theorem stops_dropWhile (p : Char → Bool) (text : List Char) : Stops p (text.dropWhile p) := by
  intro c hc
  have := List.head?_dropWhile_not p text
  rw [Option.mem_def.mp hc] at this
  exact this

/-- What stops a class stops the classes within it. -/
theorem Stops.mono (h : Stops p rest) (hpq : ∀ c, q c = true → p c = true) : Stops q rest := by
  intro c hc
  rw [← Bool.not_eq_true]
  intro hq
  have := h c hc
  rw [hpq c hq] at this
  exact Bool.false_ne_true this.symm

/-- A run may be put before what stops another class if its own characters do. -/
theorem Stops.append (h : Stops p rest) (hrun : ∀ c ∈ run, p c = false) :
    Stops p (run ++ rest) := by
  cases run with
  | nil => exact h
  | cons c more => exact stops_cons.mpr (hrun c List.mem_cons_self)

theorem Stops.takeWhile_eq_nil (h : Stops p rest) : rest.takeWhile p = [] := by
  cases rest with
  | nil => rfl
  | cons c more =>
    have hc : ¬p c = true := Bool.not_eq_true _ ▸ stops_cons.mp h
    exact List.takeWhile_cons_of_neg hc

theorem Stops.dropWhile_eq (h : Stops p rest) : rest.dropWhile p = rest := by
  have := List.takeWhile_append_dropWhile (p := p) (l := rest)
  rwa [h.takeWhile_eq_nil, List.nil_append] at this

theorem takeWhile_append_of_stops (hrun : ∀ c ∈ run, p c = true) (h : Stops p rest) :
    (run ++ rest).takeWhile p = run := by
  rw [List.takeWhile_append_of_pos hrun, h.takeWhile_eq_nil, List.append_nil]

theorem dropWhile_append_of_stops (hrun : ∀ c ∈ run, p c = true) (h : Stops p rest) :
    (run ++ rest).dropWhile p = rest := by
  rw [List.dropWhile_append_of_pos hrun, h.dropWhile_eq]

/-! ### Skipping blanks -/

theorem skipBlanks_append (hrun : ∀ c ∈ run, isBlank c = true) (h : Stops isBlank rest) :
    skipBlanks (run ++ rest) = rest :=
  dropWhile_append_of_stops hrun h

/-- A text is the blanks skipped and the rest. -/
theorem eq_append_skipBlanks (text : List Char) :
    ∃ gap, (∀ c ∈ gap, isBlank c = true) ∧ text = gap ++ skipBlanks text :=
  ⟨leadingBlanks text, fun _ hc => List.mem_takeWhile_imp hc,
    (leadingBlanks_append_skipBlanks text).symm⟩

theorem stops_skipBlanks (text : List Char) : Stops isBlank (skipBlanks text) :=
  stops_dropWhile isBlank text

end CatalogGuard.Text
