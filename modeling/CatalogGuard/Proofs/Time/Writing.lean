import CatalogGuard.Proofs.Number.Digits
import CatalogGuard.Proofs.Rule.Dates

/-!
# Writing dates

A date that derives has four digits for its year and nothing below the minute.  These are also the
only instants that are written so: the year gets a sign or a fifth digit otherwise, and the form has
no place for seconds.

## Main definitions

* `Instant.Legible` — instants that could have been read from a rule

## Main results

* `Instant.legible_of_date` — what derives is legible
* `Instant.date_toMinutes` — what is legible derives from its text
* `Instant.ofSeconds_toSeconds` — and is read back from the longer form of serialised data
-/

namespace CatalogGuard.Instant

open Number (natOfDigits)
open Rule (check_eq_ok_iff readDateAndMinute_append)
open Rule.Grammar (Date DateFields Field)
open Text (skipBlanks)

variable {t : Instant} {text : List Char} {count n : Nat}

/-- An instant that could have been read from a rule. -/
structure Legible (t : Instant) : Prop where
  /-- The year is not negative. -/
  year_nonneg : 0 ≤ t.year
  /-- The year has four digits. -/
  year_le : t.year ≤ 9999
  /-- There are no seconds. -/
  second : t.second = 0
  /-- There are no parts of a second. -/
  nanosecond : t.nanosecond = 0

theorem legible_of_date (h : Date text t) : t.Legible := by
  rw [Date] at h
  obtain ⟨⟨year, month, day, hour, minute, second, nanosecond⟩, real⟩ := t
  cases h with
  | fields hyear =>
    have hlt := Number.natOfDigits_lt hyear.2
    rw [hyear.1] at hlt
    exact ⟨Int.natCast_nonneg _, Int.ofNat_le.mpr (Nat.le_of_lt_succ hlt), rfl, rfl⟩

/-! ### Fields -/

theorem isDigit_of_mem_padded {c : Char} (h : c ∈ padded count n) : c.isDigit = true := by
  rw [padded] at h
  rcases List.mem_append.mp h with hzero | hdigit
  · exact Number.isDigit_of_mem_zeros hzero
  · exact Number.isDigit_of_mem_toDigits hdigit

/-- A number that fits into a field fills it up. -/
theorem field_padded (hcount : 0 < count) (h : n < 10 ^ count) :
    Field Char.isDigit count (padded count n) := by
  have hlen := (Nat.length_toDigits_le_iff (b := 10) (by decide) hcount).mpr h
  refine ⟨?_, fun c hc => isDigit_of_mem_padded hc⟩
  rw [padded, List.length_append, List.length_replicate]
  omega

theorem natOfDigits_padded (count n : Nat) : natOfDigits (padded count n) = n := by
  rw [padded, Number.natOfDigits_zeros_append, Number.natOfDigits_toDigits]

/-- The fields of a real date and time have two digits, apart from the year. -/
theorem lt_hundred (t : Instant) :
    t.month < 10 ^ 2 ∧ t.day < 10 ^ 2 ∧ t.hour < 10 ^ 2 ∧ t.minute < 10 ^ 2 := by
  obtain ⟨hmonth, hday, hhour, hminute⟩ := Rule.bounds_of_instant t
  omega

/-! ### Dates -/

theorem yearChars_of_legible (h : t.Legible) : yearChars t.year = padded 4 t.year.natAbs := by
  rw [yearChars, if_neg (Int.not_lt.mpr h.year_nonneg), if_neg (Int.not_lt.mpr h.year_le)]

/-- **What is legible derives from its text.** -/
theorem date_toMinutes (h : t.Legible) : Date t.toMinutes t := by
  obtain ⟨hmonth, hday, hhour, hminute⟩ := lt_hundred t
  have hyear : t.year.natAbs < 10 ^ 4 := by
    have := h.year_nonneg
    have := h.year_le
    omega
  have hfields := DateFields.fields (field_padded (by decide) hyear)
    (field_padded (by decide) hmonth) (field_padded (by decide) hday)
    (field_padded (by decide) hhour) (field_padded (by decide) hminute)
  simp only [natOfDigits_padded, Int.natAbs_of_nonneg h.year_nonneg] at hfields
  have hsame : Fields.mk t.year t.month t.day t.hour t.minute 0 0 = t.toFields :=
    congrArg₂ (Fields.mk t.year t.month t.day t.hour t.minute) h.second.symm h.nanosecond.symm
  rw [Date, toMinutes, yearChars_of_legible h, ← hsame]
  simpa using hfields

/-- No date is written with a slash, be it legible or not. -/
theorem slash_not_mem_toMinutes (t : Instant) : '/' ∉ t.toMinutes := by
  have hpadded : ∀ count n, '/' ∉ padded count n := fun _ _ hmem =>
    absurd (isDigit_of_mem_padded hmem) (by decide)
  have hyear : '/' ∉ yearChars t.year := by
    rw [yearChars]
    split
    · simp [hpadded]
    · split
      · simp [hpadded]
      · exact hpadded _ _
  simp [toMinutes, hyear, hpadded]

/-! ### Serialised data -/

/-- No separator is skipped as a blank. -/
theorem skipBlanks_separator : ∀ separator ∈ ['-', 'T', ':'], ∀ rest,
    skipBlanks (separator :: rest) = separator :: rest := by
  intro separator hmem rest
  have hblank : Text.isBlank separator = false := by
    simp only [List.mem_cons, List.not_mem_nil, or_false] at hmem
    rcases hmem with rfl | rfl | rfl <;> decide
  exact (Text.stops_cons.mpr hblank).dropWhile_eq

theorem toSeconds_of_legible (h : t.Legible) : t.toSeconds = t.toMinutes ++ [':', '0', '0'] := by
  have hsecond : padded 2 0 = ['0', '0'] := by decide
  rw [toSeconds, h.second, h.nanosecond, hsecond]
  exact List.append_nil _

/-- **What is legible is read back from serialised data.** -/
theorem ofSeconds_toSeconds (h : t.Legible) : ofSeconds t.toSeconds = .ok t := by
  have hread : readDateAndMinute skipBlanks t.toSeconds = .ok (t.toFields, [':', '0', '0']) := by
    rw [toSeconds_of_legible h]
    exact readDateAndMinute_append skipBlanks_separator (date_toMinutes h) _
  have hzero : readSeconds [':', '0', '0'] = .ok ((0, 0), []) := by decide
  have hsame : ({ t.toFields with second := 0, nanosecond := 0 } : Fields) = t.toFields :=
    congrArg₂ (Fields.mk t.year t.month t.day t.hour t.minute) h.second.symm h.nanosecond.symm
  rw [ofSeconds, bind_eq_ok_iff]
  refine ⟨_, hread, ?_⟩
  simp only [hzero, hsame]
  exact check_eq_ok_iff.mpr rfl

end CatalogGuard.Instant
