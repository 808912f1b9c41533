import CatalogGuard.Number.Layout
import Mathlib.Algebra.Group.Nat.Defs

/-!
# Digits of natural numbers

Numbers are written by `Nat.toDigits` and read by `natOfDigits`; the one undoes the other, also
where zeros are put before or behind the digits.

## Main results

* `natOfDigits_toDigits` — what was written is read
* `pow_le_of_toDigits`, `lt_pow_toDigits`, `natOfDigits_lt` — the size of a number by its number of
  digits
-/

namespace CatalogGuard.Number

variable {n count : Nat} {digits more : List Char}

theorem natOfDigits_eq (digits : List Char) :
    natOfDigits digits = Nat.ofDigitChars 10 digits 0 := rfl

theorem natOfDigits_toDigits (n : Nat) : natOfDigits (Nat.toDigits 10 n) = n :=
  Nat.ofDigitChars_ten_toDigits

/-- Zeros in front do not count. -/
theorem natOfDigits_zeros_append (count : Nat) (digits : List Char) :
    natOfDigits (List.replicate count '0' ++ digits) = natOfDigits digits := by
  rw [natOfDigits_eq, Nat.ofDigitChars_append, Nat.ofDigitChars_replicate_zero, Nat.mul_zero,
    ← natOfDigits_eq]

/-- Each zero behind them multiplies by ten. -/
theorem natOfDigits_append_zeros (digits : List Char) (count : Nat) :
    natOfDigits (digits ++ List.replicate count '0') = 10 ^ count * natOfDigits digits := by
  rw [natOfDigits_eq, Nat.ofDigitChars_append, Nat.ofDigitChars_replicate_zero, ← natOfDigits_eq]

theorem isDigit_of_mem_toDigits {c : Char} (h : c ∈ Nat.toDigits 10 n) : c.isDigit = true :=
  Nat.isDigit_of_mem_toDigits (by decide) (by decide) h

theorem isDigit_of_mem_zeros {c : Char} (h : c ∈ List.replicate count '0') : c.isDigit = true := by
  obtain rfl := List.eq_of_mem_replicate h
  decide

theorem lt_pow_toDigits (n : Nat) : n < 10 ^ (Nat.toDigits 10 n).length :=
  (Nat.length_toDigits_le_iff (by decide) Nat.length_toDigits_pos).mp (Nat.le_refl _)

theorem pow_le_of_toDigits (h : 0 < n) : 10 ^ ((Nat.toDigits 10 n).length - 1) ≤ n := by
  have hpos : 0 < (Nat.toDigits 10 n).length := Nat.length_toDigits_pos
  rcases Nat.eq_zero_or_pos ((Nat.toDigits 10 n).length - 1) with hzero | hmore
  · rwa [hzero]
  · refine Nat.le_of_not_lt fun hlt => ?_
    have := (Nat.length_toDigits_le_iff (by decide) hmore).mpr hlt
    omega

/-- Digits behind a number multiply it by ten each, and add less than that. -/
theorem ofDigitChars_lt (h : ∀ c ∈ digits, c.isDigit = true) (start : Nat) :
    Nat.ofDigitChars 10 digits start < (start + 1) * 10 ^ digits.length := by
  induction digits generalizing start with
  | nil => simp
  | cons c digits ih =>
    obtain ⟨hc, hdigits⟩ := List.forall_mem_cons.mp h
    have hdigit : c.toNat - 48 < 10 := by
      have := (Char.isDigit_iff_toNat.mp hc).2
      simp only [Char.reduceToNat] at this
      omega
    rw [Nat.ofDigitChars_cons, List.length_cons, Nat.pow_succ', ← Nat.mul_assoc]
    refine Nat.lt_of_lt_of_le (ih hdigits _) (Nat.mul_le_mul_right _ ?_)
    simp only [Char.reduceToNat]
    omega

theorem natOfDigits_lt (h : ∀ c ∈ digits, c.isDigit = true) :
    natOfDigits digits < 10 ^ digits.length := by
  have hlt := ofDigitChars_lt h 0
  rwa [Nat.zero_add, Nat.one_mul] at hlt

end CatalogGuard.Number
