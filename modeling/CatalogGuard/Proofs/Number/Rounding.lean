import CatalogGuard.Proofs.Number.Bits
import CatalogGuard.Proofs.Number.Digits
import Mathlib.Algebra.Order.Field.Power
import Mathlib.Data.Rat.Cast.Order
import Mathlib.Tactic.FieldSimp
import Mathlib.Tactic.Linarith
import Mathlib.Tactic.Positivity
import Mathlib.Tactic.Ring

/-!
# The nearest double

Which rationals round to a double is settled here: those that are nearer to it than to its
neighbours, and those halfway if its integer part is even.  Below a power of two the doubles lie
twice as close, so that the rationals that round to it reach only half as far down.

The reader finds a power of two for which the quotient has 53 bits.  For a rational just below a
power of two that is not the one of the double it rounds to; the rounded integer is `2 ^ 53` then,
and carries into the exponent.

## Main definitions

* `Unpacked.value` — the absolute value of a double as a rational
* `Unpacked.Attracts` — the rationals that round to it

## Main results

* `ofRatio_eq` — a quotient is read as the double it rounds to
* `ofDecimal_eq` — and so is a decimal number
-/

namespace CatalogGuard.Number.Binary64

variable {num den n d m : Nat} {q : Int} {u : Unpacked} {r : ℚ}

/-- The absolute value of a double. -/
def Unpacked.value (u : Unpacked) : ℚ := u.mantissa * 2 ^ u.exponent

/-- How far down the rationals reach that round to a double, in units of its last place. -/
def Unpacked.below (u : Unpacked) : ℚ :=
  if u.mantissa = 2 ^ 52 ∧ -1074 < u.exponent then 1 / 4 else 1 / 2

/-- A rational rounds to a double.  It is given in units of the last place of the double. -/
structure Unpacked.Attracts (u : Unpacked) (r : ℚ) : Prop where
  /-- It is not too small. -/
  low : u.mantissa - u.below ≤ r
  /-- It is not too great. -/
  high : r ≤ u.mantissa + 1 / 2
  /-- Halfway between two doubles the even one is taken. -/
  tie : r = u.mantissa - u.below ∨ r = u.mantissa + 1 / 2 → u.mantissa % 2 = 0

/-! ### Rounded quotients -/

/-- The nearest integer to a quotient, over the denominator. -/
theorem roundedQuotient_eq_of_le (hd : 0 < d) (hlow : 2 * (m * d) ≤ 2 * n + d)
    (hhigh : 2 * n ≤ 2 * (m * d) + d)
    (htie : 2 * n + d = 2 * (m * d) ∨ 2 * n = 2 * (m * d) + d → m % 2 = 0) :
    roundedQuotient n d = m := by
  have hdiv := Nat.div_add_mod' n d
  have hmod := Nat.mod_lt n hd
  rw [roundedQuotient]
  generalize n / d = quotient at *
  generalize n % d = rest at *
  rcases Nat.lt_or_ge quotient m with hlt | hge
  · -- rounded up: the quotient is one less
    obtain ⟨k, rfl⟩ := Nat.exists_eq_add_of_lt hlt
    have hk : k * d = 0 := by
      rcases k with _ | k
      · exact Nat.zero_mul d
      · have : d ≤ (k + 1) * d := Nat.le_mul_of_pos_left d k.succ_pos
        have : (quotient + (k + 1) + 1) * d = quotient * d + (k + 1) * d + d := by ring
        omega
    obtain rfl : k = 0 := by
      rcases Nat.mul_eq_zero.mp hk with h | h
      · exact h
      · omega
    have hnext : (quotient + 0 + 1) * d = quotient * d + d := by ring
    rw [hnext] at hlow hhigh htie
    rw [if_pos]
    by_cases heq : 2 * rest = d
    · have := htie (Or.inl (by omega))
      exact Or.inr ⟨heq, by omega⟩
    · exact Or.inl (by omega)
  · -- rounded down: the quotient is the one
    obtain ⟨k, rfl⟩ := Nat.exists_eq_add_of_le hge
    have hk : k * d = 0 := by
      rcases k with _ | k
      · exact Nat.zero_mul d
      · have : d ≤ (k + 1) * d := Nat.le_mul_of_pos_left d k.succ_pos
        have : (m + (k + 1)) * d = m * d + (k + 1) * d := by ring
        omega
    obtain rfl : k = 0 := by
      rcases Nat.mul_eq_zero.mp hk with h | h
      · exact h
      · omega
    rw [Nat.add_zero] at hdiv ⊢
    rw [if_neg]
    rintro (hup | ⟨heq, hodd⟩)
    · omega
    · have := htie (Or.inr (by omega))
      omega

/-- The nearest integer to a quotient. -/
theorem roundedQuotient_eq (hd : 0 < d) (hlow : (m : ℚ) - 1 / 2 ≤ n / d)
    (hhigh : (n : ℚ) / d ≤ m + 1 / 2)
    (htie : (n : ℚ) / d = m - 1 / 2 ∨ (n : ℚ) / d = m + 1 / 2 → m % 2 = 0) :
    roundedQuotient n d = m := by
  have hd' : (0 : ℚ) < d := by exact_mod_cast hd
  rw [le_div_iff₀ hd'] at hlow
  rw [div_le_iff₀ hd'] at hhigh
  rw [div_eq_iff hd'.ne', div_eq_iff hd'.ne'] at htie
  refine roundedQuotient_eq_of_le hd ?_ ?_ fun h => htie ?_
  · have : (2 * (m * d) : ℚ) ≤ 2 * n + d := by linarith
    exact_mod_cast this
  · have : (2 * n : ℚ) ≤ 2 * (m * d) + d := by linarith
    exact_mod_cast this
  · refine h.imp (fun h => ?_) fun h => ?_
    · have : (2 * n + d : ℚ) = 2 * (m * d) := by exact_mod_cast h
      linarith
    · have : (2 * n : ℚ) = 2 * (m * d) + d := by exact_mod_cast h
      linarith

/-! ### The choice of the power of two -/

/-- A power as a quotient of powers with natural exponents. -/
theorem pow_toNat_div (base : ℚ) (hbase : base ≠ 0) (e : Int) :
    base ^ e.toNat / base ^ (-e).toNat = base ^ e := by
  rw [← zpow_natCast, ← zpow_natCast, ← zpow_sub₀ hbase]
  congr 1
  omega

/-- Scaling divides by the power of two. -/
theorem scaled_spec (num : Nat) (hden : 0 < den) (q : Int) :
    0 < (scaled num den q).2 ∧
      ((scaled num den q).1 : ℚ) / (scaled num den q).2 = num / den / 2 ^ q := by
  simp only [scaled, Nat.pow_eq]
  refine ⟨by positivity, ?_⟩
  rw [← pow_toNat_div 2 two_ne_zero]
  push_cast
  field_simp

/-- A power of two for which a quotient has 53 bits, or one bit more. -/
def guessFor (num den : Nat) : Int := max ((num.log2 : Int) - den.log2 - 53) (-1074)

/-- The power of two that the reader settles for. -/
def exponentFor (num den : Nat) : Int :=
  let guess := guessFor num den
  if Nat.pow 2 53 ≤ (scaled num den guess).1 / (scaled num den guess).2 then guess + 1 else guess

theorem ofRatio_of_pos (hnum : 0 < num) (negative : Bool) : ofRatio negative num den =
    ofPattern negative ((exponentFor num den + 1074).toNat * Nat.pow 2 52 +
      roundedQuotient (scaled num den (exponentFor num den)).1
        (scaled num den (exponentFor num den)).2) := by
  rw [ofRatio, if_neg (Nat.ne_of_gt hnum)]
  rfl

/-- A quotient lies between powers of two next to the quotient of the leading ones. -/
theorem quotient_bounds (hnum : 0 < num) (hden : 0 < den) :
    (2 : ℚ) ^ ((num.log2 : Int) - den.log2 - 1) ≤ num / den ∧
      (num : ℚ) / den < 2 ^ ((num.log2 : Int) - den.log2 + 1) := by
  have hden' : (0 : ℚ) < den := by exact_mod_cast hden
  have hnum_ge : (2 : ℚ) ^ num.log2 ≤ num := by exact_mod_cast Nat.log2_self_le hnum.ne'
  have hnum_lt : (num : ℚ) < 2 ^ (num.log2 + 1) := by exact_mod_cast Nat.lt_log2_self
  have hden_ge : (2 : ℚ) ^ den.log2 ≤ den := by exact_mod_cast Nat.log2_self_le hden.ne'
  have hden_lt : (den : ℚ) < 2 ^ (den.log2 + 1) := by exact_mod_cast Nat.lt_log2_self
  rw [le_div_iff₀ hden', div_lt_iff₀ hden']
  constructor
  · calc (2 : ℚ) ^ ((num.log2 : Int) - den.log2 - 1) * den
        ≤ 2 ^ ((num.log2 : Int) - den.log2 - 1) * 2 ^ (den.log2 + 1) := by gcongr
      _ = 2 ^ num.log2 := by
        rw [← zpow_natCast, ← zpow_natCast, ← zpow_add₀ two_ne_zero]
        congr 1
        push_cast
        ring
      _ ≤ num := hnum_ge
  · calc (num : ℚ) < 2 ^ (num.log2 + 1) := hnum_lt
      _ = 2 ^ ((num.log2 : Int) - den.log2 + 1) * 2 ^ den.log2 := by
        rw [← zpow_natCast, ← zpow_natCast, ← zpow_add₀ two_ne_zero]
        congr 1
        push_cast
        ring
      _ ≤ 2 ^ ((num.log2 : Int) - den.log2 + 1) * den := by gcongr

theorem le_div_two_zpow {low g : Int} {k : Nat} (h : (2 : ℚ) ^ low ≤ r) (hk : k ≤ low - g) :
    2 ^ k ≤ r / 2 ^ g := by
  have hg : (0 : ℚ) < 2 ^ g := by positivity
  rw [le_div_iff₀ hg, ← zpow_natCast, ← zpow_add₀ two_ne_zero]
  exact (zpow_le_zpow_right₀ one_le_two (by omega)).trans h

theorem div_two_zpow_lt {high g : Int} {k : Nat} (h : r < 2 ^ high) (hk : high - g ≤ k) :
    r / 2 ^ g < 2 ^ k := by
  have hg : (0 : ℚ) < 2 ^ g := by positivity
  rw [div_lt_iff₀ hg, ← zpow_natCast, ← zpow_add₀ two_ne_zero]
  exact h.trans_le (zpow_le_zpow_right₀ one_le_two (by omega))

theorem guessFor_spec (hnum : 0 < num) (hden : 0 < den) :
    -1074 ≤ guessFor num den ∧ (num : ℚ) / den / 2 ^ guessFor num den < 2 ^ 54 ∧
      ((guessFor num den = -1074 ∧ (num : ℚ) / den / 2 ^ guessFor num den < 2 ^ 53) ∨
        2 ^ 52 ≤ (num : ℚ) / den / 2 ^ guessFor num den) := by
  obtain ⟨hlow, hhigh⟩ := quotient_bounds hnum hden
  have hle : (num.log2 : Int) - den.log2 - 53 ≤ guessFor num den := Int.le_max_left _ _
  have hge : -1074 ≤ guessFor num den := Int.le_max_right _ _
  refine ⟨hge, div_two_zpow_lt hhigh (by omega), ?_⟩
  rcases le_or_gt (-1074) ((num.log2 : Int) - den.log2 - 53) with h | h
  · have heq : guessFor num den = (num.log2 : Int) - den.log2 - 53 := Int.max_eq_left h
    exact Or.inr (le_div_two_zpow hlow (by omega))
  · have heq : guessFor num den = -1074 := Int.max_eq_right (Int.le_of_lt h)
    exact Or.inl ⟨heq, div_two_zpow_lt hhigh (by omega)⟩

/-- **The power of two that is settled for** leaves an integer of at most 53 bits, and of no fewer
unless it is the smallest one. -/
theorem exponentFor_spec (hnum : 0 < num) (hden : 0 < den) :
    -1074 ≤ exponentFor num den ∧ (num : ℚ) / den / 2 ^ exponentFor num den < 2 ^ 53 ∧
      (exponentFor num den = -1074 ∨ 2 ^ 52 ≤ (num : ℚ) / den / 2 ^ exponentFor num den) := by
  obtain ⟨hge, hlt, hnormal⟩ := guessFor_spec hnum hden
  obtain ⟨hpos, hscaled⟩ := scaled_spec num hden (guessFor num den)
  have hpos' : (0 : ℚ) < (scaled num den (guessFor num den)).2 := by exact_mod_cast hpos
  have htest : Nat.pow 2 53 ≤ (scaled num den (guessFor num den)).1 /
      (scaled num den (guessFor num den)).2 ↔
        (2 : ℚ) ^ 53 ≤ num / den / 2 ^ guessFor num den := by
    rw [Nat.pow_eq, Nat.le_div_iff_mul_le hpos, ← hscaled, le_div_iff₀ hpos']
    exact_mod_cast Iff.rfl
  rw [exponentFor]
  split
  · next hbig =>
    have hbig := htest.mp hbig
    have hhalf : (num : ℚ) / den / 2 ^ (guessFor num den + 1) =
        num / den / 2 ^ guessFor num den / 2 := by
      rw [zpow_add_one₀ two_ne_zero, div_mul_eq_div_div]
    rw [hhalf]
    refine ⟨by omega, by linarith, Or.inr (by linarith)⟩
  · next hsmall =>
    have hsmall := not_le.mp (htest.not.mp hsmall)
    exact ⟨hge, hsmall, hnormal.imp And.left id⟩

/-! ### Reading quotients -/

theorem Unpacked.below_le (u : Unpacked) : u.below ≤ 1 / 2 := by
  rw [below]
  split <;> norm_num

theorem div_two_zpow_add (r : ℚ) (q : Int) (k : Nat) : r / 2 ^ q = r / 2 ^ (q + k) * 2 ^ k := by
  rw [zpow_add₀ two_ne_zero, zpow_natCast]
  field_simp

theorem two_le_two_pow_succ (k : Nat) : (2 : ℚ) ≤ 2 ^ (k + 1) := by
  have hone : (1 : ℚ) ≤ 2 ^ k := one_le_pow₀ one_le_two
  rw [pow_succ]
  linarith

/-- For a power of two greater than that of the double, the integer of the double would have more
than 53 bits. -/
theorem le_exponent_of_attracts (hu : u.Canonical) (hnormal : q = -1074 ∨ 2 ^ 52 ≤ r / 2 ^ q)
    (h : u.Attracts (r / 2 ^ u.exponent)) : q ≤ u.exponent := by
  by_contra hgt
  have hle := hu.le_exponent
  have hhigh := h.high
  obtain ⟨k, hk⟩ := Int.eq_ofNat_of_zero_le (show 0 ≤ q - u.exponent - 1 by omega)
  have hexponent : u.exponent + ((k + 1 : Nat) : Int) = q := by omega
  have hunits := div_two_zpow_add r u.exponent (k + 1)
  rw [hexponent] at hunits
  have hge : (2 : ℚ) ^ 52 ≤ r / 2 ^ q := hnormal.resolve_left (by omega)
  have hmantissa : (u.mantissa : ℚ) + 1 ≤ 2 ^ 53 := by exact_mod_cast hu.mantissa_lt
  have htwice : (2 : ℚ) ^ 52 * 2 ≤ r / 2 ^ q * 2 ^ (k + 1) := by
    gcongr
    exact two_le_two_pow_succ k
  linarith

/-- For a smaller power of two, the integer of the double can only be the least one of 53 bits: a
greater one would have more bits for that power, and so would this one for a still smaller power. -/
theorem least_of_lt_exponent (hu : u.Canonical) (hq : -1074 ≤ q) (hlt : r / 2 ^ q < 2 ^ 53)
    (h : u.Attracts (r / 2 ^ u.exponent)) (hless : q < u.exponent) :
    q = u.exponent - 1 ∧ u.mantissa = 2 ^ 52 ∧ 2 ^ 53 - 1 / 2 ≤ r / 2 ^ q := by
  have hbelow := u.below_le
  have hlow := h.low
  obtain ⟨k, hk⟩ := Int.eq_ofNat_of_zero_le (show 0 ≤ u.exponent - q - 1 by omega)
  have hexponent : q + ((k + 1 : Nat) : Int) = u.exponent := by omega
  have hunits := div_two_zpow_add r q (k + 1)
  rw [hexponent] at hunits
  have hmantissa : 2 ^ 52 ≤ u.mantissa := hu.normal.resolve_left (by omega)
  have hmantissa' : (2 : ℚ) ^ 52 ≤ u.mantissa := by exact_mod_cast hmantissa
  have hpos : 0 ≤ r / 2 ^ u.exponent := by linarith
  have htwice : r / 2 ^ u.exponent * 2 ≤ r / 2 ^ u.exponent * 2 ^ (k + 1) :=
    mul_le_mul_of_nonneg_left (two_le_two_pow_succ k) hpos
  have hleast : u.mantissa = 2 ^ 52 := by
    by_contra hne
    have hmore : 2 ^ 52 + 1 ≤ u.mantissa := by omega
    have hmore' : (2 : ℚ) ^ 52 + 1 ≤ u.mantissa := by exact_mod_cast hmore
    linarith
  have hquarter : u.below = 1 / 4 := if_pos ⟨hleast, by omega⟩
  obtain rfl : k = 0 := by
    by_contra hne
    have hfour : (2 : ℚ) * 2 ≤ 2 ^ (k + 1) := by
      rw [pow_succ, ← Nat.sub_one_add_one hne]
      exact mul_le_mul_of_nonneg_right (two_le_two_pow_succ (k - 1)) zero_le_two
    have := mul_le_mul_of_nonneg_left hfour hpos
    linarith
  rw [hleast, hquarter] at hlow
  push_cast at hlow
  exact ⟨by omega, hleast, by linarith⟩

/-- A rational that rounds to a double has 53 bits for the power of two of the double; or it lies
just below a power of two, and has them for the next smaller one. -/
theorem exponent_cases (hu : u.Canonical) (hq : -1074 ≤ q) (hlt : r / 2 ^ q < 2 ^ 53)
    (hnormal : q = -1074 ∨ 2 ^ 52 ≤ r / 2 ^ q) (h : u.Attracts (r / 2 ^ u.exponent)) :
    q = u.exponent ∨ q = u.exponent - 1 ∧ u.mantissa = 2 ^ 52 ∧ 2 ^ 53 - 1 / 2 ≤ r / 2 ^ q := by
  rcases (le_exponent_of_attracts hu hnormal h).lt_or_eq with hless | heq
  · exact Or.inr (least_of_lt_exponent hu hq hlt h hless)
  · exact Or.inl heq

/-- **A quotient is read as the double it rounds to.** -/
theorem ofRatio_eq (hu : u.Canonical) (hnum : 0 < num) (hden : 0 < den)
    (h : u.Attracts (num / den / 2 ^ u.exponent)) (negative : Bool) :
    ofRatio negative num den = ofPattern negative u.pattern := by
  obtain ⟨hq, hlt, hnormal⟩ := exponentFor_spec hnum hden
  obtain ⟨hpos, hscaled⟩ := scaled_spec num hden (exponentFor num den)
  rw [ofRatio_of_pos hnum, Unpacked.pattern, Nat.pow_eq]
  refine congrArg (ofPattern negative) ?_
  rcases exponent_cases hu hq hlt hnormal h with heq | ⟨heq, hmantissa, hge⟩
  · have hround : roundedQuotient (scaled num den (exponentFor num den)).1
        (scaled num den (exponentFor num den)).2 = u.mantissa := by
      have hbelow := u.below_le
      have hattracts := h
      rw [← heq, ← hscaled] at hattracts
      refine roundedQuotient_eq hpos (by linarith [hattracts.low]) hattracts.high fun htie => ?_
      refine hattracts.tie (htie.imp_left fun hlow => ?_)
      linarith [hattracts.low]
    rw [hround, heq]
  · have hround : roundedQuotient (scaled num den (exponentFor num den)).1
        (scaled num den (exponentFor num den)).2 = 2 ^ 53 := by
      rw [← hscaled] at hlt hge
      refine roundedQuotient_eq hpos ?_ ?_ fun _ => rfl
      · push_cast
        linarith
      · push_cast
        linarith
    rw [hround, heq, hmantissa]
    omega

/-! ### Reading decimals -/

/-- What rounds to a double is within its range. -/
theorem Unpacked.Attracts.bounds (hu : u.Canonical) (hm : 0 < u.mantissa)
    (h : u.Attracts (r / 2 ^ u.exponent)) : (2 : ℚ) ^ (-1075 : Int) ≤ r ∧ r ≤ 2 ^ (1024 : Int) := by
  have hpos : (0 : ℚ) < 2 ^ u.exponent := by positivity
  have hmantissa : (1 : ℚ) ≤ u.mantissa := by exact_mod_cast hm
  have hmantissa' : (u.mantissa : ℚ) + 1 ≤ 2 ^ 53 := by exact_mod_cast hu.mantissa_lt
  have hlow : (1 : ℚ) / 2 ≤ r / 2 ^ u.exponent := by linarith [h.low, u.below_le]
  have hhigh : r / 2 ^ u.exponent ≤ 2 ^ 53 := by linarith [h.high]
  rw [le_div_iff₀ hpos] at hlow
  rw [div_le_iff₀ hpos] at hhigh
  constructor
  · calc (2 : ℚ) ^ (-1075 : Int) ≤ 2 ^ (u.exponent - 1) :=
          zpow_le_zpow_right₀ one_le_two (by linarith [hu.le_exponent])
      _ = 2 ^ u.exponent * 2⁻¹ := zpow_sub_one₀ two_ne_zero _
      _ ≤ r := by linarith
  · calc r ≤ 2 ^ u.exponent * 2 ^ 53 := by linarith
      _ = 2 ^ (u.exponent + 53) := by
        rw [zpow_add₀ two_ne_zero]
        norm_num
      _ ≤ 2 ^ (1024 : Int) := zpow_le_zpow_right₀ one_le_two (by linarith [hu.exponent_le])

/-- The size of a decimal number by the place of its leading digit. -/
theorem decimal_bounds {digits : Nat} (hdigits : 0 < digits) (exponent : Int) :
    (10 : ℚ) ^ ((Nat.toDigits 10 digits).length - 1 + exponent) ≤ digits * 10 ^ exponent ∧
      (digits : ℚ) * 10 ^ exponent < 10 ^ ((Nat.toDigits 10 digits).length + exponent) := by
  have hpos : 0 < (Nat.toDigits 10 digits).length := Nat.length_toDigits_pos
  have hlow : (10 : ℚ) ^ ((Nat.toDigits 10 digits).length - 1) ≤ digits := by
    exact_mod_cast pow_le_of_toDigits hdigits
  have hhigh : (digits : ℚ) < 10 ^ (Nat.toDigits 10 digits).length := by
    exact_mod_cast lt_pow_toDigits digits
  rw [zpow_add₀ (by norm_num), zpow_add₀ (by norm_num), ← Int.natCast_pred_of_pos hpos,
    zpow_natCast, zpow_natCast]
  constructor <;> gcongr

theorem two_zpow_le_ten_zpow (k : Nat) : (2 : ℚ) ^ (3 * (k : Int)) ≤ 10 ^ (k : Int) := by
  rw [zpow_mul, zpow_natCast, zpow_natCast]
  gcongr
  norm_num

/-- The place of the leading digit of a decimal number that is within the range of doubles. -/
theorem places_bounds {places : Int} (hlow : (2 : ℚ) ^ (-1075 : Int) ≤ r)
    (hhigh : r ≤ 2 ^ (1024 : Int)) (hr : 10 ^ (places - 1) ≤ r) (hr' : r < 10 ^ places) :
    -400 ≤ places ∧ places ≤ 400 := by
  constructor
  · by_contra hlt
    have hplaces : (10 : ℚ) ^ places ≤ 10 ^ (-((400 : Nat) : Int)) :=
      zpow_le_zpow_right₀ (by norm_num) (by omega)
    have hsmall : (10 : ℚ) ^ (-((400 : Nat) : Int)) ≤ 2 ^ (-(3 * ((400 : Nat) : Int))) := by
      rw [zpow_neg, zpow_neg]
      exact inv_anti₀ (by positivity) (two_zpow_le_ten_zpow 400)
    have hleast : (2 : ℚ) ^ (-(3 * ((400 : Nat) : Int))) < 2 ^ (-1075 : Int) :=
      zpow_lt_zpow_right₀ one_lt_two (by norm_num)
    exact absurd (hr'.trans_le (hplaces.trans (hsmall.trans (hleast.le.trans hlow)))) (lt_irrefl r)
  · by_contra hlt
    have hplaces : (10 : ℚ) ^ ((400 : Nat) : Int) ≤ 10 ^ (places - 1) :=
      zpow_le_zpow_right₀ (by norm_num) (by omega)
    have hgreat : (2 : ℚ) ^ (3 * ((400 : Nat) : Int)) ≤ 10 ^ ((400 : Nat) : Int) :=
      two_zpow_le_ten_zpow 400
    have hgreatest : (2 : ℚ) ^ (1024 : Int) < 2 ^ (3 * ((400 : Nat) : Int)) :=
      zpow_lt_zpow_right₀ one_lt_two (by norm_num)
    exact absurd (hgreatest.trans_le (hgreat.trans (hplaces.trans (hr.trans hhigh)))) (lt_irrefl _)

/-- **A decimal number is read as the double it rounds to.** -/
theorem ofDecimal_eq (hu : u.Canonical) (hm : 0 < u.mantissa) {digits : Nat} {exponent : Int}
    (hdigits : 0 < digits) (h : u.Attracts (digits * 10 ^ exponent / 2 ^ u.exponent))
    (negative : Bool) : ofDecimal negative digits exponent = ofPattern negative u.pattern := by
  obtain ⟨hlow, hhigh⟩ := h.bounds hu hm
  obtain ⟨hr, hr'⟩ := decimal_bounds hdigits exponent
  have hplace : ((Nat.toDigits 10 digits).length : Int) - 1 + exponent =
      (Nat.toDigits 10 digits).length + exponent - 1 := by ring
  rw [hplace] at hr
  obtain ⟨hge, hle⟩ := places_bounds hlow hhigh hr hr'
  have hquotient : ((digits * 10 ^ exponent.toNat : Nat) : ℚ) / (10 ^ (-exponent).toNat : Nat) =
      digits * 10 ^ exponent := by
    rw [← pow_toNat_div 10 (by norm_num)]
    push_cast
    ring
  rw [ofDecimal, if_neg hdigits.ne', if_neg (by omega), if_neg (by omega), Nat.pow_eq, Nat.pow_eq]
  refine ofRatio_eq hu (by positivity) (by positivity) ?_ negative
  rwa [hquotient]

end CatalogGuard.Number.Binary64
