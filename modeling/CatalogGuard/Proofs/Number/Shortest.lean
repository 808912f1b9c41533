import CatalogGuard.Proofs.Number.Rounding

/-!
# Shortest digits read back

The digits that a double is written with round to it.  That they are as few as possible does not
matter for this; what matters is that the search for them ends.  With seventeen digits the grid is
finer than the doubles are, so that one of the two grid points around a double is nearer to it than
half of the way to the next double.

## Main results

* `Shortest.attracts_of_holds`, `Shortest.holds_of_lt` — the interval that is searched is that of
  the rationals that round to the double
* `Shortest.attracts_decimal` — the digits that are found round to the double
-/

namespace CatalogGuard.Number.Shortest

open Binary64 (Unpacked pow_toNat_div)

variable {u : Unpacked} {tie : Tie} {num den d n : Nat} {s : Int} {found : Decimal}

/-! ### Leading digits -/

theorem lt_pow_countDigits (n : Nat) : n < 10 ^ countDigits n := by
  rw [countDigits]
  split
  · next hzero =>
    rw [hzero]
    decide
  · exact lt_pow_toDigits n

theorem pow_le_of_countDigits (h : 0 < n) : 10 ^ (countDigits n - 1) ≤ n := by
  rw [countDigits, if_neg h.ne']
  exact pow_le_of_toDigits h

/-- A quotient is no smaller than the unit of its leading digit. -/
theorem leadingExponent_le (hnum : 0 < num) (hden : 0 < den) :
    (10 : ℚ) ^ leadingExponent num den ≤ num / den := by
  have hnum' : (0 : ℚ) < num := by exact_mod_cast hnum
  have hden' : (0 : ℚ) < den := by exact_mod_cast hden
  rw [leadingExponent]
  split
  · next hle =>
    have hpos : 0 < num / den := Nat.div_pos hle hden
    have hcount : 0 < countDigits (num / den) := by
      rw [countDigits, if_neg hpos.ne']
      exact Nat.length_toDigits_pos
    rw [← Int.natCast_pred_of_pos hcount, zpow_natCast, le_div_iff₀ hden']
    have hle := (Nat.mul_le_mul_right den (pow_le_of_countDigits hpos)).trans
      (Nat.div_mul_le_self num den)
    exact_mod_cast hle
  · next hlt =>
    have hceil : den ≤ num * 10 ^ countDigits ((den + num - 1) / num - 1) := by
      have hlt := lt_pow_countDigits ((den + num - 1) / num - 1)
      have hdiv := Nat.lt_mul_div_succ (den + num - 1) hnum
      have : (den + num - 1) / num ≤ 10 ^ countDigits ((den + num - 1) / num - 1) := by omega
      have := Nat.mul_le_mul_left num this
      have hsucc : num * ((den + num - 1) / num + 1) = num * ((den + num - 1) / num) + num :=
        Nat.mul_succ _ _
      omega
    rw [zpow_neg, zpow_natCast, inv_le_comm₀ (by positivity) (by positivity), inv_div,
      div_le_iff₀ hnum', mul_comm]
    exact_mod_cast hceil

/-! ### The interval -/

theorem around_unit (u : Unpacked) : ((Nat.pow 2 (u.exponent - 2).toNat : Nat) : ℚ) =
    2 ^ u.exponent / 4 * (Interval.around u).den := by
  have hden : (0 : ℚ) < 2 ^ (-(u.exponent - 2)).toNat := by positivity
  have hunit := pow_toNat_div 2 two_ne_zero (u.exponent - 2)
  have hfour : (2 : ℚ) ^ (u.exponent - 2) = 2 ^ u.exponent / 4 := by
    rw [zpow_sub₀ two_ne_zero]
    norm_num
  rw [div_eq_iff hden.ne', hfour] at hunit
  show ((Nat.pow 2 (u.exponent - 2).toNat : Nat) : ℚ) =
    2 ^ u.exponent / 4 * (Nat.pow 2 (2 - u.exponent).toNat : Nat)
  rw [Nat.pow_eq, Nat.pow_eq, ← Int.neg_sub u.exponent 2]
  push_cast
  exact hunit

theorem around_low (hm : 0 < u.mantissa) : ((Interval.around u).low : ℚ) =
    (u.mantissa - u.below) * (2 ^ u.exponent * (Interval.around u).den) := by
  have hcast : (((4 * u.mantissa - if u.mantissa = Nat.pow 2 52 ∧ -1074 < u.exponent then 1 else 2 :
      Nat) : Nat) : ℚ) = 4 * (u.mantissa - u.below) := by
    rw [Nat.cast_sub (by split <;> omega), Unpacked.below, Nat.pow_eq]
    split <;> push_cast <;> ring
  show (((4 * u.mantissa - if u.mantissa = Nat.pow 2 52 ∧ -1074 < u.exponent then 1 else 2) *
    Nat.pow 2 (u.exponent - 2).toNat : Nat) : ℚ) = _
  rw [Nat.cast_mul, hcast, around_unit]
  ring

theorem around_high (u : Unpacked) : ((Interval.around u).high : ℚ) =
    (u.mantissa + 1 / 2) * (2 ^ u.exponent * (Interval.around u).den) := by
  show (((4 * u.mantissa + 2) * Nat.pow 2 (u.exponent - 2).toNat : Nat) : ℚ) = _
  rw [Nat.cast_mul, around_unit]
  push_cast
  ring

theorem around_value (u : Unpacked) : ((Interval.around u).value : ℚ) =
    u.value * (Interval.around u).den := by
  show ((4 * u.mantissa * Nat.pow 2 (u.exponent - 2).toNat : Nat) : ℚ) = _
  rw [Nat.cast_mul, around_unit, Unpacked.value]
  push_cast
  ring

theorem around_den_pos (u : Unpacked) : 0 < (Interval.around u).den := Nat.two_pow_pos _

/-- A point of a grid in units of the last place of a double. -/
def inUnits (u : Unpacked) (d : Nat) (s : Int) : ℚ := d * 10 ^ s / 2 ^ u.exponent

/-- What the search compares are the ends of the interval and the point, over a common scale. -/
theorem exists_scale (hm : 0 < u.mantissa) (d : Nat) (s : Int) :
    ∃ scale : ℚ, 0 < scale ∧
      (((Interval.around u).low * Nat.pow 10 (-s).toNat : Nat) : ℚ) =
        (u.mantissa - u.below) * scale ∧
      (((Interval.around u).high * Nat.pow 10 (-s).toNat : Nat) : ℚ) =
        (u.mantissa + 1 / 2) * scale ∧
      ((d * Nat.pow 10 s.toNat * (Interval.around u).den : Nat) : ℚ) = inUnits u d s * scale := by
  have hden : (0 : ℚ) < (Interval.around u).den := by exact_mod_cast around_den_pos u
  refine ⟨2 ^ u.exponent * (Interval.around u).den * 10 ^ (-s).toNat, by positivity, ?_, ?_, ?_⟩
  · rw [Nat.cast_mul, around_low hm, Nat.pow_eq]
    push_cast
    ring
  · rw [Nat.cast_mul, around_high, Nat.pow_eq]
    push_cast
    ring
  · rw [inUnits, ← pow_toNat_div 10 (by norm_num) s, Nat.pow_eq]
    push_cast
    field_simp

theorem attracts_of_holds (hm : 0 < u.mantissa) (h : (Interval.around u).holds d s = true) :
    u.Attracts (inUnits u d s) := by
  obtain ⟨scale, hpos, hlow, hhigh, hpoint⟩ := exists_scale hm d s
  rw [Interval.holds] at h
  split at h
  · next hclosed =>
    obtain ⟨hle, hge⟩ := Bool.and_eq_true_iff.mp h
    have hle : (_ : ℚ) ≤ _ := Nat.cast_le.mpr (of_decide_eq_true hle)
    have hge : (_ : ℚ) ≤ _ := Nat.cast_le.mpr (of_decide_eq_true hge)
    rw [hlow, hpoint] at hle
    rw [hhigh, hpoint] at hge
    exact ⟨le_of_mul_le_mul_right hle hpos, le_of_mul_le_mul_right hge hpos,
      fun _ => of_decide_eq_true hclosed⟩
  · obtain ⟨hlt, hgt⟩ := Bool.and_eq_true_iff.mp h
    have hlt : (_ : ℚ) < _ := Nat.cast_lt.mpr (of_decide_eq_true hlt)
    have hgt : (_ : ℚ) < _ := Nat.cast_lt.mpr (of_decide_eq_true hgt)
    rw [hlow, hpoint] at hlt
    rw [hhigh, hpoint] at hgt
    have hlt := lt_of_mul_lt_mul_right hlt hpos.le
    have hgt := lt_of_mul_lt_mul_right hgt hpos.le
    exact ⟨hlt.le, hgt.le, fun htie => absurd htie (by rintro (heq | heq) <;> linarith)⟩

theorem holds_of_lt (hm : 0 < u.mantissa) (hlt : u.mantissa - u.below < inUnits u d s)
    (hgt : inUnits u d s < u.mantissa + 1 / 2) : (Interval.around u).holds d s = true := by
  obtain ⟨scale, hpos, hlow, hhigh, hpoint⟩ := exists_scale hm d s
  have hlt := mul_lt_mul_of_pos_right hlt hpos
  have hgt := mul_lt_mul_of_pos_right hgt hpos
  rw [← hlow, ← hpoint, Nat.cast_lt] at hlt
  rw [← hhigh, ← hpoint, Nat.cast_lt] at hgt
  rw [Interval.holds]
  split
  · exact Bool.and_eq_true_iff.mpr ⟨decide_eq_true hlt.le, decide_eq_true hgt.le⟩
  · exact Bool.and_eq_true_iff.mpr ⟨decide_eq_true hlt, decide_eq_true hgt⟩

/-! ### The search -/

/-- What is found on a grid lies in the interval. -/
theorem holds_of_onGrid {i : Interval} (h : onGrid tie i s = some found) :
    i.holds found.digits found.exponent = true := by
  rw [onGrid.eq_def] at h
  dsimp only at h
  split at h
  · next hd hd' =>
    split at h
    · obtain rfl := Option.some.inj h
      exact hd
    · split at h
      · obtain rfl := Option.some.inj h
        exact hd'
      · cases tie with
        | up =>
          obtain rfl := Option.some.inj h
          exact hd'
        | toEven =>
          dsimp only at h
          split at h
          · obtain rfl := Option.some.inj h
            exact hd
          · obtain rfl := Option.some.inj h
            exact hd'
  · next hd _ =>
    obtain rfl := Option.some.inj h
    exact hd
  · next _ hd' =>
    obtain rfl := Option.some.inj h
    exact hd'
  · cases h

/-- Something is found on a grid if one of the two points around the value is in the interval. -/
theorem onGrid_isSome {i : Interval}
    (h : i.holds (i.value * Nat.pow 10 (-s).toNat / (i.den * Nat.pow 10 s.toNat)) s = true ∨
      i.holds (i.value * Nat.pow 10 (-s).toNat / (i.den * Nat.pow 10 s.toNat) + 1) s = true) :
    (onGrid tie i s).isSome = true := by
  rw [onGrid.eq_def]
  dsimp only
  split
  · split
    · rfl
    · split
      · rfl
      · cases tie with
        | up => rfl
        | toEven =>
          dsimp only
          split <;> rfl
  · rfl
  · rfl
  · next hd hd' =>
    rw [hd, hd'] at h
    exact absurd h (by simp)

theorem inUnits_succ (u : Unpacked) (d : Nat) (s : Int) :
    inUnits u (d + 1) s = inUnits u d s + 10 ^ s / 2 ^ u.exponent := by
  rw [inUnits, inUnits]
  push_cast
  ring

/-- The two grid points around a double. -/
theorem inUnits_around (u : Unpacked) (s : Int)
    (hd : d = (Interval.around u).value * Nat.pow 10 (-s).toNat /
      ((Interval.around u).den * Nat.pow 10 s.toNat)) :
    inUnits u d s ≤ u.mantissa ∧ u.mantissa < inUnits u (d + 1) s := by
  have hden : (0 : ℚ) < (Interval.around u).den := by exact_mod_cast around_den_pos u
  have hpos : 0 < (Interval.around u).den * 10 ^ s.toNat :=
    Nat.mul_pos (around_den_pos u) (by positivity)
  have hgrid : u.mantissa * (2 : ℚ) ^ u.exponent / 10 ^ s =
      ((Interval.around u).value * 10 ^ (-s).toNat : Nat) /
        ((Interval.around u).den * 10 ^ s.toNat : Nat) := by
    rw [← pow_toNat_div 10 (by norm_num) s]
    push_cast
    rw [around_value, Unpacked.value]
    field_simp
  have hpos' : (0 : ℚ) < ((Interval.around u).den * 10 ^ s.toNat : Nat) := by exact_mod_cast hpos
  have hle : (d : ℚ) ≤ u.mantissa * 2 ^ u.exponent / 10 ^ s := by
    rw [hgrid, le_div_iff₀ hpos', hd]
    exact_mod_cast Nat.div_mul_le_self _ _
  have hlt : u.mantissa * (2 : ℚ) ^ u.exponent / 10 ^ s < (d + 1 : Nat) := by
    have hsucc := Nat.lt_mul_div_succ ((Interval.around u).value * 10 ^ (-s).toNat) hpos
    rw [hgrid, div_lt_iff₀ hpos', hd, ← Nat.cast_mul, Nat.cast_lt, Nat.mul_comm (_ + 1)]
    exact hsucc
  rw [le_div_iff₀ (by positivity)] at hle
  rw [div_lt_iff₀ (by positivity)] at hlt
  rw [inUnits, inUnits, div_le_iff₀ (by positivity), lt_div_iff₀ (by positivity)]
  exact ⟨hle, hlt⟩

/-- **Seventeen digits suffice.**  On a grid that fine one of the two points around a double is
closer to it than halfway to the next doubles. -/
theorem holds_of_fine (hu : u.Canonical) (hm : 0 < u.mantissa)
    (hs : (10 : ℚ) ^ s ≤ u.value / 10 ^ 16) (hle : inUnits u d s ≤ u.mantissa)
    (hlt : u.mantissa < inUnits u (d + 1) s) :
    (Interval.around u).holds d s = true ∨ (Interval.around u).holds (d + 1) s = true := by
  have hstep := inUnits_succ u d s
  have hfine : (10 : ℚ) ^ s / 2 ^ u.exponent ≤ u.mantissa / 10 ^ 16 := by
    rw [div_le_iff₀ (by positivity)]
    rw [Unpacked.value] at hs
    linarith
  have hmantissa : (u.mantissa : ℚ) < 2 ^ 53 := by exact_mod_cast hu.mantissa_lt
  have hbelow := u.below_le
  have hbelow' : 0 < u.below := by
    rw [Unpacked.below]
    split <;> norm_num
  by_cases hup : inUnits u (d + 1) s < u.mantissa + 1 / 2
  · exact Or.inr (holds_of_lt hm (by linarith) hup)
  · refine Or.inl (holds_of_lt hm ?_ (by linarith))
    rw [Unpacked.below]
    split
    · next hleast =>
      -- the lower half of the interval is short, but then the grid is finer as well
      have : (u.mantissa : ℚ) = 2 ^ 52 := by exact_mod_cast hleast.1
      linarith
    · linarith

theorem exists_onGrid (hu : u.Canonical) (hm : 0 < u.mantissa) (tie : Tie) :
    ∃ found, onGrid tie (Interval.around u)
      (leadingExponent (Interval.around u).value (Interval.around u).den - (16 : Nat)) =
        some found := by
  have hvalue : 0 < (Interval.around u).value :=
    Nat.mul_pos (Nat.mul_pos (by decide) hm) (Nat.two_pow_pos _)
  have hden : (0 : ℚ) < (Interval.around u).den := by exact_mod_cast around_den_pos u
  have hlead := leadingExponent_le hvalue (around_den_pos u)
  rw [around_value, mul_div_assoc, div_self hden.ne', mul_one] at hlead
  have hfine : (10 : ℚ) ^ (leadingExponent (Interval.around u).value (Interval.around u).den -
      (16 : Nat)) ≤ u.value / 10 ^ 16 := by
    rw [zpow_sub₀ (by norm_num), zpow_natCast]
    gcongr
  obtain ⟨hle, hlt⟩ := inUnits_around u _ rfl
  exact Option.isSome_iff_exists.mp (onGrid_isSome (holds_of_fine hu hm hfine hle hlt))

theorem carry_eq (found : Decimal) : ((carry found).digits : ℚ) * 10 ^ (carry found).exponent =
    found.digits * 10 ^ found.exponent := by
  rw [carry]
  split
  · next hten =>
    rw [hten, zpow_add_one₀ (by norm_num)]
    push_cast
    ring
  · rfl

/-- The search ends within seventeen digits, in the interval. -/
theorem decimal_eq_carry (hu : u.Canonical) (hm : 0 < u.mantissa) (tie : Tie) :
    ∃ found, decimal tie u = carry found ∧
      (Interval.around u).holds found.digits found.exponent = true := by
  obtain ⟨last, hlast⟩ := exists_onGrid hu hm tie
  let search (n : Nat) := onGrid tie (Interval.around u)
    (leadingExponent (Interval.around u).value (Interval.around u).den - n)
  have hsome : ((List.range 17).findSome? search).isSome = true := by
    rw [List.findSome?_isSome_iff]
    exact ⟨16, List.mem_range.mpr (by decide), Option.isSome_iff_exists.mpr ⟨last, hlast⟩⟩
  obtain ⟨found, hfound⟩ := Option.isSome_iff_exists.mp hsome
  obtain ⟨n, -, hn⟩ := List.exists_of_findSome?_eq_some hfound
  refine ⟨found, ?_, holds_of_onGrid hn⟩
  show carry (((List.range 17).findSome? search).getD _) = carry found
  rw [hfound, Option.getD_some]

/-- **The digits of a double round to it.** -/
theorem attracts_decimal (hu : u.Canonical) (hm : 0 < u.mantissa) (tie : Tie) :
    0 < (decimal tie u).digits ∧
      u.Attracts ((decimal tie u).digits * 10 ^ (decimal tie u).exponent / 2 ^ u.exponent) := by
  obtain ⟨found, hfound, hholds⟩ := decimal_eq_carry hu hm tie
  have hattracts := attracts_of_holds hm hholds
  rw [inUnits, ← carry_eq, ← hfound] at hattracts
  refine ⟨Nat.pos_of_ne_zero fun hzero => ?_, hattracts⟩
  -- zero is below every interval
  have hlow := hattracts.low
  have hone : (1 : ℚ) ≤ u.mantissa := by exact_mod_cast hm
  have hbelow := u.below_le
  rw [hzero, Nat.cast_zero, zero_mul, zero_div] at hlow
  linarith

end CatalogGuard.Number.Shortest
