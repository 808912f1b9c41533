import CatalogGuard.Proofs.Number.Shortest
import CatalogGuard.Proofs.Rule.Grammar

/-!
# Numbers in full

Digits with a point among them are a numeral of the grammar, and what it stands for is the number
that the digits make at their places, however many zeros fill the gap to the point.  So the text of
a finite double derives that double.

## Main results

* `exists_numeral_positional` — digits with a point are a numeral, and its value
* `value_display` — a finite double derives from its text
-/

namespace CatalogGuard.Number

open Binary64 (Unpacked isNegative ofPattern ofDecimal unpack)
open Rule.Grammar (NumberSign Numeral Value)

variable {negative : Bool} {digits sign : List Char} {x : Float}

/-! ### Digits with a point -/

theorem isDigit_zeros (count : Nat) : ∀ c ∈ List.replicate count '0', c.isDigit = true :=
  fun _ hc => isDigit_of_mem_zeros hc

/-- Zeros may stand between the point and the digits. -/
theorem numeral_leading (hs : NumberSign sign negative) (ne : digits ≠ [])
    (hd : ∀ c ∈ digits, c.isDigit = true) (count : Nat) : ∃ fraction,
    Numeral Char.isDigit (sign ++ '0' :: '.' :: (List.replicate count '0' ++ digits)) negative ['0']
        fraction ∧
      (natOfDigits (['0'] ++ fraction) : ℚ) * 10 ^ (-fraction.length : Int) =
        natOfDigits digits * 10 ^ (-(count + digits.length : Nat) : Int) := by
  have hfraction : List.replicate count '0' ++ digits ≠ [] := fun hnil =>
    ne (List.append_eq_nil_iff.mp hnil).2
  refine ⟨_, .fraction hs (List.cons_ne_nil _ _) (isDigit_zeros 1) hfraction
    (List.forall_mem_append.mpr ⟨isDigit_zeros _, hd⟩), ?_⟩
  have hzeros : ['0'] ++ (List.replicate count '0' ++ digits) =
      List.replicate (count + 1) '0' ++ digits := rfl
  rw [hzeros, natOfDigits_zeros_append, List.length_append, List.length_replicate]

/-- Zeros may stand behind the digits. -/
theorem numeral_trailing (hs : NumberSign sign negative) (ne : digits ≠ [])
    (hd : ∀ c ∈ digits, c.isDigit = true) (count : Nat) : ∃ whole,
    Numeral Char.isDigit (sign ++ (digits ++ List.replicate count '0')) negative whole [] ∧
      (natOfDigits whole : ℚ) = natOfDigits digits * 10 ^ count := by
  have hwhole : digits ++ List.replicate count '0' ≠ [] := fun hnil =>
    ne (List.append_eq_nil_iff.mp hnil).1
  refine ⟨_, .whole hs hwhole (List.forall_mem_append.mpr ⟨hd, isDigit_zeros _⟩), ?_⟩
  rw [natOfDigits_append_zeros, mul_comm]
  push_cast
  rfl

/-- The point may stand among the digits. -/
theorem numeral_point (hs : NumberSign sign negative) (hd : ∀ c ∈ digits, c.isDigit = true)
    {count : Nat} (hpos : 0 < count) (hlt : count < digits.length) :
    Numeral Char.isDigit (sign ++ (digits.take count ++ '.' :: digits.drop count)) negative
      (digits.take count) (digits.drop count) := by
  have hwhole : digits.take count ≠ [] := List.ne_nil_of_length_pos (by simp; omega)
  have hfraction : digits.drop count ≠ [] := List.ne_nil_of_length_pos (by simp; omega)
  exact .fraction hs hwhole (fun c hc => hd c (List.mem_of_mem_take hc)) hfraction
    fun c hc => hd c (List.mem_of_mem_drop hc)

/-- **Digits with a point are a numeral**, which stands for the number that the digits make if the
last of them is that many places behind the point. -/
theorem exists_numeral_positional (hs : NumberSign sign negative) (ne : digits ≠ [])
    (hd : ∀ c ∈ digits, c.isDigit = true) (places : Int) :
    ∃ whole fraction,
      Numeral Char.isDigit (sign ++ positional [] digits places) negative whole fraction ∧
        (natOfDigits (whole ++ fraction) : ℚ) * 10 ^ (-fraction.length : Int) =
          natOfDigits digits * 10 ^ (places - digits.length) := by
  rw [positional]
  split
  · next hle =>
    obtain ⟨fraction, hn, hvalue⟩ := numeral_leading hs ne hd (-places).toNat
    have hplaces : -(((-places).toNat + digits.length : Nat) : Int) = places - digits.length := by
      omega
    exact ⟨['0'], fraction, hn, hplaces ▸ hvalue⟩
  · split
    · next hpos hle =>
      obtain ⟨whole, hn, hvalue⟩ := numeral_trailing hs ne hd (places.toNat - digits.length)
      have hplaces : places - digits.length = ((places.toNat - digits.length : Nat) : Int) := by
        omega
      refine ⟨whole, [], by rwa [List.append_nil], ?_⟩
      rw [List.append_nil, hvalue, hplaces, zpow_natCast]
      exact mul_one _
    · next hpos hlt =>
      have hplaces : -((digits.drop places.toNat).length : Int) = places - digits.length := by
        rw [List.length_drop]
        omega
      refine ⟨_, _, numeral_point hs hd (by omega) (by omega), ?_⟩
      rw [List.take_append_drop, hplaces]

/-! ### Doubles -/

theorem numberSign_signChars (x : Float) : NumberSign (signChars x) (isNegative x) := by
  rw [signChars]
  split
  · next h =>
    rw [h]
    exact .minus
  · next h =>
    rw [Bool.not_eq_true] at h
    rw [h]
    exact .none

/-- Zero derives from its text, with its sign. -/
theorem value_zero (hs : NumberSign sign negative) :
    Value (sign ++ ['0']) (.number (ofPattern negative 0)) :=
  .number (.whole hs (List.cons_ne_nil '0' []) (isDigit_zeros 1))

/-- Digits that round to a double derive it, wherever the point stands. -/
theorem value_positional {u : Unpacked} (hs : NumberSign sign negative) (hu : u.Canonical)
    (hm : 0 < u.mantissa) {d : Decimal} (hdigits : 0 < d.digits)
    (h : u.Attracts (d.digits * 10 ^ d.exponent / 2 ^ u.exponent)) :
    Value (sign ++ positional [] (digitChars d.digits) ((digitChars d.digits).length + d.exponent))
      (.number (ofPattern negative u.pattern)) := by
  have ne : digitChars d.digits ≠ [] :=
    List.length_pos_iff.mp (Nat.length_toDigits_pos (b := 10) (n := d.digits))
  obtain ⟨whole, fraction, hn, hvalue⟩ := exists_numeral_positional hs ne
    (fun c hc => isDigit_of_mem_toDigits hc) ((digitChars d.digits).length + d.exponent)
  rw [digitChars, natOfDigits_toDigits, add_sub_cancel_left] at hvalue
  rw [← hvalue] at h
  have hread : 0 < natOfDigits (whole ++ fraction) := by
    refine Nat.pos_of_ne_zero fun hzero => ?_
    rw [hzero, Nat.cast_zero, zero_mul, eq_comm] at hvalue
    have hne : (d.digits : ℚ) ≠ 0 := by exact_mod_cast hdigits.ne'
    exact mul_ne_zero hne (by positivity) hvalue
  have hv := Value.number hn
  rwa [Binary64.ofDecimal_eq hu hm hread h] at hv

/-- **A finite double derives from its text.** -/
theorem value_display (h : x.isFinite = true) : Value (display x) (.number x) := by
  obtain ⟨hcanonical, -⟩ := Binary64.unpack_spec h
  obtain ⟨hnan, hinf⟩ := Binary64.isFinite_iff_not_special.mp h
  have hsign := numberSign_signChars x
  have hx := Binary64.ofPattern_unpack h
  rw [display, if_neg hnan, if_neg hinf]
  dsimp only
  split
  · next hzero =>
    have hpattern : (unpack x).pattern = 0 := by
      have := hcanonical.normal
      have := hcanonical.le_exponent
      rw [Unpacked.pattern, hzero]
      omega
    have hv := value_zero hsign
    rwa [← hpattern, hx] at hv
  · next hpos =>
    have hpos := Nat.pos_of_ne_zero hpos
    obtain ⟨hdigits, hattracts⟩ := Shortest.attracts_decimal hcanonical hpos .up
    have hv := value_positional hsign hcanonical hpos hdigits hattracts
    rwa [hx] at hv

end CatalogGuard.Number
