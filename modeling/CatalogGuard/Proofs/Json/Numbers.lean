import CatalogGuard.Json.Reader
import CatalogGuard.Proofs.Number.Shortest
import CatalogGuard.Proofs.Rule.Tokens

/-!
# Numbers in JSON

The grammar of JSON is stricter about numbers than others are: a whole part starts with a zero only
if it is zero, there are digits on both sides of a point, and a power of ten has digits as well.
What is written for a double keeps to that, since its digits do not start with a zero, and where
they do not reach the point a zero is put there.

A number has no mark at its end.  It is read whole if what follows cannot continue it.

## Main definitions

* `NumberText` — the numbers of JSON

## Main results

* `numberSpelling_append` — a number is split off whole, whatever follows that does not continue it
* `numberText_serialized` — what is written for a double is a number
-/

namespace CatalogGuard.Json

open Number (digitChars natOfDigits positional scientific serialized? signChars)
open Rule (isAsciiDigit_eq)
open Text (Stops stops_nil stops_cons)

variable {n : Nat} {x : Float}
  {digits whole fraction exponent spelling rest : List Char}

/-! ### The grammar of numbers -/

/-- Digits, at least one of them. -/
structure Digits (digits : List Char) : Prop where
  /-- There is one. -/
  ne : digits ≠ []
  /-- Each is a digit of ASCII. -/
  digit : ∀ c ∈ digits, c.isDigit = true

/-- The whole part of a number: digits that start with a zero only if they are one zero. -/
structure WholePart (digits : List Char) : Prop extends Digits digits where
  /-- There is no zero in front. -/
  leading : digits.head? = some '0' → digits = ['0']

/-- What may stand behind the whole part: nothing, or a point and digits. -/
inductive FractionPart : List Char → Prop where
  | none : FractionPart []
  | point {digits : List Char} (h : Digits digits) : FractionPart ('.' :: digits)

/-- What may stand at the end: nothing, or a power of ten, perhaps with a sign. -/
inductive ExponentPart : List Char → Prop where
  | none : ExponentPart []
  | power {mark : Char} {sign digits : List Char} (hmark : mark = 'e' ∨ mark = 'E')
      (hsign : sign = [] ∨ sign = ['+'] ∨ sign = ['-']) (h : Digits digits) :
      ExponentPart (mark :: (sign ++ digits))

/-- The numbers of JSON. -/
inductive NumberText : List Char → Prop where
  | number {sign whole fraction exponent : List Char} (hsign : sign = [] ∨ sign = ['-'])
      (hw : WholePart whole) (hf : FractionPart fraction) (he : ExponentPart exponent) :
      NumberText (sign ++ whole ++ fraction ++ exponent)

/-- Whether a character may stand behind a digit in a number. -/
def continuesNumber (c : Char) : Bool := c.isDigit || c == '.' || c == 'e' || c == 'E'

/-! ### Reading -/

theorem digits_append (h : Digits digits) (hrest : Stops Char.isDigit rest) :
    (digits ++ rest).takeWhile Number.isAsciiDigit = digits ∧
      (digits ++ rest).dropWhile Number.isAsciiDigit = rest := by
  rw [isAsciiDigit_eq]
  exact ⟨Text.takeWhile_append_of_stops h.digit hrest, Text.dropWhile_append_of_stops h.digit hrest⟩

theorem Digits.isEmpty (h : Digits digits) : digits.isEmpty = false :=
  List.isEmpty_eq_false_iff.mpr h.ne

/-- The first character of a number's digits is a digit. -/
theorem Digits.exists_cons (h : Digits digits) :
    ∃ c more, digits = c :: more ∧ c.isDigit = true := by
  obtain ⟨c, more, rfl⟩ := List.exists_cons_of_ne_nil h.ne
  exact ⟨c, more, rfl, h.digit c List.mem_cons_self⟩

theorem wholeDigits_append (h : WholePart whole) (hrest : Stops Char.isDigit rest) :
    wholeDigits (whole ++ rest) = some (whole, rest) := by
  obtain ⟨htake, hdrop⟩ := digits_append h.toDigits hrest
  obtain ⟨c, more, rfl, -⟩ := h.exists_cons
  by_cases hzero : c = '0'
  · obtain rfl := hzero
    obtain ⟨-, rfl⟩ := List.cons.inj (h.leading rfl)
    rfl
  · rw [wholeDigits, htake, hdrop, h.isEmpty]
    · rfl
    · exact fun tail heq => hzero (List.cons.inj heq).1

theorem fractionDigits_append (h : FractionPart fraction) (hdigit : Stops Char.isDigit rest)
    (hpoint : Stops (· == '.') rest) :
    fractionDigits (fraction ++ rest) = some (fraction, rest) := by
  cases h with
  | none =>
    rw [List.nil_append, fractionDigits]
    rintro tail rfl
    cases stops_cons.mp hpoint
  | point h =>
    obtain ⟨htake, hdrop⟩ := digits_append h hdigit
    rw [List.cons_append, fractionDigits, htake, hdrop, h.isEmpty]
    rfl

theorem exponentDigits_append (h : ExponentPart exponent) (hdigit : Stops Char.isDigit rest)
    (hmark : Stops (fun c => c == 'e' || c == 'E') rest) :
    exponentDigits (exponent ++ rest) = some (exponent, rest) := by
  cases h with
  | none =>
    cases rest with
    | nil => rfl
    | cons c rest =>
      have hc : ¬(c = 'e' ∨ c = 'E') := by simpa using stops_cons.mp hmark
      rw [List.nil_append, exponentDigits.eq_def]
      exact if_neg hc
  | power hmark hsign h =>
    obtain ⟨htake, hdrop⟩ := digits_append h hdigit
    rw [List.cons_append, exponentDigits.eq_def]
    dsimp only
    rw [if_pos hmark]
    rcases hsign with rfl | rfl | rfl
    · -- no digit is taken for a sign
      obtain ⟨c, more, rfl, hc⟩ := h.exists_cons
      rw [List.nil_append]
      split
      · next heq =>
        obtain ⟨rfl, -⟩ := List.cons.inj heq
        cases hc
      · next heq =>
        obtain ⟨rfl, -⟩ := List.cons.inj heq
        cases hc
      · rw [htake, hdrop, h.isEmpty]
        rfl
    · simp only [List.cons_append, List.nil_append, htake, hdrop, h.isEmpty]
      rfl
    · simp only [List.cons_append, List.nil_append, htake, hdrop, h.isEmpty]
      rfl

theorem FractionPart.stops (h : FractionPart fraction) (hrest : Stops Char.isDigit rest) :
    Stops Char.isDigit (fraction ++ rest) := by
  cases h with
  | none => exact hrest
  | point => exact stops_cons.mpr rfl

theorem ExponentPart.stops (h : ExponentPart exponent) (hrest : Stops continuesNumber rest) :
    Stops Char.isDigit (exponent ++ rest) ∧ Stops (· == '.') (exponent ++ rest) := by
  cases h with
  | none =>
    exact ⟨hrest.mono fun c hc => by simp [continuesNumber, hc],
      hrest.mono fun c hc => by simp [continuesNumber, eq_of_beq hc]⟩
  | power hmark =>
    rcases hmark with rfl | rfl
    · exact ⟨stops_cons.mpr rfl, stops_cons.mpr rfl⟩
    · exact ⟨stops_cons.mpr rfl, stops_cons.mpr rfl⟩

/-- **A number is split off whole**, whatever follows that does not continue it. -/
theorem numberSpelling_append (h : NumberText spelling) (hrest : Stops continuesNumber rest) :
    numberSpelling (spelling ++ rest) = some (spelling, rest) := by
  obtain @⟨sign, whole, fraction, exponent, hsign, hw, hf, he⟩ := h
  have hdigit : Stops Char.isDigit rest := hrest.mono fun c hc => by simp [continuesNumber, hc]
  have hmark : Stops (fun c => c == 'e' || c == 'E') rest := hrest.mono fun c hc => by
    rw [continuesNumber, Bool.or_assoc, hc, Bool.or_true]
  obtain ⟨hdigit', hpoint⟩ := he.stops hrest
  have hparts : numberSpelling (sign ++ (whole ++ (fraction ++ (exponent ++ rest)))) =
      some (sign ++ whole ++ fraction ++ exponent, rest) := by
    have hwhole := wholeDigits_append hw (hf.stops hdigit')
    have hfraction := fractionDigits_append hf hdigit' hpoint
    have hexponent := exponentDigits_append he hdigit hmark
    rw [numberSpelling.eq_def]
    rcases hsign with rfl | rfl
    · obtain ⟨c, more, rfl, hc⟩ := hw.exists_cons
      rw [List.nil_append]
      split
      next hmatch =>
        split at hmatch
        · next heq =>
          obtain ⟨rfl, -⟩ := List.cons.inj heq
          cases hc
        · obtain ⟨rfl, rfl⟩ := Prod.mk.inj hmatch
          simp only [hwhole, Option.bind_eq_bind, Option.bind_some, hfraction, hexponent]
    · simp only [List.singleton_append, hwhole, Option.bind_eq_bind, Option.bind_some, hfraction,
        hexponent]
  simpa only [List.append_assoc] using hparts

/-! ### Writing -/

theorem digits_digitChars (n : Nat) : Digits (digitChars n) :=
  ⟨List.length_pos_iff.mp Nat.length_toDigits_pos, fun _ hc => Number.isDigit_of_mem_toDigits hc⟩

/-- The digits of a number do not start with a zero unless it is zero. -/
theorem head?_digitChars (h : 0 < n) : (digitChars n).head? ≠ some '0' := by
  intro hhead
  obtain ⟨more, hmore⟩ := List.head?_eq_some_iff.mp hhead
  have hlow := Number.pow_le_of_toDigits h
  have hhigh : natOfDigits more < 10 ^ more.length :=
    Number.natOfDigits_lt fun c hc => (digits_digitChars n).digit c
      (hmore ▸ List.mem_cons_of_mem _ hc)
  have hn : natOfDigits more = n := by
    rw [← Number.natOfDigits_toDigits n, ← digitChars, hmore]
    rfl
  rw [← digitChars, hmore, List.length_cons, Nat.add_sub_cancel] at hlow
  omega

theorem Digits.append (h : Digits digits) {more : List Char}
    (hmore : ∀ c ∈ more, c.isDigit = true) : Digits (digits ++ more) :=
  ⟨List.append_ne_nil_of_left_ne_nil h.ne more, List.forall_mem_append.mpr ⟨h.digit, hmore⟩⟩

theorem digits_zero : Digits ['0'] := ⟨List.cons_ne_nil _ _, List.forall_mem_singleton.mpr rfl⟩

/-- Digits with a point among them are a number. -/
theorem exists_parts_positional (h : Digits digits) (hlead : digits.head? ≠ some '0')
    (places : Int) : ∃ whole fraction, WholePart whole ∧ FractionPart fraction ∧
      positional ['.', '0'] digits places = whole ++ fraction := by
  have hhead : ∀ more, (digits ++ more).head? = digits.head? := by
    intro more
    obtain ⟨c, rest, rfl, -⟩ := h.exists_cons
    rfl
  rw [positional]
  split
  · refine ⟨['0'], '.' :: (List.replicate (-places).toNat '0' ++ digits),
      ⟨digits_zero, fun _ => rfl⟩, .point ⟨?_, ?_⟩, rfl⟩
    · exact List.append_ne_nil_of_right_ne_nil _ h.ne
    · exact List.forall_mem_append.mpr ⟨fun c hc => Number.isDigit_of_mem_zeros hc, h.digit⟩
  · split
    · refine ⟨_, ['.', '0'], ⟨h.append fun c hc => Number.isDigit_of_mem_zeros hc, ?_⟩,
        .point digits_zero, rfl⟩
      rw [hhead]
      exact fun hbad => absurd hbad hlead
    · next hpos hlt =>
      have hsplit := List.take_append_drop places.toNat digits
      have htake : digits.take places.toNat ≠ [] := List.ne_nil_of_length_pos (by simp; omega)
      have hdrop : digits.drop places.toNat ≠ [] := List.ne_nil_of_length_pos (by simp; omega)
      refine ⟨_, _, ⟨⟨htake, fun c hc => h.digit c (List.mem_of_mem_take hc)⟩, fun hbad => ?_⟩,
        .point ⟨hdrop, fun c hc => h.digit c (List.mem_of_mem_drop hc)⟩, rfl⟩
      rw [List.head?_take, if_neg (by omega)] at hbad
      exact absurd hbad hlead

/-- Digits with a power of ten are a number. -/
theorem exists_parts_scientific (h : Digits digits) (hlead : digits.head? ≠ some '0')
    (power : Int) : ∃ whole fraction exponent, WholePart whole ∧ FractionPart fraction ∧
      ExponentPart exponent ∧ scientific digits power = whole ++ fraction ++ exponent := by
  have hexponent : ExponentPart
      ('e' :: (if power < 0 then '-' else '+') :: digitChars power.natAbs) := by
    have hdigits := digits_digitChars power.natAbs
    split
    · exact .power (Or.inl rfl) (Or.inr (Or.inr rfl)) hdigits
    · exact .power (Or.inl rfl) (Or.inr (Or.inl rfl)) hdigits
  obtain ⟨c, more, rfl, hc⟩ := h.exists_cons
  have hwhole : WholePart [c] := by
    refine ⟨⟨List.cons_ne_nil _ _, List.forall_mem_singleton.mpr hc⟩, fun hbad => ?_⟩
    exact absurd hbad hlead
  cases more with
  | nil => exact ⟨[c], [], _, hwhole, .none, hexponent, rfl⟩
  | cons d more =>
    have hmore : Digits (d :: more) :=
      ⟨List.cons_ne_nil _ _, fun c hc => h.digit c (List.mem_cons_of_mem _ hc)⟩
    exact ⟨[c], '.' :: d :: more, _, hwhole, .point hmore, hexponent, rfl⟩

theorem signChars_cases (x : Float) : signChars x = [] ∨ signChars x = ['-'] := by
  rw [signChars]
  split
  · exact Or.inr rfl
  · exact Or.inl rfl

/-- **What is written for a double is a number.** -/
theorem numberText_serialized (h : serialized? x = some spelling) : NumberText spelling := by
  have hsign := signChars_cases x
  rw [serialized?] at h
  split at h
  · cases h
  · next hspecial =>
    obtain ⟨hnan, hinf⟩ := not_or.mp (mt Bool.or_eq_true_iff.mpr hspecial)
    obtain ⟨hcanonical, -⟩ :=
      Number.Binary64.unpack_spec (Number.Binary64.isFinite_iff_not_special.mpr ⟨hnan, hinf⟩)
    dsimp only at h
    split at h
    · obtain rfl := Option.some.inj h
      have hnumber := NumberText.number hsign ⟨digits_zero, fun _ => rfl⟩ (.point digits_zero) .none
      simpa using hnumber
    · next hm =>
      obtain ⟨hpos, -⟩ :=
        Number.Shortest.attracts_decimal hcanonical (Nat.pos_of_ne_zero hm) .toEven
      have hdigits := digits_digitChars
        (Number.Shortest.decimal .toEven (Number.Binary64.unpack x)).digits
      have hlead := head?_digitChars hpos
      split at h
      · obtain rfl := Option.some.inj h
        obtain ⟨whole, fraction, hw, hf, heq⟩ := exists_parts_positional hdigits hlead _
        rw [heq]
        have hnumber := NumberText.number hsign hw hf .none
        simpa using hnumber
      · obtain rfl := Option.some.inj h
        obtain ⟨whole, fraction, exponent, hw, hf, he, heq⟩ :=
          exists_parts_scientific hdigits hlead _
        rw [heq]
        have hnumber := NumberText.number hsign hw hf he
        simpa using hnumber

end CatalogGuard.Json
