import CatalogGuard.Text.Quoted
import Mathlib.Data.List.Forall2

/-!
# Literals

Which texts between double quotes stand for which text, said without a reader or a writer:

    literal ::= '"' { raw | short | unit | pair } '"'
    raw     ::= any character but '"', '\' and those below U+0020
    short   ::= '\' letter
    unit    ::= "\u" digit digit digit digit
    pair    ::= unit unit

A letter of a short escape is looked up in a table, and so is a digit, which may have either case.
A unit is the number of its character.  A character beyond U+FFFF has no unit of its own; the excess
of its number over 0x10000 is divided into ten higher and ten lower bits, which two surrogates
carry.

What reading computes from letters, digits and units is then compared with the tables.

## Main definitions

* `Writing` — the ways to write one character
* `Literal` — the literals of a text

## Main results

* `shortEscape_eq_some_iff`, `hexNumber_eq_some_iff` — letters and digits are read by the tables
* `joinSurrogates_eq_iff` — a pair is joined to the character whose bits it carries
-/

namespace CatalogGuard.Text.Quoted

variable {a b c d : Char} {n leading trailing : Nat}

/-! ### Tables -/

/-- The letters of the short escapes, each with the character it stands for. -/
def shortForms : List (Char × Char) :=
  [('\x22', '\x22'), ('\\', '\\'), ('/', '/'), ('b', '\x08'), ('f', '\x0c'), ('n', '\n'),
   ('r', '\r'), ('t', '\t')]

/-- The hexadecimal digits in the order of their values, in lower case. -/
def lowerDigits : List Char :=
  ['0', '1', '2', '3', '4', '5', '6', '7', '8', '9', 'a', 'b', 'c', 'd', 'e', 'f']

/-- The hexadecimal digits in the order of their values, in upper case. -/
def upperDigits : List Char :=
  ['0', '1', '2', '3', '4', '5', '6', '7', '8', '9', 'A', 'B', 'C', 'D', 'E', 'F']

/-- A hexadecimal digit, of either case, and its value. -/
def HexDigit (digit : Char) (n : Nat) : Prop :=
  lowerDigits[n]? = some digit ∨ upperDigits[n]? = some digit

/-! ### Writings -/

/-- Four hexadecimal digits, each of either case, and the unit they write. -/
inductive UnitDigits : List Char → Nat → Prop where
  | digits {a b c d : Char} {i j k l : Nat} (ha : HexDigit a i) (hb : HexDigit b j)
      (hc : HexDigit c k) (hd : HexDigit d l) :
      UnitDigits [a, b, c, d] (0x1000 * i + 0x100 * j + 0x10 * k + l)

/-- The ways to write one character. -/
inductive Writing : List Char → Char → Prop where
  | raw {c : Char} (hq : c ≠ '\x22') (hb : c ≠ '\\') (hc : 0x20 ≤ c.toNat) : Writing [c] c
  | short {letter c : Char} (h : (letter, c) ∈ shortForms) : Writing ['\\', letter] c
  | unit {digits : List Char} {c : Char} (h : UnitDigits digits c.toNat) :
      Writing ('\\' :: 'u' :: digits) c
  | pair {high low : List Char} {c : Char} (hc : 0x10000 ≤ c.toNat)
      (hhigh : UnitDigits high (0xD800 + (c.toNat - 0x10000) / 0x400))
      (hlow : UnitDigits low (0xDC00 + (c.toNat - 0x10000) % 0x400)) :
      Writing ('\\' :: 'u' :: high ++ '\\' :: 'u' :: low) c

/-- The literals of a text: its characters, each in a writing of its own, between quotes. -/
def Literal (literal text : List Char) : Prop :=
  ∃ runs, List.Forall₂ Writing runs text ∧ literal = '\x22' :: (runs.flatten ++ ['\x22'])

/-! ### Short escapes -/

/-- A letter is read by the table. -/
theorem shortEscape_eq_some_iff : shortEscape a = some c ↔ (a, c) ∈ shortForms := by
  constructor
  · intro h
    rw [shortEscape.eq_def] at h
    split at h
    case h_9 => cases h
    all_goals
      obtain rfl := Option.some.inj h
      decide
  · intro h
    have hall : (shortForms.all fun form => shortEscape form.1 == some form.2) = true := by decide
    exact eq_of_beq (List.all_eq_true.mp hall _ h)

/-! ### Digits -/

theorem HexDigit.lt (h : HexDigit d n) : n < 16 := by
  rcases h with h | h
  · exact (List.getElem?_eq_some_iff.mp h).1
  · exact (List.getElem?_eq_some_iff.mp h).1

/-- Characters whose numbers are in a row are found in a table that has them in a row. -/
theorem getElem?_of_range {table : List Char} (base low high : Nat)
    (htable : ∀ n ≤ high, low ≤ n → table[n]? = some (Char.ofNat (base + n)))
    (hlow : base + low ≤ d.toNat) (hhigh : d.toNat ≤ base + high) (h : d.toNat - base = n) :
    table[n]? = some d := by
  have hd : base + n = d.toNat := by omega
  rw [htable n (by omega) (by omega), hd, Char.ofNat_toNat]

/-- A digit is read by the tables. -/
theorem hexValue_eq_some_iff : hexValue d = some n ↔ HexDigit d n := by
  constructor
  · intro h
    rw [hexValue] at h
    -- The letters begin at ten: 'a' is 87 + 10 and 'A' is 55 + 10.
    split at h
    · next hrange =>
      have hn : d.toNat - 48 = n := Option.some.inj h
      exact Or.inl (getElem?_of_range 48 0 9 (by decide) hrange.1 hrange.2 hn)
    split at h
    · next hrange =>
      have hn : d.toNat - 87 = n := Option.some.inj h
      exact Or.inl (getElem?_of_range 87 10 15 (by decide) hrange.1 hrange.2 hn)
    split at h
    · next hrange =>
      have hn : d.toNat - 55 = n := Option.some.inj h
      exact Or.inr (getElem?_of_range 55 10 15 (by decide) hrange.1 hrange.2 hn)
    · cases h
  · intro h
    have htables : ∀ n < 16, (lowerDigits[n]?.all fun d => hexValue d == some n) = true ∧
        (upperDigits[n]?.all fun d => hexValue d == some n) = true := by
      decide
    obtain ⟨hlower, hupper⟩ := htables n h.lt
    rcases h with h | h
    · rw [h] at hlower
      exact eq_of_beq hlower
    · rw [h] at hupper
      exact eq_of_beq hupper

theorem UnitDigits.lt {digits : List Char} (h : UnitDigits digits n) : n < 0x10000 := by
  obtain ⟨ha, hb, hc, hd⟩ := h
  have := ha.lt
  have := hb.lt
  have := hc.lt
  have := hd.lt
  omega

/-- Four digits are read by the tables. -/
theorem hexNumber_eq_some_iff : hexNumber a b c d = some n ↔ UnitDigits [a, b, c, d] n := by
  simp only [hexNumber, Option.bind_eq_bind, Option.bind_eq_some_iff, Option.pure_def,
    Option.some.injEq, hexValue_eq_some_iff]
  constructor
  · rintro ⟨i, ha, j, hb, k, hc, l, hd, hn⟩
    have hvalue : 0x1000 * i + 0x100 * j + 0x10 * k + l = n := by omega
    exact hvalue ▸ .digits ha hb hc hd
  · intro h
    cases h with
    | @digits _ _ _ _ i j k l ha hb hc hd => exact ⟨i, ha, j, hb, k, hc, l, hd, by omega⟩

theorem UnitDigits.exists_hexNumber {digits : List Char} (h : UnitDigits digits n) :
    ∃ a b c d, digits = [a, b, c, d] ∧ hexNumber a b c d = some n := by
  obtain ⟨ha, hb, hc, hd⟩ := h
  exact ⟨_, _, _, _, rfl, hexNumber_eq_some_iff.mpr (.digits ha hb hc hd)⟩

/-! ### Surrogate pairs -/

theorem isLeadingSurrogate_iff : isLeadingSurrogate n = true ↔ 0xD800 ≤ n ∧ n ≤ 0xDBFF := by
  rw [isLeadingSurrogate, Bool.and_eq_true, decide_eq_true_eq, decide_eq_true_eq]

theorem isTrailingSurrogate_iff : isTrailingSurrogate n = true ↔ 0xDC00 ≤ n ∧ n ≤ 0xDFFF := by
  rw [isTrailingSurrogate, Bool.and_eq_true, decide_eq_true_eq, decide_eq_true_eq]

theorem toNat_ofNat_of_isValidChar (h : n.isValidChar) : (Char.ofNat n).toNat = n := by
  rw [Char.ofNat, dif_pos h]
  rfl

/-- The number of a pair has its ten higher bits from the one unit, and its ten lower bits from the
other. -/
theorem toNat_joinSurrogates (hl : isLeadingSurrogate leading = true)
    (ht : isTrailingSurrogate trailing = true) :
    (joinSurrogates leading trailing).toNat =
      0x10000 + (leading - 0xD800) * 0x400 + (trailing - 0xDC00) := by
  obtain ⟨-, hl⟩ := isLeadingSurrogate_iff.mp hl
  obtain ⟨-, ht⟩ := isTrailingSurrogate_iff.mp ht
  refine toNat_ofNat_of_isValidChar (Or.inr ?_)
  omega

/-- Two units are those of a character beyond U+FFFF if they are a leading and a trailing surrogate
that are joined to the character. -/
theorem joinSurrogates_eq_iff :
    isLeadingSurrogate leading = true ∧ isTrailingSurrogate trailing = true ∧
        joinSurrogates leading trailing = c ↔
      0x10000 ≤ c.toNat ∧ leading = 0xD800 + (c.toNat - 0x10000) / 0x400 ∧
        trailing = 0xDC00 + (c.toNat - 0x10000) % 0x400 := by
  constructor
  · rintro ⟨hl, ht, rfl⟩
    have hn := toNat_joinSurrogates hl ht
    obtain ⟨hl, -⟩ := isLeadingSurrogate_iff.mp hl
    obtain ⟨ht, ht'⟩ := isTrailingSurrogate_iff.mp ht
    omega
  · rintro ⟨hc, hl, ht⟩
    have hvalid : c.toNat < 0xD800 ∨ 0xDFFF < c.toNat ∧ c.toNat < 0x110000 := c.valid
    have hn : 0x10000 + (leading - 0xD800) * 0x400 + (trailing - 0xDC00) = c.toNat := by omega
    refine ⟨isLeadingSurrogate_iff.mpr ?_, isTrailingSurrogate_iff.mpr ?_, ?_⟩
    · omega
    · omega
    · rw [joinSurrogates, hn, Char.ofNat_toNat]

end CatalogGuard.Text.Quoted
