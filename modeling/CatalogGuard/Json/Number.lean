import CatalogGuard.Number.Layout

/-!
# The value of a JSON number

The digits of a number are collected into a significand of 64 bits, and the significand is then
multiplied or divided once by a power of ten.  Each of these steps rounds, so the result may lie a
little beside the double nearest to the number; it is the value that reading gives.

Digits that would overflow the significand are dropped: in front of the point they count as a power
of ten, behind it they do not count.  A number too large for a double has no value; one too small
is zero.
-/

namespace CatalogGuard.Json

open Number (isAsciiDigit natOfDigits takeSign)

/-- The greatest significand. -/
def maxSignificand : Nat := Nat.pow 2 64 - 1

/-- Adds digits to a significand as long as it fits, and returns the digits left. -/
def accumulate (significand : Nat) : List Char → Nat × List Char
  | [] => (significand, [])
  | c :: rest =>
    let next := 10 * significand + (c.toNat - 48)
    if next ≤ maxSignificand then accumulate next rest else (significand, c :: rest)

/-- A power of ten, up to the greatest that is a double. -/
def powerOfTen (exponent : Nat) : Float := Number.Binary64.ofDecimal false 1 exponent

/-- Divides by the greatest power of ten a number of times. -/
def shrink : Nat → Float → Float
  | 0, x => x
  | count + 1, x => shrink count (x / powerOfTen 308)

/-- `significand * 10 ^ exponent`, with the roundings described above. -/
def scale? (significand : Nat) (exponent : Int) : Option Float :=
  let x := Number.Binary64.ofInt significand
  if significand = 0 then some x
  else if 308 < exponent then none
  else if 0 ≤ exponent then
    let y := x * powerOfTen exponent.toNat
    if y.isInf then none else some y
  else
    let steps := (exponent.natAbs - 1) / 308
    some (shrink (min steps 3) x / powerOfTen (exponent.natAbs - 308 * steps))

/-- The parts of the spelling of a number. -/
structure NumberParts where
  /-- Whether it has a minus sign. -/
  negative : Bool
  /-- The digits before the point. -/
  whole : List Char
  /-- The digits behind the point. -/
  fraction : List Char
  /-- The power of ten that is written out. -/
  exponent : Int
  deriving Repr, DecidableEq

/-- Splits the spelling of a number. -/
def NumberParts.ofSpelling (spelling : List Char) : NumberParts :=
  let (negative, rest) := takeSign spelling
  let whole := rest.takeWhile isAsciiDigit
  let rest := rest.dropWhile isAsciiDigit
  let (fraction, rest) :=
    match rest with
    | '.' :: rest => (rest.takeWhile isAsciiDigit, rest.dropWhile isAsciiDigit)
    | rest => ([], rest)
  ⟨negative, whole, fraction, (Number.exponent? rest).getD 0⟩

/-- The double that a number is read as. -/
def numberValue? (spelling : List Char) : Option Float :=
  let parts := NumberParts.ofSpelling spelling
  let (significand, dropped) := accumulate 0 parts.whole
  let (significand, left) := accumulate significand parts.fraction
  let places : Int := dropped.length - (parts.fraction.length - left.length : Nat)
  (scale? significand (places + parts.exponent)).map fun x => if parts.negative then -x else x

end CatalogGuard.Json
