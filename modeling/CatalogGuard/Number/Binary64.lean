/-!
# Double precision numbers and exact ratios

Numbers in data and in filters are doubles.  This module ties them to exact arithmetic: `unpack`
writes a finite double as an integer times a power of two, and `ofRatio` finds the double nearest
to a quotient of two naturals, an exact half going to the even neighbour.

The bit pattern of a double with integer part `m < 2 ^ 53` and exponent `q ≥ -1074` is
`(q + 1074) * 2 ^ 52 + m`, for normal and subnormal numbers alike; a mantissa rounded up to
`2 ^ 53` carries into the exponent by itself, and a pattern that reaches the one of infinity stands
for an overflow.
-/

namespace CatalogGuard.Number.Binary64

/-- The absolute value of a finite double, as `mantissa * 2 ^ exponent`. -/
structure Unpacked where
  /-- The integer part, below `2 ^ 53`. -/
  mantissa : Nat
  /-- The power of two, at least -1074. -/
  exponent : Int
  deriving Repr, DecidableEq

/-- Whether the sign bit is set. -/
def isNegative (x : Float) : Bool := x.toBits.toNat / Nat.pow 2 63 = 1

/-- The absolute value of a double; of no meaning for infinities and NaN. -/
def unpack (x : Float) : Unpacked :=
  let bits : Nat := x.toBits.toNat
  let fraction : Nat := bits % Nat.pow 2 52
  let biased : Nat := bits / Nat.pow 2 52 % Nat.pow 2 11
  if biased = 0 then ⟨fraction, -1074⟩ else ⟨fraction + Nat.pow 2 52, (biased : Int) - 1075⟩

/-- The bit pattern of positive infinity. -/
def infinityBits : Nat := 0x7FF0000000000000

/-- The double with the given sign and absolute bit pattern; patterns beyond infinity count as
infinity. -/
def ofPattern (negative : Bool) (pattern : Nat) : Float :=
  Float.ofBits (UInt64.ofNat
    (min pattern infinityBits + if negative then Nat.pow 2 63 else 0))

/-- The integer nearest to a quotient, an exact half going to the even neighbour. -/
def roundedQuotient (num den : Nat) : Nat :=
  let quotient := num / den
  let twice := 2 * (num % den)
  if den < twice ∨ (twice = den ∧ quotient % 2 = 1) then quotient + 1 else quotient

/-- `num / (den * 2 ^ q)` as a quotient of naturals. -/
def scaled (num den : Nat) (q : Int) : Nat × Nat :=
  (num * Nat.pow 2 (-q).toNat, den * Nat.pow 2 q.toNat)

/-- The double nearest to `num / den`. -/
def ofRatio (negative : Bool) (num den : Nat) : Float :=
  if num = 0 then ofPattern negative 0
  else
    let guess : Int := max ((num.log2 : Int) - den.log2 - 53) (-1074)
    let (n, d) := scaled num den guess
    let q := if Nat.pow 2 53 ≤ n / d then guess + 1 else guess
    let (n, d) := scaled num den q
    ofPattern negative ((q + 1074).toNat * Nat.pow 2 52 + roundedQuotient n d)

/-- The double nearest to an integer. -/
def ofInt (n : Int) : Float := ofRatio (n < 0) n.natAbs 1

/-- The double nearest to `digits * 10 ^ exponent`.  Powers of ten far outside the range of doubles
are settled by the number of digits alone. -/
def ofDecimal (negative : Bool) (digits : Nat) (exponent : Int) : Float :=
  let places : Int := (Nat.toDigits 10 digits).length
  if digits = 0 then ofPattern negative 0
  else if 400 < places + exponent then ofPattern negative infinityBits
  else if places + exponent < -400 then ofPattern negative 0
  else ofRatio negative (digits * Nat.pow 10 exponent.toNat) (Nat.pow 10 (-exponent).toNat)

/-- Positive infinity. -/
def infinity : Float := ofPattern false infinityBits

/-- Negative infinity. -/
def negativeInfinity : Float := ofPattern true infinityBits

/-- The number that is no number. -/
def nan : Float := Float.ofBits 0x7FF8000000000000

end CatalogGuard.Number.Binary64
