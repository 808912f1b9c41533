import CatalogGuard.Number.Binary64

/-!
# The fewest digits that read back

A double is printed with the fewest decimal digits that are nearer to it than to any other double,
and among the texts with that many digits by the one nearest to it.

The reals that round to `m * 2 ^ q` form an interval around it, with its ends if `m` is even.  For
one digit, then two, and so on, the two neighbours of the value on the grid of numbers with that
many digits are tried: if any point of the grid lies in the interval, one of these two does.
Seventeen digits always suffice.
-/

namespace CatalogGuard.Number

/-- A decimal number `digits * 10 ^ exponent`. -/
structure Decimal where
  /-- The digits, read as one natural number. -/
  digits : Nat
  /-- The power of ten of the last digit. -/
  exponent : Int
  deriving Repr, DecidableEq

/-- Which neighbour a value halfway between two grid points goes to. -/
inductive Tie where
  /-- The greater one. -/
  | up
  /-- The one with an even last digit. -/
  | toEven
  deriving Repr, DecidableEq

namespace Shortest

/-- The number of decimal digits of a natural number; zero has none. -/
def countDigits (n : Nat) : Nat := if n = 0 then 0 else (Nat.toDigits 10 n).length

/-- The exponent `e` with `10 ^ e ≤ num / den < 10 ^ (e + 1)`, for positive `num` and `den`. -/
def leadingExponent (num den : Nat) : Int :=
  if den ≤ num then (countDigits (num / den) : Int) - 1
  else -(countDigits ((den + num - 1) / num - 1) : Int)

/-- The interval of the reals that round to a double, over a common denominator. -/
structure Interval where
  /-- The denominator of the other fields. -/
  den : Nat
  /-- The value of the double. -/
  value : Nat
  /-- The lower end. -/
  low : Nat
  /-- The upper end. -/
  high : Nat
  /-- Whether the ends round to the double too. -/
  closed : Bool

/-- The interval around `m * 2 ^ q`.  Below a power of two the doubles lie twice as close. -/
def Interval.around (x : Binary64.Unpacked) : Interval :=
  let unit := Nat.pow 2 (x.exponent - 2).toNat
  let below := if x.mantissa = Nat.pow 2 52 ∧ -1074 < x.exponent then 1 else 2
  { den := Nat.pow 2 (2 - x.exponent).toNat
    value := 4 * x.mantissa * unit
    low := (4 * x.mantissa - below) * unit
    high := (4 * x.mantissa + 2) * unit
    closed := x.mantissa % 2 = 0 }

/-- Whether `d * 10 ^ s` lies in an interval. -/
def Interval.holds (i : Interval) (d : Nat) (s : Int) : Bool :=
  let point := d * Nat.pow 10 s.toNat * i.den
  let low := i.low * Nat.pow 10 (-s).toNat
  let high := i.high * Nat.pow 10 (-s).toNat
  if i.closed then low ≤ point && point ≤ high else low < point && point < high

/-- The nearest grid point in the interval, on the grid of step `10 ^ s`. -/
def onGrid (tie : Tie) (i : Interval) (s : Int) : Option Decimal :=
  let num := i.value * Nat.pow 10 (-s).toNat
  let den := i.den * Nat.pow 10 s.toNat
  let d := num / den
  match i.holds d s, i.holds (d + 1) s with
  | true, true =>
    let twice := 2 * num
    let middle := (2 * d + 1) * den
    if twice < middle then some ⟨d, s⟩
    else if middle < twice then some ⟨d + 1, s⟩
    else
      match tie with
      | .up => some ⟨d + 1, s⟩
      | .toEven => if d % 2 = 0 then some ⟨d, s⟩ else some ⟨d + 1, s⟩
  | true, false => some ⟨d, s⟩
  | false, true => some ⟨d + 1, s⟩
  | false, false => none

/-- Ten units are one unit of the next place.  On no grid but the first can the nearest point be
such a carry, because a coarser grid has that point too. -/
def carry (d : Decimal) : Decimal := if d.digits = 10 then ⟨1, d.exponent + 1⟩ else d

/-- The shortest decimal of a positive finite double. -/
def decimal (tie : Tie) (x : Binary64.Unpacked) : Decimal :=
  let i := Interval.around x
  let e := leadingExponent i.value i.den
  carry (((List.range 17).findSome? fun n : Nat => onGrid tie i (e - n)).getD
    ⟨i.value / i.den, 0⟩)

end Shortest

end CatalogGuard.Number
