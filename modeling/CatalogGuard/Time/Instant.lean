/-!
# Instants

A calendar date of the proleptic Gregorian calendar with a time of day, without a time zone.  Only
real dates and times are values of `Instant`: the check is a field of the type, so that nothing
built from an instant has to ask again.

Instants are compared by `stamp`, which counts in a mixed radix wide enough for every field and
therefore orders instants as their fields do, most significant first.
-/

namespace CatalogGuard

/-- Whether a year of the Gregorian calendar has a 29 February. -/
def isLeapYear (year : Int) : Bool := year % 4 = 0 && (year % 100 ≠ 0 || year % 400 = 0)

/-- The number of days of a month. -/
def daysInMonth (year : Int) (month : Nat) : Nat :=
  match month with
  | 2 => if isLeapYear year then 29 else 28
  | 4 | 6 | 9 | 11 => 30
  | _ => 31

/-- The fields of a date and time, real or not. -/
structure Instant.Fields where
  /-- The year, zero and negative ones included. -/
  year : Int
  /-- The month, from one. -/
  month : Nat
  /-- The day of the month, from one. -/
  day : Nat
  /-- The hour, below twenty-four. -/
  hour : Nat
  /-- The minute, below sixty. -/
  minute : Nat
  /-- The second; sixty is a leap second. -/
  second : Nat
  /-- The part of a second, in nanoseconds. -/
  nanosecond : Nat
  deriving Repr, DecidableEq

/-- Whether the fields name a date and time of the supported years. -/
def Instant.Fields.isReal (f : Instant.Fields) : Bool :=
  -262143 ≤ f.year && f.year ≤ 262142 && 1 ≤ f.month && f.month ≤ 12 && 1 ≤ f.day &&
    f.day ≤ daysInMonth f.year f.month && f.hour ≤ 23 && f.minute ≤ 59 && f.second ≤ 60 &&
    f.nanosecond < 1000000000

/-- A real date and time. -/
structure Instant extends Instant.Fields where
  /-- The date and time exist. -/
  real : toFields.isReal = true
  deriving Repr, DecidableEq

namespace Instant

/-- The instant with the given fields, if they are real. -/
def ofFields? (fields : Fields) : Option Instant :=
  if h : fields.isReal = true then some ⟨fields, h⟩ else none

/-- The place of an instant in time, in a mixed radix. -/
def stamp (t : Instant) : Int :=
  (((((t.year * 13 + t.month) * 32 + t.day) * 24 + t.hour) * 60 + t.minute) * 61 + t.second) *
    1000000000 + t.nanosecond

instance : LE Instant := ⟨fun a b => a.stamp ≤ b.stamp⟩

instance (a b : Instant) : Decidable (a ≤ b) := inferInstanceAs (Decidable (a.stamp ≤ b.stamp))

/-! ### Writing -/

/-- A number with leading zeros up to the given width. -/
def padded (width n : Nat) : List Char :=
  let digits := Nat.toDigits 10 n
  List.replicate (width - digits.length) '0' ++ digits

/-- Four digits, with a sign in front outside the years 0 to 9999. -/
def yearChars (year : Int) : List Char :=
  if year < 0 then '-' :: padded 4 year.natAbs
  else if 9999 < year then '+' :: padded 4 year.natAbs
  else padded 4 year.natAbs

/-- `YYYY-MM-DDTHH:mm`, the form used in rules. -/
def toMinutes (t : Instant) : List Char :=
  yearChars t.year ++ '-' :: padded 2 t.month ++ '-' :: padded 2 t.day ++ 'T' ::
    padded 2 t.hour ++ ':' :: padded 2 t.minute

/-- The fraction of a second, in as many groups of three digits as it needs. -/
def fractionChars (nanosecond : Nat) : List Char :=
  if nanosecond = 0 then []
  else if nanosecond % 1000000 = 0 then '.' :: padded 3 (nanosecond / 1000000)
  else if nanosecond % 1000 = 0 then '.' :: padded 6 (nanosecond / 1000)
  else '.' :: padded 9 nanosecond

/-- `YYYY-MM-DDTHH:mm:ss` and the fraction, the form used in serialised data. -/
def toSeconds (t : Instant) : List Char :=
  t.toMinutes ++ ':' :: padded 2 t.second ++ fractionChars t.nanosecond

end Instant

end CatalogGuard
