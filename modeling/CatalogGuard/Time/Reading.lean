import CatalogGuard.Number.Layout
import CatalogGuard.Text.Blank
import CatalogGuard.Time.Instant

/-!
# Reading instants

Dates and times are read field by field.  A year has up to four digits, or any number of them
behind a sign; the other fields have up to two.  Blanks may stand before a number.  A field out of
its own range is refused at once, before what follows is looked at; a day its month does not have
is only refused at the end.

Rules and the command line use `YYYY-MM-DDTHH:mm`.  Serialised data adds seconds and a fraction,
both of which may be missing, and allows blanks before the separators too.
-/

namespace CatalogGuard.Instant

/-- Why a text names no instant. -/
inductive Fault where
  /-- A field, or the whole date, does not exist. -/
  | outOfRange
  /-- Something other than the expected digit or separator. -/
  | invalidCharacters
  /-- The text ends too early. -/
  | tooShort
  /-- Text is left behind the last field. -/
  | trailingInput
  deriving Repr, DecidableEq

/-- The wording of a fault. -/
def Fault.message : Fault → String
  | .outOfRange => "input is out of range"
  | .invalidCharacters => "input contains invalid characters"
  | .tooShort => "premature end of input"
  | .trailingInput => "trailing input"

open Number (isAsciiDigit natOfDigits)
open Text (skipBlanks)

/-- Reads a number of one digit or more, at most `width` of them. -/
def readNumber (width : Nat) (text : List Char) : Except Fault (Nat × List Char) :=
  let digits := (text.take width).takeWhile isAsciiDigit
  if text.isEmpty then .error .tooShort
  else if digits.isEmpty then .error .invalidCharacters
  else .ok (natOfDigits digits, text.drop digits.length)

/-- Reads a field with at most two digits that lies between two bounds. -/
def readField (low high : Nat) (text : List Char) :
    Except Fault (Nat × List Char) := do
  let (n, rest) ← readNumber 2 (skipBlanks text)
  if low ≤ n ∧ n ≤ high then .ok (n, rest) else .error .outOfRange

/-- Reads a year. -/
def readYear (text : List Char) : Except Fault (Int × List Char) := do
  match skipBlanks text with
  | '-' :: rest =>
    let (n, rest) ← readNumber rest.length rest
    .ok (-(n : Int), rest)
  | '+' :: rest =>
    let (n, rest) ← readNumber rest.length rest
    .ok ((n : Int), rest)
  | rest =>
    let (n, rest) ← readNumber 4 rest
    .ok ((n : Int), rest)

/-- Reads a separator. -/
def readSeparator (c : Char) : List Char → Except Fault (List Char)
  | [] => .error .tooShort
  | d :: rest => if d = c then .ok rest else .error .invalidCharacters

/-- Reads the fields down to the minute.  `gap` is applied before each separator. -/
def readDateAndMinute (gap : List Char → List Char) (text : List Char) :
    Except Fault (Fields × List Char) := do
  let (year, text) ← readYear text
  let text ← readSeparator '-' (gap text)
  let (month, text) ← readField 1 12 text
  let text ← readSeparator '-' (gap text)
  let (day, text) ← readField 1 31 text
  let text ← readSeparator 'T' (gap text)
  let (hour, text) ← readField 0 23 text
  let text ← readSeparator ':' (gap text)
  let (minute, text) ← readField 0 59 text
  .ok ({ year, month, day, hour, minute, second := 0, nanosecond := 0 }, text)

/-- The instant with the given fields. -/
def check (fields : Fields) : Except Fault Instant :=
  match ofFields? fields with
  | some t => .ok t
  | none => .error .outOfRange

/-- Reads the form `YYYY-MM-DDTHH:mm`. -/
def ofMinutes (text : List Char) : Except Fault Instant := do
  let (fields, rest) ← readDateAndMinute id text
  if rest.isEmpty then check fields else .error .trailingInput

/-- Reads the digits of a fraction of a second; those beyond the ninth are dropped. -/
def readFraction (text : List Char) : Except Fault (Nat × List Char) :=
  match text with
  | '.' :: rest => do
    let (n, _) ← readNumber 9 rest
    let digits := rest.takeWhile isAsciiDigit
    .ok (n * Nat.pow 10 (9 - digits.length), rest.dropWhile isAsciiDigit)
  | rest => .ok (0, rest)

/-- Reads seconds and their fraction. -/
def readSeconds (text : List Char) : Except Fault ((Nat × Nat) × List Char) := do
  let text ← readSeparator ':' (skipBlanks text)
  let (second, text) ← readField 0 60 text
  let (nanosecond, text) ← readFraction text
  .ok ((second, nanosecond), text)

/-- Reads the form of serialised data. -/
def ofSeconds (text : List Char) : Except Fault Instant := do
  let (fields, rest) ← readDateAndMinute skipBlanks text
  let ((second, nanosecond), rest) :=
    match readSeconds rest with
    | .ok read => read
    | .error _ => ((0, 0), rest)
  if (skipBlanks rest).isEmpty then check { fields with second, nanosecond }
  else .error .trailingInput

end CatalogGuard.Instant
