import CatalogGuard.Number.Layout
import CatalogGuard.Time.Instant
import CatalogGuard.Toml.Lexical
import CatalogGuard.Toml.Value

/-!
# Numbers, dates and words of TOML

A scalar that is no string is one run of characters, except that a single space may stand between a
date and a time.  Whole numbers have 64 bits.
-/

namespace CatalogGuard.Toml

open Number (isAsciiDigit natOfDigits takeSign)

/-- Whether a text is digits with single underscores between two of them. -/
def areDigits (isDigit : Char → Bool) : List Char → Bool
  | [] => false
  | [c] => isDigit c
  | c :: '_' :: rest => isDigit c && areDigits isDigit rest
  | c :: rest => isDigit c && areDigits isDigit rest

/-- Whether a text is a decimal whole number without a sign: no zero may lead other digits. -/
def isWhole (text : List Char) : Bool :=
  areDigits isAsciiDigit text && (text.head? != some '0' || text.length == 1)

/-- The number that digits and underscores stand for in a base. -/
def numberOf (base : Nat) (digits : List Char) : Nat :=
  (digits.filterMap Text.Quoted.hexValue).foldl (fun n d => base * n + d) 0

/-- A whole number of 64 bits. -/
def integer? (n : Int) : Option Value :=
  if -0x8000000000000000 ≤ n ∧ n < 0x8000000000000000 then some (.integer n) else none

/-- A whole number in a base other than ten. -/
def basedInteger? (base : Nat) (digits : List Char) : Option Value :=
  let isDigit (c : Char) : Bool := (Text.Quoted.hexValue c).any fun n => n < base
  if areDigits isDigit digits then integer? (numberOf base digits) else none

/-- The power of ten behind `e`. -/
def exponent? (text : List Char) : Option Int :=
  let (negative, digits) := takeSign text
  if areDigits isAsciiDigit digits then
    some (if negative then -(numberOf 10 digits : Int) else numberOf 10 digits)
  else none

/-- A number with a fraction or an exponent.  One that is too large for a double is refused; one
that is too small is minus infinity. -/
def float? (negative : Bool) (text : List Char) : Option Value :=
  let isMark (c : Char) : Bool := c == 'e' || c == 'E'
  let mantissa := text.takeWhile fun c => !isMark c
  let whole := mantissa.takeWhile (· != '.')
  let fraction := (mantissa.dropWhile (· != '.')).drop 1
  let point := mantissa.contains '.'
  let power :=
    match text.dropWhile fun c => !isMark c with
    | [] => some 0
    | _ :: power => exponent? power
  if isWhole whole && (!point || areDigits isAsciiDigit fraction) then
    power.bind fun e =>
      let places := (fraction.filter (· != '_')).length
      let x := Number.Binary64.ofDecimal negative (numberOf 10 (whole ++ fraction)) (e - places)
      if x.isInf && !negative then none else some (.float x)
  else none

/-- A number. -/
def number? (text : List Char) : Option Value :=
  match text with
  | '0' :: 'x' :: digits => basedInteger? 16 digits
  | '0' :: 'o' :: digits => basedInteger? 8 digits
  | '0' :: 'b' :: digits => basedInteger? 2 digits
  | text =>
    let (negative, rest) := takeSign text
    if rest = ['i', 'n', 'f'] then
      some (.float (Number.Binary64.ofPattern negative Number.Binary64.infinityBits))
    else if rest = ['n', 'a', 'n'] then some (.float Number.Binary64.nan)
    else if isWhole rest then
      let n := numberOf 10 rest
      integer? (if negative then -(n : Int) else n)
    else float? negative rest

/-! ### Dates and times -/

/-- The number of exactly two digits between two bounds, and what follows. -/
def twoDigits (low high : Nat) : List Char → Option (Nat × List Char)
  | a :: b :: rest =>
    let n := natOfDigits [a, b]
    if isAsciiDigit a && isAsciiDigit b && low ≤ n && n ≤ high then some (n, rest) else none
  | _ => none

/-- A date in normal form, and what follows. -/
def takeDate (text : List Char) : Option (List Char × List Char) := do
  let year := text.take 4
  if year.length = 4 ∧ year.all isAsciiDigit then
    match text.drop 4 with
    | '-' :: rest =>
      let (month, rest) ← twoDigits 1 12 rest
      match rest with
      | '-' :: rest =>
        let (_, rest) ← twoDigits 1 (daysInMonth (natOfDigits year) month) rest
        some (text.take 10, rest)
      | _ => none
    | _ => none
  else none

/-- A fraction of a second in normal form: at most nine digits, without zeros at the end. -/
def normalFraction (digits : List Char) : List Char :=
  match ((digits.take 9).reverse.dropWhile (· == '0')).reverse with
  | [] => []
  | digits => '.' :: digits

/-- A time of day in normal form, and what follows. -/
def takeTime (text : List Char) : Option (List Char × List Char) := do
  let (_, rest) ← twoDigits 0 23 text
  match rest with
  | ':' :: rest =>
    let (_, rest) ← twoDigits 0 59 rest
    match rest with
    | ':' :: rest =>
      let (_, rest) ← twoDigits 0 60 rest
      match rest with
      | '.' :: rest =>
        let digits := rest.takeWhile isAsciiDigit
        if digits.isEmpty then none
        else some (text.take 8 ++ normalFraction digits, rest.dropWhile isAsciiDigit)
      | rest => some (text.take 8, rest)
    | _ => none
  | _ => none

/-- An offset from universal time in normal form, where an offset of nothing has a plus sign; a text
that has none is left alone. -/
def takeOffset (text : List Char) : Option (List Char × List Char) :=
  match text with
  | [] => some ([], [])
  | c :: rest =>
    if c = 'Z' ∨ c = 'z' then some (['Z'], rest)
    else if c = '+' ∨ c = '-' then do
      let (_, after) ← twoDigits 0 23 rest
      match after with
      | ':' :: after =>
        let (_, after) ← twoDigits 0 59 after
        let offset := rest.take 5
        let sign := if offset = ['0', '0', ':', '0', '0'] then '+' else c
        some (sign :: offset, after)
      | _ => none
    else some ([], text)

/-- A date, a time or both, and what follows. -/
def takeDateTime (text : List Char) : Option (Value × List Char) :=
  match takeDate text with
  | some (date, rest) =>
    let timed : Option (List Char × List Char) :=
      match rest with
      | c :: after =>
        if c = 'T' ∨ c = 't' ∨ (c = ' ' ∧ after.head?.any isAsciiDigit) then some ([c], after)
        else none
      | [] => none
    match timed with
    | none => some (.dateTime (String.ofList date), rest)
    | some (_, after) => do
      let (time, rest) ← takeTime after
      let (offset, rest) ← takeOffset rest
      some (.dateTime (String.ofList (date ++ 'T' :: time ++ offset)), rest)
  | none => (takeTime text).map fun (time, rest) => (.dateTime (String.ofList time), rest)

/-- Whether a character may stand in a number or a word. -/
def isScalarChar (c : Char) : Bool := isKeyChar c || c == '+' || c == '.'

/-- Whether a text starts like a date or a time: four digits and a dash, or two and a colon. -/
def looksLikeDateTime (text : List Char) : Bool :=
  let digits := text.takeWhile isAsciiDigit
  match text.drop digits.length with
  | '-' :: _ => digits.length == 4
  | ':' :: _ => digits.length == 2
  | _ => false

/-- Reads a scalar that is no string. -/
def takeScalar (text : List Char) : Option (Value × List Char) :=
  if looksLikeDateTime text then takeDateTime text
  else
    let word := text.takeWhile isScalarChar
    let rest := text.dropWhile isScalarChar
    if word = ['t', 'r', 'u', 'e'] then some (.bool true, rest)
    else if word = ['f', 'a', 'l', 's', 'e'] then some (.bool false, rest)
    else (number? word).map fun value => (value, rest)

end CatalogGuard.Toml
