import CatalogGuard.Number.Shortest

/-!
# The written forms of numbers

Two layouts are in use.  The canonical text of a rule writes a number in full, without an exponent
whatever its size.  Serialised data writes a number in full if its leading digit stands between the
fifth decimal place and the sixteenth digit before the point, and then always with a decimal place;
other numbers get an exponent, with its sign.
-/

namespace CatalogGuard.Number

/-- The digits of a natural number. -/
def digitChars (n : Nat) : List Char := Nat.toDigits 10 n

/-- Digits with the decimal point behind the first `places` of them; missing digits are zeros.
A whole number ends in `whole`. -/
def positional (whole : List Char) (digits : List Char) (places : Int) : List Char :=
  if places ≤ 0 then '0' :: '.' :: (List.replicate (-places).toNat '0' ++ digits)
  else if digits.length ≤ places.toNat then
    digits ++ List.replicate (places.toNat - digits.length) '0' ++ whole
  else digits.take places.toNat ++ '.' :: digits.drop places.toNat

/-- One digit before the point, and a power of ten with its sign. -/
def scientific (digits : List Char) (exponent : Int) : List Char :=
  let mantissa :=
    match digits with
    | [] => []
    | [d] => [d]
    | d :: more => d :: '.' :: more
  mantissa ++ 'e' :: (if exponent < 0 then '-' else '+') :: digitChars exponent.natAbs

/-- The sign of a number. -/
def signChars (x : Float) : List Char := if Binary64.isNegative x then ['-'] else []

/-- The number in full: the shortest digits that read back, a tie going up. -/
def display (x : Float) : List Char :=
  if x.isNaN then ['N', 'a', 'N']
  else if x.isInf then signChars x ++ ['i', 'n', 'f']
  else
    let u := Binary64.unpack x
    if u.mantissa = 0 then signChars x ++ ['0']
    else
      let d := Shortest.decimal .up u
      let digits := digitChars d.digits
      signChars x ++ positional [] digits (digits.length + d.exponent)

/-- The number in serialised data; infinities and NaN have no form there. -/
def serialized? (x : Float) : Option (List Char) :=
  if x.isNaN || x.isInf then none
  else
    let u := Binary64.unpack x
    if u.mantissa = 0 then some (signChars x ++ ['0', '.', '0'])
    else
      let d := Shortest.decimal .toEven u
      let digits := digitChars d.digits
      let leading := digits.length + d.exponent - 1
      if -5 ≤ leading ∧ leading ≤ 15 then
        some (signChars x ++ positional ['.', '0'] digits (leading + 1))
      else some (signChars x ++ scientific digits leading)

/-! ### Reading -/

/-- Whether a character is one of the ten digits of ASCII. -/
def isAsciiDigit (c : Char) : Bool := '0' ≤ c && c ≤ '9'

/-- The natural number written by digits of ASCII. -/
def natOfDigits (digits : List Char) : Nat :=
  digits.foldl (fun n c => 10 * n + (c.toNat - 48)) 0

/-- An optional sign, and whether it is a minus. -/
def takeSign : List Char → Bool × List Char
  | '-' :: rest => (true, rest)
  | '+' :: rest => (false, rest)
  | text => (false, text)

/-- The power of ten written behind `e`, if the whole text is one. -/
def exponent? (text : List Char) : Option Int :=
  match text with
  | [] => some 0
  | mark :: rest =>
    if mark = 'e' ∨ mark = 'E' then
      let (negative, digits) := takeSign rest
      if digits.isEmpty || !digits.all isAsciiDigit then none
      else some (if negative then -(natOfDigits digits : Int) else natOfDigits digits)
    else none

/-- Reads a number in full or with an exponent: a sign, digits, a point and digits, with at least
one digit in all.  Only digits of ASCII count. -/
def parseFinite? (text : List Char) : Option Float :=
  let (negative, rest) := takeSign text
  let whole := rest.takeWhile isAsciiDigit
  let rest := rest.dropWhile isAsciiDigit
  let (fraction, rest) :=
    match rest with
    | '.' :: rest => (rest.takeWhile isAsciiDigit, rest.dropWhile isAsciiDigit)
    | rest => ([], rest)
  if whole.isEmpty && fraction.isEmpty then none
  else
    (exponent? rest).map fun e =>
      Binary64.ofDecimal negative (natOfDigits (whole ++ fraction)) (e - fraction.length)

/-- Reads any number, infinities and NaN included. -/
def parse? (text : List Char) : Option Float :=
  let (negative, rest) := takeSign text
  let word := rest.map Char.toLower
  if word = ['i', 'n', 'f'] ∨ word = ['i', 'n', 'f', 'i', 'n', 'i', 't', 'y'] then
    some (Binary64.ofPattern negative Binary64.infinityBits)
  else if word = ['n', 'a', 'n'] then some Binary64.nan
  else parseFinite? text

end CatalogGuard.Number
