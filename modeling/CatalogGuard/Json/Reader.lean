import CatalogGuard.Json.Tree
import CatalogGuard.Number.Layout

/-!
# Reading JSON

The grammar of JSON, with every value kept as it is spelled.  The readers of lists and objects take
the rest of the text and a bound on the number of steps; every step takes a character, so the
length of the text is bound enough.
-/

namespace CatalogGuard.Json

open Number (isAsciiDigit)
open Text.Quoted (hexValue shortEscape)

/-- Whether a character may stand between two tokens. -/
def isSpace (c : Char) : Bool := c == ' ' || c == '\n' || c == '\t' || c == '\r'

/-- A text without the spaces it starts with. -/
def skipSpace (text : List Char) : List Char := text.dropWhile isSpace

/-- Splits a text behind an opening quote into the spelling of the string and the text behind the
closing quote. -/
def stringBody : List Char → Option (List Char × List Char)
  | [] => none
  | '\x22' :: rest => some ([], rest)
  | '\\' :: 'u' :: a :: b :: c :: d :: rest =>
    if [a, b, c, d].all fun digit => (hexValue digit).isSome then
      (stringBody rest).map fun (spelling, rest) =>
        ('\\' :: 'u' :: a :: b :: c :: d :: spelling, rest)
    else none
  | '\\' :: c :: rest =>
    if (shortEscape c).isSome then
      (stringBody rest).map fun (spelling, rest) => ('\\' :: c :: spelling, rest)
    else none
  | c :: rest =>
    if c.toNat < 0x20 || c == '\\' then none
    else (stringBody rest).map fun (spelling, rest) => (c :: spelling, rest)

/-- Splits off the digits of a whole number, which starts with a zero only if it is zero. -/
def wholeDigits (text : List Char) : Option (List Char × List Char) :=
  match text with
  | '0' :: rest => some (['0'], rest)
  | text =>
    let digits := text.takeWhile isAsciiDigit
    if digits.isEmpty then none else some (digits, text.dropWhile isAsciiDigit)

/-- Splits off a point and digits, if a point comes next. -/
def fractionDigits : List Char → Option (List Char × List Char)
  | '.' :: rest =>
    let digits := rest.takeWhile isAsciiDigit
    if digits.isEmpty then none else some ('.' :: digits, rest.dropWhile isAsciiDigit)
  | text => some ([], text)

/-- Splits off a power of ten, if one comes next. -/
def exponentDigits : List Char → Option (List Char × List Char)
  | [] => some ([], [])
  | c :: rest =>
    if c = 'e' ∨ c = 'E' then
      let (sign, rest) :=
        match rest with
        | '+' :: rest => (['+'], rest)
        | '-' :: rest => (['-'], rest)
        | rest => ([], rest)
      let digits := rest.takeWhile isAsciiDigit
      if digits.isEmpty then none
      else some (c :: sign ++ digits, rest.dropWhile isAsciiDigit)
    else some ([], c :: rest)

/-- Splits off the spelling of a number. -/
def numberSpelling (text : List Char) : Option (List Char × List Char) := do
  let (sign, rest) :=
    match text with
    | '-' :: rest => (['-'], rest)
    | rest => ([], rest)
  let (whole, rest) ← wholeDigits rest
  let (fraction, rest) ← fractionDigits rest
  let (exponent, rest) ← exponentDigits rest
  some (sign ++ whole ++ fraction ++ exponent, rest)

/-- Reads the words and the numbers. -/
def scalar (text : List Char) : Option (Json × List Char) :=
  match ['n', 'u', 'l', 'l'].isPrefixOf? text with
  | some rest => some (.null, rest)
  | none =>
    match ['t', 'r', 'u', 'e'].isPrefixOf? text with
    | some rest => some (.bool true, rest)
    | none =>
      match ['f', 'a', 'l', 's', 'e'].isPrefixOf? text with
      | some rest => some (.bool false, rest)
      | none => (numberSpelling text).map fun (spelling, rest) => (.number spelling, rest)

mutual

/-- Reads a value that starts with the next character. -/
def value : Nat → List Char → Option (Json × List Char)
  | 0, _ => none
  | bound + 1, text =>
    match text with
    | '\x22' :: rest => (stringBody rest).map fun (spelling, rest) => (.string spelling, rest)
    | '[' :: rest =>
      match skipSpace rest with
      | ']' :: rest => some (.array [], rest)
      | rest => (items bound rest).map fun (items, rest) => (.array items, rest)
    | '\x7b' :: rest =>
      match skipSpace rest with
      | '\x7d' :: rest => some (.object [], rest)
      | rest => (fields bound rest).map fun (fields, rest) => (.object fields, rest)
    | text => scalar text

/-- Reads the items of a list, the closing bracket included. -/
def items : Nat → List Char → Option (List Json × List Char)
  | 0, _ => none
  | bound + 1, text => do
    let (item, rest) ← value bound text
    match skipSpace rest with
    | ',' :: rest =>
      let (more, rest) ← items bound (skipSpace rest)
      some (item :: more, rest)
    | ']' :: rest => some ([item], rest)
    | _ => none

/-- Reads the fields of an object, the closing brace included. -/
def fields : Nat → List Char → Option (List (List Char × Json) × List Char)
  | 0, _ => none
  | bound + 1, text => do
    match text with
    | '\x22' :: rest =>
      let (name, rest) ← stringBody rest
      match skipSpace rest with
      | ':' :: rest =>
        let (item, rest) ← value bound (skipSpace rest)
        match skipSpace rest with
        | ',' :: rest =>
          let (more, rest) ← fields bound (skipSpace rest)
          some ((name, item) :: more, rest)
        | '\x7d' :: rest => some ([(name, item)], rest)
        | _ => none
      | _ => none
    | _ => none

end

/-- The value that a whole text stands for. -/
def parse? (text : List Char) : Option Json :=
  match value (text.length + 1) (skipSpace text) with
  | some (read, rest) => if (skipSpace rest).isEmpty then some read else none
  | none => none

end CatalogGuard.Json
