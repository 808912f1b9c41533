import CatalogGuard.Text.Quoted

/-!
# Characters by their number

The escapes of several formats name a character by its number in hexadecimal digits.  A number that
belongs to no character, such as that of a surrogate, names none.
-/

namespace CatalogGuard.Text

/-- The number that digits write in a base up to sixteen. -/
def numberInBase? (base : Nat) (digits : List Char) : Option Nat :=
  digits.foldlM (fun n c => do
    let d ← Quoted.hexValue c
    if d < base then some (base * n + d) else none) 0

/-- The character whose number hexadecimal digits write. -/
def charOfHex? (digits : List Char) : Option Char := do
  let n ← numberInBase? 16 digits
  if n.isValidChar then some (Char.ofNat n) else none

/-- Splits off a number of hexadecimal digits that name a character. -/
def takeCharOfHex (count : Nat) (text : List Char) : Option (Char × List Char) :=
  if (text.take count).length = count then
    (charOfHex? (text.take count)).map fun c => (c, text.drop count)
  else none

/-- Splits off one to six hexadecimal digits in braces that name a character. -/
def takeCharInBraces : List Char → Option (Char × List Char)
  | '\x7b' :: rest =>
    let digits := rest.takeWhile fun c => (Quoted.hexValue c).isSome
    match rest.drop digits.length with
    | '\x7d' :: rest =>
      if digits.isEmpty || 6 < digits.length then none
      else (charOfHex? digits).map fun c => (c, rest)
    | _ => none
  | _ => none

end CatalogGuard.Text
