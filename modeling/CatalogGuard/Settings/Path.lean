import CatalogGuard.Number.Layout

/-!
# Paths of settings

    path := name { "." name | "[" blanks [ "-" ] digits blanks "]" }

The name of a setting is a path into a tree: names of fields with points between them, and indexes
of items in brackets.  A name is made of ASCII letters and digits, spaces, underscores and dashes.
What is no path is the name of a field as a whole.
-/

namespace CatalogGuard.Settings

open Number (isAsciiDigit natOfDigits)

/-- A step of a path. -/
inductive Step where
  /-- To the field with a name. -/
  | field (name : String)
  /-- To the item at an index; a negative index counts from the end. -/
  | item (index : Int)
  deriving Repr, DecidableEq

/-- Whether a character may stand in a name on a path. -/
def isNameChar (c : Char) : Bool := c.isAlphanum || c == ' ' || c == '_' || c == '-'

/-- Splits off a name. -/
def takeName (text : List Char) : Option (Step × List Char) :=
  match text.takeWhile isNameChar with
  | [] => none
  | name => some (.field (String.ofList name), text.dropWhile isNameChar)

/-- Splits off an index of 64 bits and the bracket that ends it. -/
def takeIndex (text : List Char) : Option (Step × List Char) :=
  let isBlank (c : Char) : Bool := c == ' ' || c == '\t'
  let text := text.dropWhile isBlank
  let (negative, text) :=
    match text with
    | '-' :: rest => (true, rest)
    | text => (false, text)
  let digits := text.takeWhile isAsciiDigit
  let index : Int := if negative then -(natOfDigits digits : Int) else natOfDigits digits
  match (text.dropWhile isAsciiDigit).dropWhile isBlank with
  | ']' :: rest =>
    if digits ≠ [] ∧ -0x8000000000000000 ≤ index ∧ index < 0x8000000000000000 then
      some (.item index, rest)
    else none
  | _ => none

/-- Reads the steps behind the first one; `bound` limits their number. -/
def laterSteps? : Nat → List Char → Option (List Step)
  | _, [] => some []
  | 0, _ => none
  | bound + 1, mark :: rest => do
    let (step, rest) ←
      match mark with
      | '.' => takeName rest
      | '[' => takeIndex rest
      | _ => none
    (laterSteps? bound rest).map (step :: ·)

/-- The steps that a name stands for. -/
def stepsOf (name : String) : List Step :=
  let steps := do
    let (step, rest) ← takeName name.toList
    (laterSteps? rest.length rest).map (step :: ·)
  steps.getD [.field name]

end CatalogGuard.Settings
