import CatalogGuard.Fields
import CatalogGuard.Json.Number
import CatalogGuard.Json.Reader
import CatalogGuard.Settings.Tree

/-!
# Settings in JSON

A text holds one object, whose fields are the settings; the last field of a name counts.  A whole
number of 64 bits is kept as it is, and any other number becomes a double.

Every part has to make sense, also one that no setting uses: a name or text with a lone surrogate,
a number too large for a double, and lists and objects too deep in each other are refused.
-/

namespace CatalogGuard.Settings

/-- How many lists and objects may stand in each other. -/
def jsonDepth : Nat := 127

/-- The tree that a number stands for. -/
def Tree.ofJsonNumber? (spelling : List Char) : Option Tree :=
  let parts := Json.NumberParts.ofSpelling spelling
  let n : Int := Number.natOfDigits parts.whole
  let n := if parts.negative then -n else n
  let isWhole := spelling.all fun c => c == '-' || Number.isAsciiDigit c
  if isWhole ∧ spelling ≠ ['-', '0'] ∧ -0x8000000000000000 ≤ n ∧ n < 0x8000000000000000 then
    some (.ofInt n)
  else
    (Json.numberValue? spelling).map fun x => .scalar (String.ofList (Number.display x))

mutual

/-- The tree that a value stands for, with a number of further levels allowed. -/
def Tree.ofJson? : Nat → Json → Option Tree
  | _, .null => some .nothing
  | _, .bool b => some (.ofBool b)
  | _, .number spelling => Tree.ofJsonNumber? spelling
  | _, .string spelling => (Json.decoded? spelling).map Tree.text
  | 0, .array _ => none
  | 0, .object _ => none
  | depth + 1, .array items => (treesOfJson? depth items).map Tree.list
  | depth + 1, .object fields => (fieldsOfJson? depth [] fields).map Tree.table

/-- The trees that values stand for. -/
def treesOfJson? : Nat → List Json → Option (List Tree)
  | _, [] => some []
  | depth, item :: rest => do
    let tree ← Tree.ofJson? depth item
    (treesOfJson? depth rest).map (tree :: ·)

/-- The fields that named values stand for, added to fields that were read before. -/
def fieldsOfJson? : Nat → List (String × Tree) → List (List Char × Json) →
    Option (List (String × Tree))
  | _, read, [] => some read
  | depth, read, (name, value) :: rest => do
    let tree ← Tree.ofJson? depth value
    fieldsOfJson? depth (setField read (← Json.decoded? name) tree) rest

end

/-- The settings in a text. -/
def readJson? (text : String) : Option (List (String × Tree)) := do
  match ← Tree.ofJson? jsonDepth (← Json.parse? text.toList) with
  | .table fields => some fields
  | _ => none

end CatalogGuard.Settings
