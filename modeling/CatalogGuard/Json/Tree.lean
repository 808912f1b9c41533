import CatalogGuard.Text.Quoted

/-!
# JSON values

A value keeps its numbers and strings as they are spelled.  What a number is worth, and whether the
escapes of a string make sense together, is asked only where the value is used: a part of a
document that nobody looks at may hold a lone surrogate or a number too large for a double.
-/

namespace CatalogGuard

/-- A JSON value. -/
inductive Json where
  /-- `null`. -/
  | null
  /-- A truth value. -/
  | bool (value : Bool)
  /-- A number, as spelled. -/
  | number (spelling : List Char)
  /-- A string, as spelled between its quotes. -/
  | string (spelling : List Char)
  /-- A list of values. -/
  | array (items : List Json)
  /-- Named values in their order; the names are spelled like strings. -/
  | object (fields : List (List Char × Json))
  deriving Repr

namespace Json

/-- The value of a text. -/
def ofText (text : String) : Json := .string (Text.Quoted.escapeAll text.toList)

/-- An object with the given names. -/
def record (fields : List (String × Json)) : Json :=
  .object (fields.map fun (name, value) => (Text.Quoted.escapeAll name.toList, value))

/-- The text of a spelling between quotes, if all its escapes make sense. -/
def decoded? (spelling : List Char) : Option String :=
  match Text.Quoted.decodeBody (spelling ++ ['\x22']) with
  | .ok (text, []) => some (String.ofList text)
  | _ => none

/-- The text of a string. -/
def text? : Json → Option String
  | .string spelling => decoded? spelling
  | _ => none

end Json

end CatalogGuard
