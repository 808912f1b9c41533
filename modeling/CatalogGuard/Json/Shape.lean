import CatalogGuard.Json.Tree

/-!
# Records and variants in JSON

A record is written as an object and read from one; it may also be given as the list of its fields
in order.  Fields that the record does not have are skipped, and a field may be missing, which the
reader of the record decides about; none may be given twice.

A variant without contents is its name, or an object with the name as only field and `null` in it.
-/

namespace CatalogGuard.Json

/-- The values under a name, among fields with decoded names. -/
def valuesOf (name : String) (fields : List (String × Json)) : List Json :=
  (fields.filter fun field => field.1 == name).map Prod.snd

/-- The value of each of the named fields of a record; a missing one is `none`. -/
def fields? (names : List String) : Json → Option (List (Option Json))
  | .object fields => do
    let decoded ← fields.mapM fun (name, value) => (decoded? name).map fun name => (name, value)
    names.mapM fun name =>
      match valuesOf name decoded with
      | [] => some none
      | [value] => some (some value)
      | _ => none
  | .array items => if items.length = names.length then some (items.map some) else none
  | _ => none

/-- The name of a variant without contents. -/
def variant? : Json → Option String
  | .string spelling => decoded? spelling
  | .object [(name, .null)] => decoded? name
  | _ => none

/-- Reads an optional field: missing and `null` both mean nothing. -/
def optional? {α : Type} (read : Json → Option α) : Option Json → Option (Option α)
  | none => some none
  | some .null => some none
  | some value => (read value).map some

end CatalogGuard.Json
