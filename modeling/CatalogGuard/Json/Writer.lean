import CatalogGuard.Json.Tree

/-!
# Writing JSON

Two layouts: one without any blanks, and one with a line for every item, indented by two spaces
for each level.  In the second an empty list or object still takes no line of its own.
-/

namespace CatalogGuard.Json

/-- A string in its quotes. -/
def quoted (spelling : List Char) : List Char := '\x22' :: (spelling ++ ['\x22'])

mutual

/-- The text of a value without blanks. -/
def compact : Json → List Char
  | .null => ['n', 'u', 'l', 'l']
  | .bool true => ['t', 'r', 'u', 'e']
  | .bool false => ['f', 'a', 'l', 's', 'e']
  | .number spelling => spelling
  | .string spelling => quoted spelling
  | .array items => '[' :: compactItems items
  | .object fields => '\x7b' :: compactFields fields

/-- The items of a list, with the bracket that ends it. -/
def compactItems : List Json → List Char
  | [] => [']']
  | [item] => compact item ++ [']']
  | item :: next :: rest => compact item ++ ',' :: compactItems (next :: rest)

/-- The fields of an object, with the brace that ends it. -/
def compactFields : List (List Char × Json) → List Char
  | [] => ['\x7d']
  | [(name, value)] => quoted name ++ ':' :: (compact value ++ ['\x7d'])
  | (name, value) :: next :: rest =>
    quoted name ++ ':' :: (compact value ++ ',' :: compactFields (next :: rest))

end

/-- A line break and the blanks of a level. -/
def lineStart (level : Nat) : List Char := '\n' :: List.replicate (2 * level) ' '

mutual

/-- The text of a value with a line for every item, at a level of indentation. -/
def indented (level : Nat) : Json → List Char
  | .array (item :: rest) => '[' :: indentedItems level (item :: rest)
  | .object (field :: rest) => '\x7b' :: indentedFields level (field :: rest)
  | .null => ['n', 'u', 'l', 'l']
  | .bool true => ['t', 'r', 'u', 'e']
  | .bool false => ['f', 'a', 'l', 's', 'e']
  | .number spelling => spelling
  | .string spelling => quoted spelling
  | .array [] => ['[', ']']
  | .object [] => ['\x7b', '\x7d']

/-- The items of a list, with the bracket that ends it. -/
def indentedItems (level : Nat) : List Json → List Char
  | [] => lineStart level ++ [']']
  | [item] => lineStart (level + 1) ++ indented (level + 1) item ++ lineStart level ++ [']']
  | item :: next :: rest =>
    lineStart (level + 1) ++ indented (level + 1) item ++
      ',' :: indentedItems level (next :: rest)

/-- The fields of an object, with the brace that ends it. -/
def indentedFields (level : Nat) : List (List Char × Json) → List Char
  | [] => lineStart level ++ ['\x7d']
  | [(name, value)] =>
    lineStart (level + 1) ++ quoted name ++ ':' :: ' ' :: indented (level + 1) value ++
      lineStart level ++ ['\x7d']
  | (name, value) :: next :: rest =>
    lineStart (level + 1) ++ quoted name ++ ':' :: ' ' :: indented (level + 1) value ++
      ',' :: indentedFields level (next :: rest)

end

/-- The compact text of a value. -/
def toCompact (value : Json) : String := String.ofList value.compact

/-- The indented text of a value. -/
def toIndented (value : Json) : String := String.ofList (value.indented 0)

end CatalogGuard.Json
