/-!
# Trees of settings

What a settings file says, whatever its format: texts, other scalars, lists and tables.  A scalar
that is no text counts as the text it is written as wherever a text is asked for, so nothing but
that text is kept of it.
-/

namespace CatalogGuard.Settings

/-- A value in a tree of settings. -/
inductive Tree where
  /-- A text. -/
  | text (text : String)
  /-- A number or a truth value, as it is written. -/
  | scalar (spelling : String)
  /-- The value that says there is none. -/
  | nothing
  /-- A list of values. -/
  | list (items : List Tree)
  /-- Named values. -/
  | table (fields : List (String × Tree))
  deriving Repr

namespace Tree

/-- A truth value. -/
def ofBool (value : Bool) : Tree := .scalar (if value then "true" else "false")

/-- A whole number. -/
def ofInt (value : Int) : Tree := .scalar (toString value)

/-- The fields of a table; any other value has none. -/
def fields : Tree → List (String × Tree)
  | .table fields => fields
  | _ => []

/-- The items of a list; any other value has none. -/
def items : Tree → List Tree
  | .list items => items
  | _ => []

/-- The value of a field of a table. -/
def field? (name : String) (tree : Tree) : Option Tree := tree.fields.lookup name

/-- The text of a text or of another scalar. -/
def text? : Tree → Option String
  | .text value => some value
  | .scalar spelling => some spelling
  | _ => none

end Tree

end CatalogGuard.Settings
