import CatalogGuard.Settings.Tree
import CatalogGuard.Toml.Document

/-!
# Settings in TOML

A document is a table of settings.  Dates and times are texts.
-/

namespace CatalogGuard.Settings

mutual

/-- The tree that a value stands for. -/
def Tree.ofToml : Toml.Value → Tree
  | .string value => .text value
  | .integer n => .ofInt n
  | .float x => .scalar (String.ofList (Number.display x))
  | .bool b => .ofBool b
  | .dateTime value => .text value
  | .array items => .list (treesOfToml items)
  | .table fields => .table (fieldsOfToml fields)

/-- The trees that values stand for. -/
def treesOfToml : List Toml.Value → List Tree
  | [] => []
  | item :: rest => Tree.ofToml item :: treesOfToml rest

/-- The fields that named values stand for. -/
def fieldsOfToml : List (String × Toml.Value) → List (String × Tree)
  | [] => []
  | (name, value) :: rest => (name, Tree.ofToml value) :: fieldsOfToml rest

end

/-- The settings in a text. -/
def readToml? (text : String) : Option (List (String × Tree)) :=
  (Toml.parse? text).map fieldsOfToml

end CatalogGuard.Settings
