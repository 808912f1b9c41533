import CatalogGuard.Fields
import CatalogGuard.Settings.Tree
import CatalogGuard.Yaml.Document

/-!
# Settings in YAML

A text holds one document, a mapping whose pairs are the settings; an empty text has none.  The last
pair of a key counts, and a key is named by its text.  The words of numbers that start with a point,
such as `.inf`, are refused.
-/

namespace CatalogGuard.Settings

/-- The tree that a scalar stands for. -/
def Tree.ofYamlScalar? : Yaml.Scalar → Option Tree
  | .null => some .nothing
  | .bool b => some (.ofBool b)
  | .integer n => some (.ofInt n)
  | .real spelling =>
    (Number.parse? spelling.toList).map fun x => .scalar (String.ofList (Number.display x))
  | .text value => some (.text value)

/-- The name that a key stands for. -/
def nameOfYaml? : Yaml.Scalar → Option String
  | .null => none
  | .bool b => some (if b then "true" else "false")
  | .integer n => some (toString n)
  | .real spelling => some spelling
  | .text value => some value

mutual

/-- The tree that a value stands for. -/
def Tree.ofYaml? : Yaml.Value → Option Tree
  | .scalar scalar => Tree.ofYamlScalar? scalar
  | .sequence items => (treesOfYaml? items).map Tree.list
  | .mapping pairs => (fieldsOfYaml? [] pairs).map Tree.table

/-- The trees that values stand for. -/
def treesOfYaml? : List Yaml.Value → Option (List Tree)
  | [] => some []
  | item :: rest => do
    let tree ← Tree.ofYaml? item
    (treesOfYaml? rest).map (tree :: ·)

/-- The fields that pairs stand for, added to fields that were read before. -/
def fieldsOfYaml? : List (String × Tree) → List (Yaml.Scalar × Yaml.Value) →
    Option (List (String × Tree))
  | read, [] => some read
  | read, (key, value) :: rest => do
    let tree ← Tree.ofYaml? value
    fieldsOfYaml? (setField read (← nameOfYaml? key) tree) rest

end

/-- The settings in a text. -/
def readYaml? (text : String) : Option (List (String × Tree)) := do
  match ← Tree.ofYaml? (← Yaml.parse? text) with
  | .table fields => some fields
  | _ => none

end CatalogGuard.Settings
