import CatalogGuard.Number.Layout
import CatalogGuard.Text.Quoted
import CatalogGuard.Text.Search

/-!
# Properties and filters

The data of an entry are named values of four kinds.  A filter compares the value of one property
with a value of its own.

Equality and its negation compare any two values, numbers as the processor compares doubles, so
that a NaN equals nothing and the two zeros are equal.  The text operators apply to two strings and
the order operators to two numbers; on other kinds, and on an entry without the property, no filter
holds, not even `!=`.
-/

namespace CatalogGuard

open Text (afterFirst occursIn)

/-- The value of a property. -/
inductive PropertyValue where
  /-- A text. -/
  | string (text : String)
  /-- A number. -/
  | number (value : Float)
  /-- A truth value. -/
  | bool (value : Bool)
  /-- No value. -/
  | null
  deriving Repr, BEq

/-- The canonical text of a value. -/
def PropertyValue.canonical : PropertyValue → List Char
  | .string text => Text.Quoted.encode text.toList
  | .number value => Number.display value
  | .bool true => ['t', 'r', 'u', 'e']
  | .bool false => ['f', 'a', 'l', 's', 'e']
  | .null => ['n', 'u', 'l', 'l']

/-- How a filter compares. -/
inductive Comparison where
  | equal
  | notEqual
  | contains
  | startsWith
  | endsWith
  | less
  | lessOrEqual
  | greater
  | greaterOrEqual
  deriving Repr, DecidableEq

namespace Comparison

/-- The canonical sign of a comparison. -/
def sign : Comparison → String
  | .equal => "="
  | .notEqual => "!="
  | .contains => "*="
  | .startsWith => "^="
  | .endsWith => "$="
  | .less => "<"
  | .lessOrEqual => "<="
  | .greater => ">"
  | .greaterOrEqual => ">="

/-- All comparisons. -/
def all : List Comparison :=
  [.equal, .notEqual, .contains, .startsWith, .endsWith, .less, .lessOrEqual, .greater,
    .greaterOrEqual]

/-- The comparison with a canonical sign. -/
def ofSign? (sign : String) : Option Comparison :=
  all.find? fun comparison => comparison.sign == sign

/-- The comparison that a token stands for: a canonical sign, or `==` for equality. -/
def ofToken? (token : String) : Option Comparison :=
  if token = "==" then some .equal else ofSign? token

/-- Whether a comparison holds between the value of a property and that of a filter. -/
def holds : Comparison → PropertyValue → PropertyValue → Bool
  | .equal, actual, wanted => actual == wanted
  | .notEqual, actual, wanted => actual != wanted
  | .contains, .string actual, .string wanted => occursIn wanted.toList actual.toList
  | .startsWith, .string actual, .string wanted => wanted.toList.isPrefixOf actual.toList
  | .endsWith, .string actual, .string wanted => wanted.toList.isSuffixOf actual.toList
  | .less, .number actual, .number wanted => actual < wanted
  | .lessOrEqual, .number actual, .number wanted => actual ≤ wanted
  | .greater, .number actual, .number wanted => wanted < actual
  | .greaterOrEqual, .number actual, .number wanted => wanted ≤ actual
  | _, _, _ => false

end Comparison

/-- A condition on one property of an entry. -/
structure PropertyFilter where
  /-- The name of the property. -/
  name : String
  /-- How it is compared. -/
  comparison : Comparison
  /-- What it is compared with. -/
  value : PropertyValue
  deriving Repr, BEq

namespace PropertyFilter

/-- Whether a filter holds of a property, given its value if the entry has it. -/
def accepts (filter : PropertyFilter) : Option PropertyValue → Bool
  | none => false
  | some actual => filter.comparison.holds actual filter.value

/-- The canonical text of a filter. -/
def canonical (filter : PropertyFilter) : List Char :=
  '[' :: '@' :: (filter.name.toList ++ filter.comparison.sign.toList ++ filter.value.canonical ++
    [']'])

end PropertyFilter

end CatalogGuard
