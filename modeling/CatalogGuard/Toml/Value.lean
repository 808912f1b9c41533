/-!
# TOML values

The values of a TOML document.  A date or time is kept as its normal text, since settings only ever
use it as a text.
-/

namespace CatalogGuard.Toml

/-- A value of a document. -/
inductive Value where
  /-- A text. -/
  | string (text : String)
  /-- A whole number. -/
  | integer (value : Int)
  /-- A number with a fraction or an exponent. -/
  | float (value : Float)
  /-- A truth value. -/
  | bool (value : Bool)
  /-- A date, a time or both, in normal form. -/
  | dateTime (text : String)
  /-- A list of values. -/
  | array (items : List Value)
  /-- Named values. -/
  | table (fields : List (String × Value))
  deriving Repr

end CatalogGuard.Toml
