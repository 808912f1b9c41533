import CatalogGuard.Text.Located
import CatalogGuard.Text.Quoted
import CatalogGuard.Time.Reading

/-!
# What can be wrong with the text of a rule

The causes for which the reader of rules and queries refuses a text, with their wording.
-/

namespace CatalogGuard.Rule

/-- A cause of refusal. -/
inductive Fault where
  /-- No blank behind `after` or `until`. -/
  | blankAfter (keyword : String)
  /-- No text of the form of a date and time. -/
  | dateTime
  /-- A text of that form that names no date and time. -/
  | badDateTime (text : List Char) (fault : Instant.Fault)
  /-- No slash before an entry pattern. -/
  | slash
  /-- No name behind a slash. -/
  | entryName
  /-- No at sign in front of the name of a property. -/
  | atSign
  /-- No name of a property behind the at sign. -/
  | propertyName
  /-- No sign of a comparison. -/
  | comparison
  /-- No value. -/
  | value
  /-- A quoted string with a flaw, at a line and column of the literal. -/
  | badString (flaw : Text.Quoted.Flaw) (line column : Nat)
  /-- A number with digits that are not those of ASCII. -/
  | badNumber (text : List Char)
  /-- No bracket at the end of a filter. -/
  | closingBracket
  deriving Repr, DecidableEq

/-- The wording of a cause. -/
def Fault.message : Fault → String
  | .blankAfter keyword => "expected whitespace after `" ++ keyword ++ "`"
  | .dateTime => "expected date-time in YYYY-MM-DDTHH:mm format"
  | .badDateTime text fault =>
    "invalid date-time `" ++ String.ofList text ++ "`: " ++ fault.message
  | .slash => "expected `/`"
  | .entryName => "expected entry name, `*` or `**`"
  | .atSign => "expected `@` before property name"
  | .propertyName => "expected property name"
  | .comparison => "expected operator (=, ==, !=, *=, ^=, $=, <, <=, >, >=)"
  | .value => "expected a string, boolean, null or number"
  | .badString flaw line column =>
    "invalid string literal: " ++ flaw.message ++ " at line " ++ toString line ++ " column " ++
      toString column
  | .badNumber text => "invalid number `" ++ String.ofList text ++ "`: invalid float literal"
  | .closingBracket => "expected `]`"

/-- What the reader says of a text that it refuses. -/
abbrev Complaint := Text.Located Fault

/-- The wording of a complaint, without its place. -/
def Complaint.detail (complaint : Complaint) : String := complaint.cause.message

/-- The wording of a complaint, with its place. -/
def Complaint.message (complaint : Complaint) : String :=
  Text.Located.message Fault.message complaint

/-- The hint that goes with every complaint. -/
def Complaint.help : String :=
  "Patterns look like `/name[@prop op value]`; rules may start with " ++
    "`after YYYY-MM-DDTHH:mm` and/or `until YYYY-MM-DDTHH:mm`"

/-- The code of every complaint. -/
def Complaint.code : String := "catalog_access::parse"

end CatalogGuard.Rule
