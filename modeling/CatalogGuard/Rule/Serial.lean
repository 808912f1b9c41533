import CatalogGuard.Json.Number
import CatalogGuard.Json.Reader
import CatalogGuard.Json.Shape
import CatalogGuard.Json.Writer
import CatalogGuard.Rule.Matching
import CatalogGuard.Rule.Reader

/-!
# Rules as data

Queries and rules are exchanged as JSON.  A pattern is written as its text and classified anew when
it is read; no check is made that the text could stand in a rule.  The value of a filter is written
as the plain value, and its kind is read off the JSON value.  A number that JSON cannot write
becomes `null`.
-/

namespace CatalogGuard

open Json (fields? optional? variant?)

/-! ### Writing -/

/-- A value as JSON. -/
def PropertyValue.toJson : PropertyValue → Json
  | .string text => .ofText text
  | .number value =>
    match Number.serialized? value with
    | some spelling => .number spelling
    | none => .null
  | .bool value => .bool value
  | .null => .null

/-- A comparison as JSON: its sign. -/
def Comparison.toJson (comparison : Comparison) : Json := .ofText comparison.sign

/-- A filter as JSON. -/
def PropertyFilter.toJson (filter : PropertyFilter) : Json :=
  .record [("name", .ofText filter.name), ("op", filter.comparison.toJson),
    ("value", filter.value.toJson)]

/-- An optional value as JSON. -/
def Json.ofOption {α : Type} (write : α → Json) : Option α → Json
  | none => .null
  | some value => write value

/-- An entry pattern as JSON. -/
def EntryPattern.toJson (pattern : EntryPattern) : Json :=
  .record [("name", .ofText pattern.name.text),
    ("filter", .ofOption PropertyFilter.toJson pattern.filter)]

/-- A query as JSON: the list of its patterns. -/
def Query.toJson (query : Query) : Json := .array (query.map EntryPattern.toJson)

/-- An instant as JSON. -/
def Instant.toJson (t : Instant) : Json := .ofText (String.ofList t.toSeconds)

/-- A rule as JSON. -/
def Rule.toJson (rule : Rule) : Json :=
  .record [("query", Query.toJson rule.query), ("after", .ofOption Instant.toJson rule.opens),
    ("until", .ofOption Instant.toJson rule.closes)]

/-- An access level as JSON. -/
def AccessLevel.toJson (level : AccessLevel) : Json := .ofText level.text

/-- A coverage as JSON. -/
def Coverage.toJson (coverage : Coverage) : Json := .ofText coverage.text

/-- What is shown of a text that was read: its canonical form and its content. -/
def Json.reading (canonical : List Char) (content : Json) : Json :=
  .record [("canonical", .ofText (String.ofList canonical)), ("parsed", content)]

/-! ### Reading -/

/-- The value that a JSON scalar stands for. -/
def PropertyValue.ofJson? : Json → Option PropertyValue
  | .string spelling => (Json.decoded? spelling).map .string
  | .number spelling => (Json.numberValue? spelling).map .number
  | .bool value => some (.bool value)
  | .null => some .null
  | _ => none

/-- The comparison with a sign; the second spelling of equality is none here. -/
def Comparison.ofJson? (json : Json) : Option Comparison :=
  (variant? json).bind Comparison.ofSign?

/-- The filter in a record. -/
def PropertyFilter.ofJson? (json : Json) : Option PropertyFilter := do
  match ← fields? ["name", "op", "value"] json with
  | [some name, some comparison, some value] =>
    some ⟨← name.text?, ← Comparison.ofJson? comparison, ← PropertyValue.ofJson? value⟩
  | _ => none

/-- The entry pattern in a record. -/
def EntryPattern.ofJson? (json : Json) : Option EntryPattern := do
  match ← fields? ["name", "filter"] json with
  | [some name, filter] =>
    some ⟨.ofText (← name.text?), ← optional? PropertyFilter.ofJson? filter⟩
  | _ => none

/-- The query in a list. -/
def Query.ofJson? : Json → Option Query
  | .array items => items.mapM EntryPattern.ofJson?
  | _ => none

/-- The instant in a string. -/
def Instant.ofJson? (json : Json) : Option Instant := do
  match Instant.ofSeconds (← json.text?).toList with
  | .ok t => some t
  | .error _ => none

/-- The rule in a record. -/
def Rule.ofJson? (json : Json) : Option Rule := do
  match ← fields? ["query", "after", "until"] json with
  | [some query, opens, closes] =>
    some ⟨← Query.ofJson? query, ← optional? Instant.ofJson? opens,
      ← optional? Instant.ofJson? closes⟩
  | _ => none

/-- The access level in a variant. -/
def AccessLevel.ofJson? (json : Json) : Option AccessLevel :=
  (variant? json).bind AccessLevel.ofText?

/-- The coverage with a written form. -/
def Coverage.ofText? (text : String) : Option Coverage :=
  [Coverage.subtree, .exact].find? fun coverage => coverage.text == text

/-- The coverage in a variant. -/
def Coverage.ofJson? (json : Json) : Option Coverage := (variant? json).bind Coverage.ofText?

end CatalogGuard
