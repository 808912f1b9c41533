import CatalogGuard.Catalog.Position
import CatalogGuard.Rule.Basic

/-!
# Matching paths

A path and a query are walked side by side from the root down, where the implicit pattern of the
root stands before the patterns of the query.  A `**` stays in place and goes on taking entries, so
no pattern behind it is ever reached; the path is matched if what is left of the query at its end
is `**` alone.

If the path goes on behind the last pattern, the coverage decides: a rule may cover whole subtrees
or only the paths it spells out.
-/

namespace CatalogGuard

/-- What a query says about entries below the path it spells out. -/
inductive Coverage where
  /-- They are matched too. -/
  | subtree
  /-- They are not matched. -/
  | exact
  deriving Repr, DecidableEq

/-- The written form of a coverage. -/
def Coverage.text : Coverage → String
  | .subtree => "prefix"
  | .exact => "exact"

/-- Whether a pattern matches an entry: its name, and then the property its filter asks about. -/
def EntryPattern.accepts (pattern : EntryPattern) (entry : Entry) : Bool :=
  pattern.name.accepts entry.name &&
    pattern.filter.all fun filter => filter.accepts (entry.property filter.name)

namespace Query

/-- Walks entries and patterns side by side. -/
def walk (coverage : Coverage) : List EntryPattern → List Entry → Bool
  | patterns, [] => patterns.all fun pattern => pattern.name == .anySequence
  | [], _ :: _ => coverage == .subtree
  | pattern :: patterns, entry :: path =>
    pattern.accepts entry &&
      if pattern.name = .anySequence then walk coverage (pattern :: patterns) path
      else walk coverage patterns path
  termination_by _ path => path

/-- Whether a query matches a position. -/
def covers (query : Query) (coverage : Coverage) (position : Position) : Bool :=
  walk coverage (.root :: query) position.path

end Query

/-- Whether a rule matches a position at an instant: it is in force and its query matches. -/
def Rule.covers (rule : Rule) (now : Instant) (coverage : Coverage) (position : Position) : Bool :=
  rule.inForce now && Query.covers rule.query coverage position

end CatalogGuard
