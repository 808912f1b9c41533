import CatalogGuard.Pattern.Name
import CatalogGuard.Pattern.Property
import CatalogGuard.Time.Instant

/-!
# Queries and access rules

A query is a list of entry patterns, matched from the entries below the root downwards.  A rule is
a query with a window of time in which it is in force.

The canonical text of either is what its reader accepts in its plainest form: no optional blanks,
one spelling per value.
-/

namespace CatalogGuard

/-- A pattern for one entry: its name, and perhaps one of its properties. -/
structure EntryPattern where
  /-- The pattern for the name. -/
  name : NamePattern
  /-- The condition on a property. -/
  filter : Option PropertyFilter
  deriving Repr, BEq

/-- The pattern of the unnamed root entry. -/
def EntryPattern.root : EntryPattern := ⟨.ofText "", none⟩

/-- Patterns for the entries of a path below the root. -/
abbrev Query := List EntryPattern

/-- A query that is in force during a window of time. -/
structure Rule where
  /-- The paths the rule is about. -/
  query : Query
  /-- The first instant of the window; without it the window has no start. -/
  opens : Option Instant
  /-- The last instant of the window; without it the window has no end. -/
  closes : Option Instant
  deriving Repr, BEq

/-- Whether an instant lies in the window of a rule, its ends included. -/
def Rule.inForce (rule : Rule) (now : Instant) : Bool :=
  (rule.opens.all fun start => start ≤ now) && rule.closes.all fun stop => now ≤ stop

/-! ### Canonical texts -/

/-- The canonical text of an entry pattern. -/
def EntryPattern.canonical (pattern : EntryPattern) : List Char :=
  '/' :: (pattern.name.text.toList ++ (pattern.filter.map PropertyFilter.canonical).getD [])

/-- The canonical text of a query: its patterns one after the other. -/
def Query.canonical (query : Query) : List Char := query.flatMap EntryPattern.canonical

/-- The words of a rule's canonical text: its bounds, and its query unless that is empty. -/
def Rule.words (rule : Rule) : List (List Char) :=
  (rule.opens.map fun t => "after ".toList ++ t.toMinutes).toList ++
    (rule.closes.map fun t => "until ".toList ++ t.toMinutes).toList ++
    if rule.query.isEmpty then [] else [Query.canonical rule.query]

/-- The canonical text of a rule: its words with one space between two of them. -/
def Rule.canonical (rule : Rule) : List Char := [' '].intercalate rule.words

end CatalogGuard
