import CatalogGuard.Pattern.Property

/-!
# Catalog entries

An entry is one item of a course catalog: a name to find it by, a link to show and to check claims
with, an access level, and free data that filters can ask about.
-/

namespace CatalogGuard

/-- Who may see an entry. -/
inductive AccessLevel where
  /-- Everyone. -/
  | everyone
  /-- Callers with a registration, and those with a claim. -/
  | loggedIn
  /-- Callers with a claim. -/
  | claim
  /-- Nobody, below it neither. -/
  | deny
  deriving Repr, DecidableEq

namespace AccessLevel

/-- The written form of a level. -/
def text : AccessLevel → String
  | .everyone => "public"
  | .loggedIn => "logged-in"
  | .claim => "claim"
  | .deny => "deny"

/-- All levels. -/
def all : List AccessLevel := [.everyone, .loggedIn, .claim, .deny]

/-- The level with the given written form. -/
def ofText? (text : String) : Option AccessLevel := all.find? fun level => level.text == text

/-- What is said of a text that is no level. -/
def unknownMessage (text : String) : String :=
  "unknown access level `" ++ text ++ "` (expected public, logged-in, claim or deny)"

end AccessLevel

/-- Named values, at most one per name. -/
abbrev Properties := List (String × PropertyValue)

/-- Gives a property a value, in place of the one it had. -/
def Properties.set (properties : Properties) (name : String) (value : PropertyValue) : Properties :=
  properties.filter (fun property => property.1 != name) ++ [(name, value)]

/-- An item of the catalog, without the items below it. -/
structure Entry where
  /-- The name by which it is found among its siblings. -/
  name : String
  /-- Its part of a link, which claims are checked against. -/
  link : String
  /-- Who may see it. -/
  access : AccessLevel
  /-- Whether only its authors may see it. -/
  draft : Bool
  /-- The logins of its authors. -/
  authors : List String
  /-- Its data. -/
  data : Properties
  deriving Repr, BEq

namespace Entry

/-- The public entry of a name, with the name as its link. -/
def named (name : String) : Entry := ⟨name, name, .everyone, false, [], []⟩

/-- The unnamed entry above all others. -/
def root : Entry := named ""

/-- The value of a property. -/
def property (entry : Entry) (name : String) : Option PropertyValue := entry.data.lookup name

end Entry

/-- An entry with the entries below it. -/
inductive Branch where
  /-- An entry and its children, in order. -/
  | node (entry : Entry) (children : List Branch)
  deriving Repr

namespace Branch

/-- The entry at the top. -/
def entry : Branch → Entry
  | node entry _ => entry

/-- The branches below. -/
def children : Branch → List Branch
  | node _ children => children

/-- The name of the entry at the top. -/
def name (branch : Branch) : String := branch.entry.name

/-- The first child of a name. -/
def child? (branch : Branch) (name : String) : Option Branch :=
  branch.children.find? fun child => child.name == name

mutual

/-- The number of entries of a branch. -/
def size : Branch → Nat
  | node _ children => 1 + sizes children

/-- The number of entries of several branches. -/
def sizes : List Branch → Nat
  | [] => 0
  | branch :: rest => size branch + sizes rest

end

end Branch

end CatalogGuard
