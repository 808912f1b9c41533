import CatalogGuard.Catalog.Entry
import CatalogGuard.Text.Parts

/-!
# Catalogs and positions in them

A catalog is a list of branches below an unnamed root.  A position is a way down from the root: the
entries passed and the branch arrived at.  It needs no reference back into the catalog.
-/

namespace CatalogGuard

/-- A position in a catalog. -/
structure Position where
  /-- The entries above, from the root on. -/
  above : List Entry
  /-- The branch at the position. -/
  here : Branch
  deriving Repr

namespace Position

/-- The entries from the root down to the position. -/
def path (position : Position) : List Entry := position.above ++ [position.here.entry]

/-- The entries below the root down to the position. -/
def belowRoot (position : Position) : List Entry := position.path.tail

/-- The position of one of the branches below. -/
def enter (position : Position) (branch : Branch) : Position := ⟨position.path, branch⟩

/-- The position of the first child of a name. -/
def child? (position : Position) (name : String) : Option Position :=
  (position.here.child? name).map position.enter

/-- The positions right below, in order. -/
def children (position : Position) : List Position := position.here.children.map position.enter

/-- The position reached by following names downwards. -/
def descend? (position : Position) (names : List String) : Option Position :=
  names.foldlM child? position

/-- The links on the way with a slash before each; a single slash for the root. -/
def linkPath (position : Position) : String :=
  match position.belowRoot with
  | [] => "/"
  | entries => String.join (entries.map fun entry => "/" ++ entry.link)

end Position

/-- A course catalog: branches below an unnamed root. -/
structure Catalog where
  /-- The branches below the root. -/
  branches : List Branch
  deriving Repr

namespace Catalog

/-- The catalog as one branch. -/
def root (catalog : Catalog) : Branch := .node .root catalog.branches

/-- The position of the root. -/
def top (catalog : Catalog) : Position := ⟨[], catalog.root⟩

/-- The names in a text, between its slashes; empty ones do not count. -/
def namesIn (path : String) : List String := (Text.parts path.toList).map String.ofList

/-- The position reached from the root by the names in a text. -/
def locate? (catalog : Catalog) (path : String) : Option Position :=
  catalog.top.descend? (namesIn path)

/-- What is said of a path that leads to no position. -/
def missingMessage (path : String) : String := "no catalog entry at `" ++ path ++ "`"

/-- The number of entries below the root. -/
def size (catalog : Catalog) : Nat := Branch.sizes catalog.branches

/-- Whether there is no entry below the root. -/
def isEmpty (catalog : Catalog) : Bool := catalog.branches.isEmpty

end Catalog

end CatalogGuard
