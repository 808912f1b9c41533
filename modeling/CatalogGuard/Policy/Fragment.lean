import CatalogGuard.Catalog.Entry
import CatalogGuard.Rule.Basic

/-!
# Fragments of a policy

What one document says: entries of the catalog, claims, registered logins and rules, each in the
order of the document.  Fragments are put together by appending them part by part.
-/

namespace CatalogGuard.Policy

/-- What one document contributes to a policy. -/
structure Fragment where
  /-- Branches below the root of the catalog. -/
  entries : List Branch
  /-- Lists of claims, each with the login it is for. -/
  claims : List (String × List String)
  /-- Registered logins. -/
  registered : List String
  /-- Rules. -/
  rules : List Rule
  deriving Repr

namespace Fragment

/-- The fragment of an empty document. -/
def empty : Fragment := ⟨[], [], [], []⟩

/-- Two fragments, one after the other. -/
def append (a b : Fragment) : Fragment :=
  ⟨a.entries ++ b.entries, a.claims ++ b.claims, a.registered ++ b.registered, a.rules ++ b.rules⟩

instance : Append Fragment := ⟨append⟩

/-- Several fragments, one after the other. -/
def concat (fragments : List Fragment) : Fragment := fragments.foldr append empty

end Fragment

end CatalogGuard.Policy
