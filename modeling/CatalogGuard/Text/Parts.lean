/-!
# Parts of a path

A path and a claim are read as the texts between their slashes.  Those that are empty do not count,
so that extra slashes change nothing.
-/

namespace CatalogGuard.Text

/-- The non-empty pieces of a text between its slashes. -/
def parts (text : List Char) : List (List Char) :=
  (text.splitOn '/').filter fun piece => !piece.isEmpty

end CatalogGuard.Text
