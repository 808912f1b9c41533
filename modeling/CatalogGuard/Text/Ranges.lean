/-!
# Sets of characters given by ranges

A character class of the Unicode standard is a union of closed ranges of code points.  It is kept
as the list of those ranges, so that membership is a finite check on two bounds each.
-/

namespace CatalogGuard.Text

/-- A set of characters: closed ranges of code points. -/
abbrev CharRanges := List (Nat × Nat)

/-- Whether some range holds the character. -/
def CharRanges.contains (ranges : CharRanges) (c : Char) : Bool :=
  ranges.any fun range => range.1 ≤ c.toNat && c.toNat ≤ range.2

end CatalogGuard.Text
