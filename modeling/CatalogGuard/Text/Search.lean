/-!
# Finding one text in another

The three ways a text can hold another one: at its start, at its end, or anywhere.  `afterFirst`
finds the leftmost occurrence and returns what follows it.
-/

namespace CatalogGuard.Text

/-- What follows the leftmost occurrence of a text, if there is one. -/
def afterFirst (needle : List Char) : List Char → Option (List Char)
  | [] => if needle.isEmpty then some [] else none
  | c :: rest =>
    if needle.isPrefixOf (c :: rest) then some ((c :: rest).drop needle.length)
    else afterFirst needle rest

/-- Whether a text occurs in another one. -/
def occursIn (needle text : List Char) : Bool := (afterFirst needle text).isSome

end CatalogGuard.Text
