import CatalogGuard.Text.Ranges

/-!
# Blanks

The Unicode property `White_Space`.  Blanks separate the tokens of a rule and may stand around the
punctuation of a filter.  The zero-width space, the byte order mark and the ASCII separators
U+001C to U+001F are no blanks.
-/

namespace CatalogGuard.Text

/-- The ranges of the property `White_Space`. -/
def blankRanges : CharRanges :=
  [(0x9, 0xd), (0x20, 0x20), (0x85, 0x85), (0xa0, 0xa0), (0x1680, 0x1680), (0x2000, 0x200a),
   (0x2028, 0x2029), (0x202f, 0x202f), (0x205f, 0x205f), (0x3000, 0x3000)]

/-- Whether a character is a blank. -/
def isBlank (c : Char) : Bool := blankRanges.contains c

/-- The text without the blanks it starts with. -/
def skipBlanks (text : List Char) : List Char := text.dropWhile isBlank

/-- The blanks a text starts with. -/
def leadingBlanks (text : List Char) : List Char := text.takeWhile isBlank

theorem leadingBlanks_append_skipBlanks (text : List Char) :
    leadingBlanks text ++ skipBlanks text = text :=
  List.takeWhile_append_dropWhile

theorem length_skipBlanks_le (text : List Char) : (skipBlanks text).length ≤ text.length :=
  (List.dropWhile_sublist isBlank).length_le

end CatalogGuard.Text
