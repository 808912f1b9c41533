import CatalogGuard.Text.Ranges

/-!
# Blanks and comments of KDL

Within a node only blanks, block comments and escaped line breaks may separate tokens; between
nodes there may be line breaks and line comments as well.  A block comment that is never closed is
no blank, so that what it starts with is left to be refused.
-/

namespace CatalogGuard.Kdl

open Text (CharRanges)

/-- The ranges of the blanks within a line. -/
def spaceRanges : CharRanges :=
  [(0x9, 0x9), (0x20, 0x20), (0xa0, 0xa0), (0x1680, 0x1680), (0x2000, 0x200a), (0x202f, 0x202f),
   (0x205f, 0x205f), (0x3000, 0x3000)]

/-- Whether a character is a blank within a line. -/
def isSpace (c : Char) : Bool := spaceRanges.contains c

/-- The ranges of the characters that break a line. -/
def newlineRanges : CharRanges := [(0xa, 0xd), (0x85, 0x85), (0x2028, 0x2029)]

/-- Whether a character breaks a line. -/
def isNewline (c : Char) : Bool := newlineRanges.contains c

/-- The ranges of the characters that may stand nowhere but in comments. -/
def forbiddenRanges : CharRanges :=
  [(0x0, 0x8), (0xe, 0x1f), (0x200e, 0x200f), (0x202a, 0x202e), (0x2066, 0x2069),
   (0xfeff, 0xfeff)]

/-- Whether a character may stand nowhere but in comments. -/
def isForbidden (c : Char) : Bool := forbiddenRanges.contains c

/-- What follows a line break, if the text starts with one.  A carriage return and a line feed are
one break together. -/
def takeNewline : List Char → Option (List Char)
  | '\r' :: '\n' :: rest => some rest
  | c :: rest => if isNewline c then some rest else none
  | [] => none

/-- What follows the end of a block comment, at a depth of comments within each other. -/
def skipBlockComment : Nat → List Char → Option (List Char)
  | _, [] => none
  | depth, '*' :: '/' :: rest => if depth = 0 then some rest else skipBlockComment (depth - 1) rest
  | depth, '/' :: '*' :: rest => skipBlockComment (depth + 1) rest
  | depth, _ :: rest => skipBlockComment depth rest

/-- What follows a line comment and its line break. -/
def skipLineComment (text : List Char) : List Char :=
  let rest := text.dropWhile fun c => !isNewline c
  (takeNewline rest).getD rest

/-- A step over one blank or one block comment. -/
def takeBlank : List Char → Option (List Char)
  | '/' :: '*' :: rest => skipBlockComment 0 rest
  | c :: rest => if isSpace c then some rest else none
  | [] => none

/-- A text without the blanks and block comments it starts with; `bound` limits their number. -/
def skipBlanksUpTo : Nat → List Char → List Char
  | 0, text => text
  | bound + 1, text =>
    match takeBlank text with
    | some rest => skipBlanksUpTo bound rest
    | none => text

/-- A text without the blanks and block comments it starts with. -/
def skipBlanks (text : List Char) : List Char := skipBlanksUpTo text.length text

/-- What follows an escaped line break: a backslash, blanks, and a line break, a line comment or the
end of the text. -/
def takeEscapedNewline : List Char → Option (List Char)
  | '\\' :: rest =>
    match skipBlanks rest with
    | [] => some []
    | '/' :: '/' :: rest => some (skipLineComment rest)
    | rest => takeNewline rest
  | _ => none

/-- A text without what may separate the tokens of a node; `bound` limits the number of steps. -/
def skipWithinNodeUpTo : Nat → List Char → List Char
  | 0, text => text
  | bound + 1, text =>
    let rest := skipBlanks text
    match takeEscapedNewline rest with
    | some rest => skipWithinNodeUpTo bound rest
    | none => rest

/-- A text without what may separate the tokens of a node. -/
def skipWithinNode (text : List Char) : List Char := skipWithinNodeUpTo (text.length + 1) text

/-- A text without what may separate nodes; `bound` limits the number of steps. -/
def skipBetweenNodesUpTo : Nat → List Char → List Char
  | 0, text => text
  | bound + 1, text =>
    match skipWithinNode text with
    | '/' :: '/' :: rest => skipBetweenNodesUpTo bound (skipLineComment rest)
    | rest =>
      match takeNewline rest with
      | some rest => skipBetweenNodesUpTo bound rest
      | none => rest

/-- A text without what may separate nodes. -/
def skipBetweenNodes (text : List Char) : List Char :=
  skipBetweenNodesUpTo (text.length + 1) text

end CatalogGuard.Kdl
