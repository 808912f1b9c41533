import CatalogGuard.Text.Blank
import CatalogGuard.Text.Size

/-!
# Scanning a text step by step

A `Scan` is a text cut in two: what has been read and what is left, together with the piece the
last operation took.  Every operation makes a new scan and leaves the old one as it was, so a
reader can go back to any earlier place by keeping the scan it had there.

A failed operation moves nothing and is remembered: `taken` is then empty, and all later
operations leave the scan alone.
-/

namespace CatalogGuard.Text

/-- A place in a text, with the piece last taken. -/
structure Scan where
  /-- The part of the text already read. -/
  passed : List Char
  /-- The part still to be read. -/
  rest : List Char
  /-- The piece taken by the last operation, or `none` once an operation has failed. -/
  taken : Option (List Char)
  deriving Repr, DecidableEq

/-- A pattern for the start of a text: how many characters it takes there, if it fits. -/
abbrev Pattern := List Char → Option Nat

namespace Scan

/-- The scan before the first character. -/
def start (text : List Char) : Scan := ⟨[], text, some []⟩

/-- The number of bytes read. -/
def offset (scan : Scan) : Nat := byteSize scan.passed

/-- Whether no operation has failed yet. -/
def isReady (scan : Scan) : Bool := scan.taken.isSome

/-- Whether nothing is left to read. -/
def atEnd (scan : Scan) : Bool := scan.rest.isEmpty

/-- The next character. -/
def peek (scan : Scan) : Option Char := scan.rest.head?

/-- Takes the given number of characters. -/
def advance (scan : Scan) (count : Nat) : Scan :=
  ⟨scan.passed ++ scan.rest.take count, scan.rest.drop count, some (scan.rest.take count)⟩

/-- Remembers a failure at the current place. -/
def fail (scan : Scan) : Scan := { scan with taken := none }

/-- Takes what `count?` asks for, or fails; a failed scan stays as it is. -/
def advance? (scan : Scan) (count? : List Char → Option Nat) : Scan :=
  if scan.isReady then
    match count? scan.rest with
    | some count => scan.advance count
    | none => scan.fail
  else scan

/-- Takes the blanks that come next, which may be none. -/
def skipBlanks (scan : Scan) : Scan :=
  scan.advance? fun rest => some (leadingBlanks rest).length

/-- Takes the blanks that come next, at least one. -/
def takeBlanks (scan : Scan) : Scan :=
  scan.advance? fun rest =>
    match (leadingBlanks rest).length with
    | 0 => none
    | count => some count

/-- Takes one of the candidate characters. -/
def takeChar (candidates : List Char) (scan : Scan) : Scan :=
  scan.advance? fun rest =>
    match rest with
    | c :: _ => if candidates.contains c then some 1 else none
    | [] => none

/-- The length of the longest of the literals the text starts with; the empty literal does not
count. -/
def longestLiteral (literals : List (List Char)) (rest : List Char) : Option Nat :=
  ((literals.filter fun literal => !literal.isEmpty && literal.isPrefixOf rest).map
    List.length).max?

/-- Takes the longest of the literals that comes next. -/
def takeLiteral (literals : List (List Char)) (scan : Scan) : Scan :=
  scan.advance? (longestLiteral literals)

/-- Takes what the pattern fits, which has to be more than nothing. -/
def takePattern (pattern : Pattern) (scan : Scan) : Scan :=
  scan.advance? fun rest =>
    match pattern rest with
    | some 0 => none
    | count? => count?

end Scan

end CatalogGuard.Text
