import CatalogGuard.Kdl.Space
import CatalogGuard.Text.CodePoint

/-!
# Strings of KDL

A string is a bare identifier, a quoted string, or a raw string between hash marks, in which a
backslash is an ordinary character.  Three quotes and a line break open a string of several lines:
its last line holds blanks only, and these blanks are taken away from the start of every other
line.  No raw string is a single quote: written in one line it would look like the start of
several.

Behind a string nothing may follow at once that could begin another string.

The blanks that start a line are counted before escapes are resolved, so a character that came from
an escape is never one of them.  An escaped run of blanks and line breaks is gone before that.
-/

namespace CatalogGuard.Kdl

/-- Whether a character may stand in an identifier. -/
def isIdentifierChar (c : Char) : Bool :=
  !(isSpace c || isNewline c || isForbidden c || ['\\', '/', '(', ')', '\x7b', '\x7d', ';', '[',
    ']', '\x22', '#', '='].contains c)

/-- Whether a character is one of the ten digits. -/
def isDigit (c : Char) : Bool := '0' ≤ c && c ≤ '9'

/-- Whether a bare text looks like the start of a number: a digit behind an optional sign and an
optional point. -/
def startsLikeNumber (text : List Char) : Bool :=
  let rest :=
    match text with
    | '+' :: rest => rest
    | '-' :: rest => rest
    | rest => rest
  match rest with
  | '.' :: c :: _ => isDigit c
  | c :: _ => isDigit c
  | [] => false

/-- The words that mean a value in other formats and are therefore no identifiers. -/
def reservedWords : List (List Char) :=
  ["true", "false", "null", "inf", "nan"].map String.toList

/-- Splits off a bare identifier. -/
def takeIdentifier (text : List Char) : Option (List Char × List Char) :=
  let word := text.takeWhile isIdentifierChar
  if word.isEmpty || startsLikeNumber word || reservedWords.contains word then none
  else some (word, text.dropWhile isIdentifierChar)

/-- A character of a string: as written, or from an escape. -/
structure Glyph where
  /-- The character. -/
  char : Char
  /-- Whether it stands in the text itself. -/
  literal : Bool
  deriving Repr, DecidableEq

/-- The character that a letter behind a backslash stands for. -/
def shortEscape : Char → Option Char
  | '\x22' => some '\x22'
  | '\\' => some '\\'
  | 'b' => some '\x08'
  | 'f' => some '\x0c'
  | 'n' => some '\n'
  | 'r' => some '\r'
  | 't' => some '\t'
  | 's' => some ' '
  | _ => none

/-- Reads what stands behind a backslash: a character, or a run of blanks and line breaks, which
stands for nothing. -/
def takeEscape (text : List Char) : Option (Option Char × List Char) :=
  match text with
  | 'u' :: rest => (Text.takeCharInBraces rest).map fun (c, rest) => (some c, rest)
  | c :: rest =>
    if isSpace c || isNewline c then
      some (none, rest.dropWhile fun d => isSpace d || isNewline d)
    else (shortEscape c).map fun d => (some d, rest)
  | [] => none

/-- Reads the characters of a string up to `close`, and what follows it.  `bound` limits the number
of characters. -/
def takeGlyphs (raw manyLines : Bool) (close : List Char) :
    Nat → List Char → Option (List Glyph × List Char)
  | 0, _ => none
  | bound + 1, text =>
    match close.isPrefixOf? text with
    | some rest => some ([], rest)
    | none =>
      match takeNewline text with
      | some rest =>
        if manyLines then
          (takeGlyphs raw manyLines close bound rest).map fun (glyphs, rest) =>
            (⟨'\n', true⟩ :: glyphs, rest)
        else none
      | none =>
        match text with
        | [] => none
        | c :: rest =>
          if isForbidden c then none
          else if c = '\\' ∧ !raw then
            match takeEscape rest with
            | none => none
            | some (escaped, rest) =>
              (takeGlyphs raw manyLines close bound rest).map fun (glyphs, rest) =>
                ((escaped.map fun d => (⟨d, false⟩ : Glyph)).toList ++ glyphs, rest)
          else
            (takeGlyphs raw manyLines close bound rest).map fun (glyphs, rest) =>
              (⟨c, true⟩ :: glyphs, rest)

/-- Cuts a string at the line breaks that stand in the text itself. -/
def linesOf : List Glyph → List (List Glyph)
  | [] => [[]]
  | glyph :: rest =>
    if glyph = ⟨'\n', true⟩ then [] :: linesOf rest
    else
      match linesOf rest with
      | [] => [[glyph]]
      | line :: lines => (glyph :: line) :: lines

/-- Whether a line holds blanks only. -/
def isBlankLine (line : List Glyph) : Bool := line.all fun g => g.literal && isSpace g.char

/-- A line without the given blanks at its start; a blank line is empty. -/
def dedentLine (margin line : List Glyph) : Option (List Char) :=
  if isBlankLine line then some []
  else (margin.isPrefixOf? line).map fun rest => rest.map Glyph.char

/-- The text of a string of several lines. -/
def dedent (glyphs : List Glyph) : Option (List Char) :=
  let lines := linesOf glyphs
  let margin := lines.getLastD []
  if isBlankLine margin then
    (lines.dropLast.mapM (dedentLine margin)).map fun lines => ['\n'].intercalate lines
  else none

/-- What follows two quotes and a line break, which make an opening quote one of several lines. -/
def takeManyLines : List Char → Option (List Char)
  | '\x22' :: '\x22' :: rest => takeNewline rest
  | _ => none

/-- Reads a string behind its opening quote, given what a raw string ends with. -/
def takeQuotedBody (raw : Bool) (hashes text : List Char) : Option (List Char × List Char) :=
  match takeManyLines text with
  | some rest => do
    let close := '\x22' :: '\x22' :: '\x22' :: hashes
    let (glyphs, rest) ← takeGlyphs raw true close (rest.length + 1) rest
    some (← dedent glyphs, rest)
  | none => do
    let (glyphs, rest) ← takeGlyphs raw false ('\x22' :: hashes) (text.length + 1) text
    some (glyphs.map Glyph.char, rest)

/-- Splits off a raw string behind its opening quote. -/
def takeRawBody (hashes text : List Char) : Option (List Char × List Char) :=
  (takeQuotedBody true hashes text).filter fun read => read.1 != ['\x22']

/-- Whether a text may follow a string or a number at once: no other string or type does, and
nothing that is taken out. -/
def standsApart : List Char → Bool
  | '/' :: '-' :: _ => false
  | c :: _ => !(isIdentifierChar c || c == '\x22' || c == '#' || c == '(')
  | [] => true

/-- Splits off a string of any kind, whatever follows it. -/
def takeAnyString (text : List Char) : Option (List Char × List Char) :=
  match text with
  | '\x22' :: rest => takeQuotedBody false [] rest
  | '#' :: _ =>
    let hashes := text.takeWhile (· == '#')
    match text.dropWhile (· == '#') with
    | '\x22' :: rest => takeRawBody hashes rest
    | _ => none
  | text => takeIdentifier text

/-- Splits off a string of any kind that stands apart from what follows it. -/
def takeString (text : List Char) : Option (List Char × List Char) :=
  (takeAnyString text).filter fun (_, rest) => standsApart rest

end CatalogGuard.Kdl
