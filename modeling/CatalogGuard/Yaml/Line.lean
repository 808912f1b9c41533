import CatalogGuard.Yaml.Flow

/-!
# Lines of a YAML document

Outside brackets and quotes the structure of a document is that of its lines.  A line is kept as
the number of spaces in front of it and the text behind them.
-/

namespace CatalogGuard.Yaml

/-- A line. -/
structure Line where
  /-- The number of spaces in front. -/
  indent : Nat
  /-- What stands behind them. -/
  text : List Char
  deriving Repr, DecidableEq

namespace Line

/-- The line with a text. -/
def ofText (text : List Char) : Line :=
  ⟨(text.takeWhile (· == ' ')).length, text.dropWhile (· == ' ')⟩

/-- The text of a line. -/
def toText (line : Line) : List Char := List.replicate line.indent ' ' ++ line.text

/-- Whether a line holds nothing but blanks and a comment. -/
def isIdle (line : Line) : Bool :=
  match line.text.dropWhile isBlank with
  | [] => true
  | c :: _ => c == '#'

/-- Whether a line begins with a word, with a blank or nothing behind it. -/
def startsWith (word : String) (line : Line) : Bool :=
  match word.toList.isPrefixOf? line.text with
  | some rest => rest.head?.all isBlank
  | none => false

/-- Whether a line starts an item of a list. -/
def isItem (line : Line) : Bool := line.startsWith "-"

/-- Whether a line ends the document or starts another one. -/
def isMarker (line : Line) : Bool :=
  line.indent == 0 && (line.startsWith "---" || line.startsWith "...")

end Line

/-- A text with a line feed for every line break. -/
def withLineFeeds : List Char → List Char
  | '\r' :: '\n' :: rest => '\n' :: withLineFeeds rest
  | '\r' :: rest => '\n' :: withLineFeeds rest
  | c :: rest => c :: withLineFeeds rest
  | [] => []

/-- The lines of a text. -/
def linesOf (text : List Char) : List Line := (text.splitOn '\n').map Line.ofText

/-- The text of lines that follow a text in its line. -/
def joinLines (text : List Char) (lines : List Line) : List Char :=
  text ++ lines.flatMap fun line => '\n' :: line.toText

/-- Lines without the idle ones at their start. -/
def skipIdle (lines : List Line) : List Line := lines.dropWhile Line.isIdle

/-- The lines behind a text that ends a value: only blanks and a comment may follow in its line. -/
def linesBehind? (rest : List Char) : Option (List Line) :=
  match linesOf rest with
  | [] => some []
  | line :: lines => if line.isIdle then some lines else none

/-- The part of a line that belongs to a plain scalar: all that stands in front of a comment. -/
def plainPart (text : List Char) : List Char := withoutBlanksAtEnd (go text)
where
  /-- What stands in front of a comment. -/
  go : List Char → List Char
    | [] => []
    | c :: rest => if isBlank c && rest.head? == some '#' then [] else c :: go rest

/-- Splits a line at the colon behind a plain key. -/
def splitPlainKey : List Char → Option (List Char × List Char)
  | [] => none
  | c :: rest =>
    if c == ':' && rest.head?.all isBlank then some ([], rest)
    else if isBlank c && rest.head? == some '#' then none
    else (splitPlainKey rest).map fun (key, rest) => (c :: key, rest)

/-- Splits off the key that a line starts with, and its colon. -/
def takeKey (text : List Char) : Option (Scalar × List Char) :=
  match takeQuoted text with
  | some (key, rest) =>
    match rest.dropWhile isBlank with
    | ':' :: rest => if rest.head?.all isBlank then some (key, rest) else none
    | _ => none
  | none =>
    if startsPlain text then
      (splitPlainKey text).map fun (key, rest) => (.ofPlain (withoutBlanksAtEnd key), rest)
    else none

end CatalogGuard.Yaml
