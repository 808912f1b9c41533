import CatalogGuard.Yaml.Line

/-!
# Reading YAML documents

Mappings and lists by indentation, with scalars that are plain, quoted or in a block, and with
collections in brackets.  The items of a list that is the value of a key may stand as far to the
left as the key.  Tags, anchors, aliases and keys that are no scalars are refused.

The readers take a bound on the number of steps; every second step takes a line or enters a part of
one.
-/

namespace CatalogGuard.Yaml

/-! ### Scalars over several lines -/

/-- What joins the lines of a plain scalar, with a number of empty lines between them. -/
def lineJoint (emptyLines : Nat) : List Char :=
  if emptyLines = 0 then [' '] else List.replicate emptyLines '\n'

/-- The lines that go on with a plain scalar, behind a number of empty lines, and those behind
them. -/
def takePlainLines (least emptyLines : Nat) : List Line → Option (List Char × List Line)
  | [] => some ([], [])
  | line :: rest =>
    if line.text.dropWhile isBlank = [] then takePlainLines least (emptyLines + 1) rest
    else if line.indent < least ∨ line.isIdle ∨ line.isMarker then some ([], line :: rest)
    else if (splitPlainKey line.text).isSome then none
    else do
      let (more, after) ← takePlainLines least 0 rest
      some (lineJoint emptyLines ++ plainPart line.text ++ more, after)

/-- Reads a plain scalar. -/
def takePlain (least : Nat) (text : List Char) (lines : List Line) :
    Option (Value × List Line) :=
  let part := plainPart text
  if !startsPlain text || (splitPlainKey text).isSome then none
  else if part.length < (withoutBlanksAtEnd text).length then
    some (.scalar (.ofPlain part), lines)
  else
    (takePlainLines least 0 lines).map fun (more, lines) =>
      (.scalar (.ofPlain (part ++ more)), lines)

/-- How the line breaks at the end of a block count. -/
inductive Chomping where
  /-- Not at all. -/
  | strip
  /-- One of them counts. -/
  | clip
  /-- All of them count. -/
  | keep
  deriving Repr, DecidableEq

/-- The lines of a block, joined with their line breaks. -/
def literalText (lines : List (List Char)) : List Char := ['\n'].intercalate lines

/-- The lines of a block, with a space for a line break between two lines that start with no
blank. -/
def foldedText : List (List Char) → List Char
  | [] => []
  | [line] => line
  | line :: next :: rest =>
    let isText (line : List Char) : Bool := line.head?.any fun c => !isBlank c
    if isText line && isText next then line ++ ' ' :: foldedText (next :: rest)
    else if isText line && next.isEmpty && (rest.dropWhile List.isEmpty).head?.any isText then
      line ++ foldedText (next :: rest)
    else line ++ '\n' :: foldedText (next :: rest)

/-- Reads a block scalar behind its mark, with a least indentation. -/
def takeBlock (isFolded : Bool) (least : Nat) (header : List Char) (lines : List Line) :
    Option (Value × List Line) :=
  let marks := header.takeWhile fun c => !isBlank c
  let digits := marks.filter Number.isAsciiDigit
  let signs := marks.filter fun c => c == '+' || c == '-'
  let isHeader := digits.length ≤ 1 ∧ signs.length ≤ 1 ∧ digits.length + signs.length = marks.length
  let chomping : Chomping :=
    match signs with
    | ['-'] => .strip
    | ['+'] => .keep
    | _ => .clip
  let firstIndent := (lines.find? fun line => !line.text.isEmpty).elim 0 Line.indent
  let indent :=
    match digits with
    | [] => max least firstIndent
    | digits => least - 1 + Number.natOfDigits digits
  let isInside (line : Line) : Bool := line.text.isEmpty || indent ≤ line.indent
  let inside := (lines.takeWhile isInside).map fun line => line.toText.drop indent
  let content := (inside.reverse.dropWhile List.isEmpty).reverse
  let body := if isFolded then foldedText content else literalText content
  let ending :=
    match chomping with
    | .strip => []
    | .clip => if content.isEmpty then [] else ['\n']
    | .keep => List.replicate (inside.length - content.length + min content.length 1) '\n'
  if isHeader ∧ (Line.ofText (header.drop marks.length)).isIdle then
    some (.scalar (.text (String.ofList (body ++ ending))), lines.dropWhile isInside)
  else none

/-- Reads a quoted scalar or a collection in brackets. -/
def takeEnclosed (text : List Char) (lines : List Line) : Option (Value × List Line) := do
  let all := joinLines text lines
  let (value, rest) ← takeFlow (2 * all.length + 2) all
  (linesBehind? rest).map fun lines => (value, lines)

/-- Reads a value that starts within a line and is neither a mapping nor a list by indentation. -/
def takeInline (least : Nat) (text : List Char) (lines : List Line) :
    Option (Value × List Line) :=
  match text with
  | '|' :: header => takeBlock false least header lines
  | '>' :: header => takeBlock true least header lines
  | text =>
    if ['[', '\x7b', '\x22', '\x27'].any fun c => text.head? == some c then
      takeEnclosed text lines
    else takePlain least text lines

/-! ### Mappings and lists -/

mutual

/-- Reads the value that starts with the next line, if that is indented far enough; there is
nothing otherwise. -/
def takeNode : Nat → Nat → List Line → Option (Value × List Line)
  | 0, _, _ => none
  | bound + 1, least, lines =>
    match skipIdle lines with
    | [] => some (.null, [])
    | line :: rest =>
      if line.indent < least ∨ line.isMarker then some (.null, line :: rest)
      else if line.isItem then
        (takeItems bound line.indent (line :: rest)).map fun (items, rest) =>
          (.sequence items, rest)
      else if (takeKey line.text).isSome then
        (takePairs bound line.indent (line :: rest)).map fun (pairs, rest) =>
          (.mapping pairs, rest)
      else takeInline least line.text rest

/-- Reads the items of a list with an indentation. -/
def takeItems : Nat → Nat → List Line → Option (List Value × List Line)
  | 0, _, _ => none
  | bound + 1, indent, lines =>
    match skipIdle lines with
    | [] => some ([], [])
    | line :: rest =>
      if line.indent = indent ∧ line.isItem ∧ !line.isMarker then do
        let text := line.text.drop 1
        let content := text.dropWhile isBlank
        let inner : Line := ⟨indent + 1 + (text.length - content.length), content⟩
        let (item, rest) ← takeNode bound (indent + 1) (inner :: rest)
        let (more, rest) ← takeItems bound indent rest
        some (item :: more, rest)
      else if indent < line.indent then none
      else some ([], line :: rest)

/-- Reads the pairs of a mapping with an indentation. -/
def takePairs : Nat → Nat → List Line → Option (List (Scalar × Value) × List Line)
  | 0, _, _ => none
  | bound + 1, indent, lines =>
    match skipIdle lines with
    | [] => some ([], [])
    | line :: rest =>
      if line.indent < indent ∨ line.isMarker then some ([], line :: rest)
      else if indent < line.indent ∨ line.isItem then none
      else do
        let (key, text) ← takeKey line.text
        let (value, rest) ← takePairValue bound indent (text.dropWhile isBlank) rest
        let (more, rest) ← takePairs bound indent rest
        some ((key, value) :: more, rest)

/-- Reads the value of a key with an indentation, behind its colon. -/
def takePairValue : Nat → Nat → List Char → List Line → Option (Value × List Line)
  | 0, _, _, _ => none
  | bound + 1, indent, text, lines =>
    if (Line.ofText text).isIdle then
      match skipIdle lines with
      | line :: rest =>
        if line.indent = indent ∧ line.isItem then
          (takeItems bound indent (line :: rest)).map fun (items, rest) => (.sequence items, rest)
        else takeNode bound (indent + 1) (line :: rest)
      | [] => some (.null, [])
    else takeInline (indent + 1) text lines

end

/-! ### Documents -/

/-- The lines of a document behind the directives and the marker in front of it, and whether there
is such a marker; spaces take its place in the line. -/
def skipMarker (lines : List Line) : Bool × List Line :=
  let isDirective (line : Line) : Bool := line.indent == 0 && line.text.head? == some '%'
  let body := (skipIdle lines).dropWhile fun line => isDirective line || line.isIdle
  match body with
  | line :: rest =>
    if line.indent = 0 ∧ line.startsWith "---" then
      (true, .ofText ([' ', ' ', ' '] ++ line.text.drop 3) :: rest)
    else (false, skipIdle lines)
  | [] => (false, skipIdle lines)

/-- The value of the only document of a text; a text without any document has an empty mapping. -/
def parse? (text : String) : Option Value := do
  let lines := linesOf (withLineFeeds text.toList)
  let (isMarked, body) := skipMarker lines
  if !isMarked && body.isEmpty then some (.mapping [])
  else
    let (value, rest) ← takeNode (4 * text.length + 8) 0 body
    match skipIdle rest with
    | [] => some value
    | line :: rest =>
      if line.startsWith "..." && (skipIdle rest).isEmpty then some value else none

end CatalogGuard.Yaml
