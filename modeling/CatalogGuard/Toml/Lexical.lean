import CatalogGuard.Text.CodePoint

/-!
# Blanks, keys and strings of TOML

Within a line spaces and tabs are blanks.  A line ends in a line feed, perhaps with a carriage
return before it.  Comments and strings hold no control character but the tab.

A string is basic, with escapes, or literal; three quotes in place of one make it span lines, and a
line break right behind them does not count.  Up to two quotes may then stand before the closing
three.
-/

namespace CatalogGuard.Toml

/-- Whether a character is a blank within a line. -/
def isBlank (c : Char) : Bool := c == ' ' || c == '\t'

/-- A text without the blanks it starts with. -/
def skipBlanks (text : List Char) : List Char := text.dropWhile isBlank

/-- Whether a character is a control character that no comment or string may hold. -/
def isControl (c : Char) : Bool := (c.toNat < 0x20 && c != '\t') || c.toNat == 0x7f

/-- What follows a line break. -/
def takeNewline : List Char → Option (List Char)
  | '\n' :: rest => some rest
  | '\r' :: '\n' :: rest => some rest
  | _ => none

/-- A text without the comment it may start with. -/
def skipComment : List Char → List Char
  | '#' :: rest => rest.dropWhile fun c => !isControl c
  | text => text

/-- What follows the end of a line, with the blanks and the comment before it. -/
def takeLineEnd (text : List Char) : Option (List Char) :=
  match skipComment (skipBlanks text) with
  | [] => some []
  | rest => takeNewline rest

/-- A text without blanks, comments and line breaks at its start; `bound` limits the number of
lines. -/
def skipLinesUpTo : Nat → List Char → List Char
  | 0, text => text
  | bound + 1, text =>
    let rest := skipComment (skipBlanks text)
    match takeNewline rest with
    | some rest => skipLinesUpTo bound rest
    | none => rest

/-- A text without blanks, comments and line breaks at its start. -/
def skipLines (text : List Char) : List Char := skipLinesUpTo (text.length + 1) text

/-- Reads what stands behind a backslash. -/
def takeEscape : List Char → Option (Char × List Char)
  | 'b' :: rest => some ('\x08', rest)
  | 't' :: rest => some ('\t', rest)
  | 'n' :: rest => some ('\n', rest)
  | 'f' :: rest => some ('\x0c', rest)
  | 'r' :: rest => some ('\r', rest)
  | '\x22' :: rest => some ('\x22', rest)
  | '\\' :: rest => some ('\\', rest)
  | 'u' :: rest => Text.takeCharOfHex 4 rest
  | 'U' :: rest => Text.takeCharOfHex 8 rest
  | _ => none

/-- What follows an escaped line break, with all blanks and line breaks behind it. -/
def takeEscapedNewline (text : List Char) : Option (List Char) :=
  (takeNewline (skipBlanks text)).map fun rest => trim (rest.length + 1) rest
where
  /-- Drops blanks and line breaks. -/
  trim : Nat → List Char → List Char
    | 0, text => text
    | bound + 1, text =>
      let rest := skipBlanks text
      match takeNewline rest with
      | some rest => trim bound rest
      | none => rest

/-- Reads a string of one line up to its closing quote. -/
def takeLine (quote : Char) (basic : Bool) : Nat → List Char → Option (List Char × List Char)
  | 0, _ => none
  | _, [] => none
  | bound + 1, c :: rest =>
    if c = quote then some ([], rest)
    else if isControl c then none
    else if c = '\\' ∧ basic then
      match takeEscape rest with
      | some (d, rest) => (takeLine quote basic bound rest).map fun (s, rest) => (d :: s, rest)
      | none => none
    else (takeLine quote basic bound rest).map fun (s, rest) => (c :: s, rest)

/-- Reads a string of several lines up to its closing quotes. -/
def takeLines (quote : Char) (basic : Bool) : Nat → List Char → Option (List Char × List Char)
  | 0, _ => none
  | _, [] => none
  | bound + 1, c :: rest =>
    if c = quote then
      let quotes := ((c :: rest).take 5).takeWhile (· == quote)
      if 3 ≤ quotes.length then
        some (quotes.drop 3, (c :: rest).drop quotes.length)
      else (takeLines quote basic bound rest).map fun (s, rest) => (c :: s, rest)
    else
      match takeNewline (c :: rest) with
      | some after => (takeLines quote basic bound after).map fun (s, rest) => ('\n' :: s, rest)
      | none =>
        if isControl c then none
        else if c = '\\' ∧ basic then
          match takeEscape rest with
          | some (d, rest) =>
            (takeLines quote basic bound rest).map fun (s, rest) => (d :: s, rest)
          | none =>
            match takeEscapedNewline rest with
            | some rest => takeLines quote basic bound rest
            | none => none
        else (takeLines quote basic bound rest).map fun (s, rest) => (c :: s, rest)

/-- Reads a string of one line. -/
def takeSimpleString (text : List Char) : Option (List Char × List Char) :=
  match text with
  | '\x22' :: rest => takeLine '\x22' true (rest.length + 1) rest
  | '\x27' :: rest => takeLine '\x27' false (rest.length + 1) rest
  | _ => none

/-- Reads a string of any kind. -/
def takeString (text : List Char) : Option (List Char × List Char) :=
  match text with
  | '\x22' :: '\x22' :: '\x22' :: rest =>
    let rest := (takeNewline rest).getD rest
    takeLines '\x22' true (rest.length + 1) rest
  | '\x27' :: '\x27' :: '\x27' :: rest =>
    let rest := (takeNewline rest).getD rest
    takeLines '\x27' false (rest.length + 1) rest
  | text => takeSimpleString text

/-- Whether a character may stand in a bare key. -/
def isKeyChar (c : Char) : Bool :=
  ('A' ≤ c && c ≤ 'Z') || ('a' ≤ c && c ≤ 'z') || ('0' ≤ c && c ≤ '9') || c == '_' || c == '-'

/-- Reads one part of a key. -/
def takeKeyPart (text : List Char) : Option (String × List Char) :=
  match text.takeWhile isKeyChar with
  | [] => (takeSimpleString text).map fun (s, rest) => (String.ofList s, rest)
  | part => some (String.ofList part, text.dropWhile isKeyChar)

/-- Reads a key: parts with points between them.  `bound` limits their number. -/
def takeKeyUpTo : Nat → List Char → Option (List String × List Char)
  | 0, _ => none
  | bound + 1, text => do
    let (part, rest) ← takeKeyPart (skipBlanks text)
    match skipBlanks rest with
    | '.' :: rest =>
      let (more, rest) ← takeKeyUpTo bound rest
      some (part :: more, rest)
    | rest => some ([part], rest)

/-- How many parts of a key, or lists and inline tables within each other, are too many. -/
def tooDeep : Nat := 80

/-- Reads a key and the blanks around it. -/
def takeKey (text : List Char) : Option (List String × List Char) := do
  let (path, rest) ← takeKeyUpTo (text.length + 1) text
  if tooDeep ≤ path.length then none else some (path, rest)

end CatalogGuard.Toml
