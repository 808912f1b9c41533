import CatalogGuard.Yaml.Value

/-!
# Quoted scalars and collections in brackets

    value := "[" [ item { "," item } [ "," ] ] "]" | "{" [ pair { "," pair } [ "," ] ] "}"
           | quoted | plain
    item  := value | scalar ":" value
    pair  := scalar [ ":" [ value ] ]

All of these may go over several lines.  In a quoted scalar a line break with the blanks around it
counts as a space, and of several line breaks all but one are kept.
-/

namespace CatalogGuard.Yaml

/-- Whether a character is a blank within a line. -/
def isBlank (c : Char) : Bool := c == ' ' || c == '\t'

/-- Whether a character is a blank or a line break. -/
def isSpace (c : Char) : Bool := isBlank c || c == '\n'

/-- Whether a character is a bracket or a comma. -/
def isFlowMark (c : Char) : Bool := [',', '[', ']', '\x7b', '\x7d'].contains c

/-- What blanks and line breaks in a quoted scalar count as. -/
def folded (spaces : List Char) : List Char :=
  match spaces.count '\n' with
  | 0 => spaces
  | 1 => [' ']
  | n + 1 => List.replicate n '\n'

/-- Reads what stands behind a backslash; a line break stands for nothing. -/
def takeEscape : List Char → Option (List Char × List Char)
  | [] => none
  | '\n' :: rest => some ([], rest.dropWhile isBlank)
  | 'x' :: rest => (Text.takeCharOfHex 2 rest).map fun (c, rest) => ([c], rest)
  | 'u' :: rest => (Text.takeCharOfHex 4 rest).map fun (c, rest) => ([c], rest)
  | 'U' :: rest => (Text.takeCharOfHex 8 rest).map fun (c, rest) => ([c], rest)
  | c :: rest =>
    let escapes : List (Char × Char) :=
      [('0', '\x00'), ('a', '\x07'), ('b', '\x08'), ('t', '\t'), ('\t', '\t'), ('n', '\n'),
        ('v', '\x0b'), ('f', '\x0c'), ('r', '\r'), ('e', '\x1b'), (' ', ' '), ('\x22', '\x22'),
        ('/', '/'), ('\\', '\\'), ('N', '\u0085'), ('_', '\u00a0'), ('L', '\u2028'),
        ('P', '\u2029')]
    (escapes.lookup c).map fun d => ([d], rest)

/-- Reads a scalar in double quotes up to the closing one; `bound` limits its length. -/
def takeDouble : Nat → List Char → Option (List Char × List Char)
  | 0, _ => none
  | _, [] => none
  | bound + 1, c :: rest =>
    if c = '\x22' then some ([], rest)
    else if c = '\\' then do
      let (read, rest) ← takeEscape rest
      (takeDouble bound rest).map fun (more, rest) => (read ++ more, rest)
    else if isSpace c then
      let spaces := (c :: rest).takeWhile isSpace
      (takeDouble bound ((c :: rest).dropWhile isSpace)).map fun (more, rest) =>
        (folded spaces ++ more, rest)
    else (takeDouble bound rest).map fun (more, rest) => (c :: more, rest)

/-- Reads a scalar in single quotes up to the closing one; `bound` limits its length. -/
def takeSingle : Nat → List Char → Option (List Char × List Char)
  | 0, _ => none
  | bound + 1, text =>
    match text with
    | [] => none
    | '\x27' :: '\x27' :: rest =>
      (takeSingle bound rest).map fun (more, rest) => ('\x27' :: more, rest)
    | '\x27' :: rest => some ([], rest)
    | c :: rest =>
      if isSpace c then
        let spaces := text.takeWhile isSpace
        (takeSingle bound (text.dropWhile isSpace)).map fun (more, rest) =>
          (folded spaces ++ more, rest)
      else (takeSingle bound rest).map fun (more, rest) => (c :: more, rest)

/-- Reads a quoted scalar. -/
def takeQuoted : List Char → Option (Scalar × List Char)
  | '\x22' :: rest =>
    (takeDouble (rest.length + 1) rest).map fun (s, rest) => (.text (String.ofList s), rest)
  | '\x27' :: rest =>
    (takeSingle (rest.length + 1) rest).map fun (s, rest) => (.text (String.ofList s), rest)
  | _ => none

/-- Whether a plain scalar may start a text. -/
def startsPlain : List Char → Bool
  | [] => false
  | c :: rest =>
    if [',', '[', ']', '\x7b', '\x7d', '#', '&', '*', '!', '|', '>', '\x27', '\x22', '%', '@',
      '\x60'].contains c || isSpace c then false
    else if c == '-' || c == '?' || c == ':' then rest.head?.any fun d => !isSpace d
    else true

/-- Splits off the plain scalar that a text within brackets starts with, as far as its line and the
text go, with blanks at its end. -/
def plainInFlow : List Char → List Char × List Char
  | [] => ([], [])
  | c :: rest =>
    let ends :=
      isFlowMark c || c == '\n' ||
        (c == ':' && rest.head?.all fun d => isSpace d || isFlowMark d) ||
        (isBlank c && rest.head? == some '#')
    if ends then ([], c :: rest)
    else
      let (more, rest) := plainInFlow rest
      (c :: more, rest)

/-- A text without the blanks at its end. -/
def withoutBlanksAtEnd (text : List Char) : List Char := (text.reverse.dropWhile isBlank).reverse

/-- Reads a scalar within brackets. -/
def takeFlowScalar (text : List Char) : Option (Scalar × List Char) :=
  match takeQuoted text with
  | some read => some read
  | none =>
    if startsPlain text then
      let (plain, rest) := plainInFlow text
      some (.ofPlain (withoutBlanksAtEnd plain), rest)
    else none

/-- A text without the spaces and comments it starts with; `bound` limits their number. -/
def skipFlowGapsUpTo : Nat → List Char → List Char
  | 0, text => text
  | bound + 1, text =>
    match text.dropWhile isSpace with
    | '#' :: rest => skipFlowGapsUpTo bound (rest.dropWhile (· ≠ '\n'))
    | rest => rest

/-- A text without the spaces and comments it starts with. -/
def skipFlowGaps (text : List Char) : List Char := skipFlowGapsUpTo (text.length + 1) text

mutual

/-- Reads a value within brackets. -/
def takeFlow : Nat → List Char → Option (Value × List Char)
  | 0, _ => none
  | bound + 1, text =>
    match text with
    | '[' :: rest =>
      (takeFlowItems bound (skipFlowGaps rest)).map fun (items, rest) => (.sequence items, rest)
    | '\x7b' :: rest =>
      (takeFlowPairs bound (skipFlowGaps rest)).map fun (pairs, rest) => (.mapping pairs, rest)
    | text => (takeFlowScalar text).map fun (scalar, rest) => (.scalar scalar, rest)

/-- Reads the items of a list and the bracket that ends it. -/
def takeFlowItems : Nat → List Char → Option (List Value × List Char)
  | 0, _ => none
  | bound + 1, text =>
    match text with
    | ']' :: rest => some ([], rest)
    | text => do
      let (value, rest) ← takeFlow bound text
      let (item, rest) ←
        match value, skipFlowGaps rest with
        | .scalar key, ':' :: rest =>
          (takeFlow bound (skipFlowGaps rest)).map fun (value, rest) =>
            (Value.mapping [(key, value)], skipFlowGaps rest)
        | value, rest => some (value, rest)
      match rest with
      | ',' :: rest =>
        let (more, rest) ← takeFlowItems bound (skipFlowGaps rest)
        some (item :: more, rest)
      | ']' :: rest => some ([item], rest)
      | _ => none

/-- Reads the pairs of a mapping and the brace that ends it. -/
def takeFlowPairs : Nat → List Char → Option (List (Scalar × Value) × List Char)
  | 0, _ => none
  | bound + 1, text =>
    match text with
    | '\x7d' :: rest => some ([], rest)
    | text => do
      let (key, rest) ← takeFlowScalar text
      let (value, rest) ←
        match skipFlowGaps rest with
        | ':' :: rest =>
          match skipFlowGaps rest with
          | ',' :: rest => some (Value.null, ',' :: rest)
          | '\x7d' :: rest => some (Value.null, '\x7d' :: rest)
          | rest =>
            (takeFlow bound rest).map fun (value, rest) => (value, skipFlowGaps rest)
        | rest => some (Value.null, rest)
      match rest with
      | ',' :: rest =>
        let (more, rest) ← takeFlowPairs bound (skipFlowGaps rest)
        some ((key, value) :: more, rest)
      | '\x7d' :: rest => some ([(key, value)], rest)
      | _ => none

end

end CatalogGuard.Yaml
