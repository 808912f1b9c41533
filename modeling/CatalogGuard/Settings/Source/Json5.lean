import CatalogGuard.Fields
import CatalogGuard.Number.Layout
import CatalogGuard.Settings.Tree
import CatalogGuard.Text.Blank
import CatalogGuard.Text.CodePoint
import CatalogGuard.Text.WordChar

/-!
# Settings in JSON5

JSON with comments, commas behind the last item, names without quotes, strings in single quotes and
over several lines, and more forms of numbers.  A text holds one object, whose fields are the
settings.
-/

namespace CatalogGuard.Settings

namespace Json5

open Number (isAsciiDigit natOfDigits)

/-- Whether a character ends a line. -/
def isLineBreak (c : Char) : Bool := c == '\n' || c == '\r' || c == '\u2028' || c == '\u2029'

/-- Whether a character may stand between two tokens. -/
def isSpace (c : Char) : Bool := (Text.isBlank c && c != '\u0085') || c == '\ufeff'

/-- What follows the end of a block comment. -/
def skipBlock : List Char → Option (List Char)
  | '*' :: '/' :: rest => some rest
  | _ :: rest => skipBlock rest
  | [] => none

/-- A text without the spaces and comments it starts with; `bound` limits their number. -/
def skipGapsUpTo : Nat → List Char → List Char
  | 0, text => text
  | bound + 1, text =>
    match text.dropWhile isSpace with
    | '/' :: '/' :: rest => skipGapsUpTo bound (rest.dropWhile fun c => !isLineBreak c)
    | '/' :: '*' :: rest =>
      match skipBlock rest with
      | some rest => skipGapsUpTo bound rest
      | none => '/' :: '*' :: rest
    | rest => rest

/-- A text without the spaces and comments it starts with. -/
def skipGaps (text : List Char) : List Char := skipGapsUpTo (text.length + 1) text

/-- Reads the digits behind `u`, or the two such escapes that make up one character. -/
def takeUnits (text : List Char) : Option (Char × List Char) :=
  match Text.takeCharOfHex 4 text with
  | some read => some read
  | none => do
    let high ← Text.numberInBase? 16 (text.take 4)
    match text.drop 4 with
    | '\\' :: 'u' :: rest =>
      let low ← Text.numberInBase? 16 (rest.take 4)
      if 0xd800 ≤ high ∧ high < 0xdc00 ∧ 0xdc00 ≤ low ∧ low < 0xe000 then
        some (Char.ofNat (0x10000 + 0x400 * (high - 0xd800) + (low - 0xdc00)), rest.drop 4)
      else none
    | _ => none

/-- Reads what stands behind a backslash; a line break stands for nothing. -/
def takeEscape : List Char → Option (List Char × List Char)
  | [] => none
  | '\r' :: '\n' :: rest => some ([], rest)
  | 'b' :: rest => some (['\x08'], rest)
  | 'f' :: rest => some (['\x0c'], rest)
  | 'n' :: rest => some (['\n'], rest)
  | 'r' :: rest => some (['\r'], rest)
  | 't' :: rest => some (['\t'], rest)
  | 'v' :: rest => some (['\x0b'], rest)
  | '0' :: rest => some (['\x00'], rest)
  | 'x' :: rest => (Text.takeCharOfHex 2 rest).map fun (c, rest) => ([c], rest)
  | 'u' :: rest => (takeUnits rest).map fun (c, rest) => ([c], rest)
  | c :: rest =>
    if isLineBreak c then some ([], rest)
    else if isAsciiDigit c then none
    else some ([c], rest)

/-- Reads a string up to its closing quote; `bound` limits its length. -/
def takeStringUpTo (quote : Char) : Nat → List Char → Option (List Char × List Char)
  | 0, _ => none
  | _, [] => none
  | bound + 1, c :: rest =>
    if c = quote then some ([], rest)
    else if c = '\\' then do
      let (read, rest) ← takeEscape rest
      let (more, rest) ← takeStringUpTo quote bound rest
      some (read ++ more, rest)
    else if c = '\n' ∨ c = '\r' then none
    else (takeStringUpTo quote bound rest).map fun (more, rest) => (c :: more, rest)

/-- Reads a string. -/
def takeString : List Char → Option (List Char × List Char)
  | '\x22' :: rest => takeStringUpTo '\x22' (rest.length + 1) rest
  | '\x27' :: rest => takeStringUpTo '\x27' (rest.length + 1) rest
  | _ => none

/-- Whether a character may stand in a name without quotes. -/
def isNameChar (c : Char) : Bool :=
  Text.isWordChar c || c == '$' || c == '\u200c' || c == '\u200d'

/-- Reads the name of a field. -/
def takeName (text : List Char) : Option (String × List Char) :=
  match text.takeWhile isNameChar with
  | [] => (takeString text).map fun (name, rest) => (String.ofList name, rest)
  | c :: name =>
    if isAsciiDigit c then none
    else some (String.ofList (c :: name), text.dropWhile isNameChar)

/-- Splits off the digits of a number without a sign, in front of the power of ten. -/
def takeDigits (text : List Char) : Option (List Char × List Char) :=
  let whole :=
    match text with
    | '0' :: _ => ['0']
    | text => text.takeWhile isAsciiDigit
  match text.drop whole.length with
  | '.' :: rest =>
    let fraction := rest.takeWhile isAsciiDigit
    if whole.isEmpty && fraction.isEmpty then none
    else some (whole ++ '.' :: fraction, rest.drop fraction.length)
  | rest => if whole.isEmpty then none else some (whole, rest)

/-- Splits off a power of ten, if one comes next. -/
def takePower (text : List Char) : List Char × List Char :=
  match text with
  | [] => ([], [])
  | mark :: rest =>
    let sign := (rest.take 1).filter fun c => c == '+' || c == '-'
    let digits := (rest.drop sign.length).takeWhile isAsciiDigit
    if (mark = 'e' ∨ mark = 'E') ∧ digits ≠ [] then
      (mark :: (sign ++ digits), rest.drop (sign.length + digits.length))
    else ([], text)

/-- The tree that a decimal number stands for.  A whole number has 64 bits; any other number has to
be finite. -/
def decimal? (spelling : List Char) : Option Tree :=
  let (negative, digits) := Number.takeSign spelling
  if digits.all isAsciiDigit then
    let n : Int := natOfDigits digits
    let n := if negative then -n else n
    if -0x8000000000000000 ≤ n ∧ n < 0x8000000000000000 then some (.ofInt n) else none
  else do
    let x ← Number.parseFinite? spelling
    if x.isInf then none else some (.scalar (String.ofList (Number.display x)))

/-- Reads a decimal number behind its sign. -/
def takeDecimal (sign text : List Char) : Option (Tree × List Char) := do
  let (digits, rest) ← takeDigits text
  let (power, rest) := takePower rest
  (decimal? (sign ++ digits ++ power)).map fun tree => (tree, rest)

/-- Reads a number of 32 bits behind `0x`. -/
def takeHex (text : List Char) : Option (Tree × List Char) := do
  let digits := text.takeWhile fun c => (Text.Quoted.hexValue c).isSome
  let n ← Text.numberInBase? 16 digits
  if n < 0x100000000 then some (.ofInt n, text.drop digits.length) else none

/-- Reads a number or a word.  Neither a hexadecimal number nor a word has a plus sign, and only a
word may have a minus sign. -/
def takeScalar (text : List Char) : Option (Tree × List Char) :=
  let words : List (String × Tree) :=
    [("null", .nothing), ("true", .ofBool true), ("false", .ofBool false),
      ("Infinity", .scalar "inf"), ("-Infinity", .scalar "-inf"), ("NaN", .scalar "NaN"),
      ("-NaN", .scalar "NaN")]
  let word? := words.findSome? fun (word, tree) =>
    (word.toList.isPrefixOf? text).map fun rest => (tree, rest)
  match word?, text with
  | some read, _ => some read
  | none, '0' :: 'x' :: c :: rest =>
    if (Text.Quoted.hexValue c).isSome then takeHex (c :: rest) else none
  | none, '0' :: 'X' :: c :: rest =>
    if (Text.Quoted.hexValue c).isSome then takeHex (c :: rest) else none
  | none, '+' :: rest => takeDecimal ['+'] rest
  | none, '-' :: rest => takeDecimal ['-'] rest
  | none, rest => takeDecimal [] rest

mutual

/-- Reads a value. -/
def takeValue : Nat → List Char → Option (Tree × List Char)
  | 0, _ => none
  | bound + 1, text =>
    match text with
    | '[' :: rest => (takeItems bound (skipGaps rest)).map fun (items, rest) => (.list items, rest)
    | '\x7b' :: rest =>
      (takeFields bound [] (skipGaps rest)).map fun (fields, rest) => (.table fields, rest)
    | '\x22' :: _ => (takeString text).map fun (s, rest) => (.text (String.ofList s), rest)
    | '\x27' :: _ => (takeString text).map fun (s, rest) => (.text (String.ofList s), rest)
    | text => takeScalar text

/-- Reads the items of a list and the bracket that ends it. -/
def takeItems : Nat → List Char → Option (List Tree × List Char)
  | 0, _ => none
  | bound + 1, text =>
    match text with
    | ']' :: rest => some ([], rest)
    | text => do
      let (item, rest) ← takeValue bound text
      match skipGaps rest with
      | ',' :: rest =>
        let (more, rest) ← takeItems bound (skipGaps rest)
        some (item :: more, rest)
      | ']' :: rest => some ([item], rest)
      | _ => none

/-- Reads the fields of an object and the brace that ends it, behind fields that were read
before. -/
def takeFields : Nat → List (String × Tree) → List Char →
    Option (List (String × Tree) × List Char)
  | 0, _, _ => none
  | bound + 1, read, text =>
    match text with
    | '\x7d' :: rest => some (read, rest)
    | text => do
      let (name, rest) ← takeName text
      match skipGaps rest with
      | ':' :: rest =>
        let (value, rest) ← takeValue bound (skipGaps rest)
        let read := setField read name value
        match skipGaps rest with
        | ',' :: rest => takeFields bound read (skipGaps rest)
        | '\x7d' :: rest => some (read, rest)
        | _ => none
      | _ => none

end

end Json5

/-- The settings in a text. -/
def readJson5? (text : String) : Option (List (String × Tree)) :=
  match Json5.takeValue (2 * text.length + 2) (Json5.skipGaps text.toList) with
  | some (.table fields, rest) => if (Json5.skipGaps rest).isEmpty then some fields else none
  | _ => none

end CatalogGuard.Settings
