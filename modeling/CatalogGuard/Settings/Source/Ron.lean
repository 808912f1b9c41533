import CatalogGuard.Fields
import CatalogGuard.Number.Layout
import CatalogGuard.Settings.Tree
import CatalogGuard.Text.CodePoint

/-!
# Settings in RON

    value  := word | number | text | "[" values "]" | "{" pairs "}" | [ name ] fields
    fields := "(" [ name ":" value { "," name ":" value } [ "," ] ] ")" | "(" values ")"

A structure with named fields and a map are both tables; the names of a map may be given as texts or
characters.  A structure without names is a list, and a name alone says that there is nothing.  An
optional value is the value or nothing.

Spaces and comments may stand between all tokens, and a block comment may hold block comments.
-/

namespace CatalogGuard.Settings

namespace Ron

open Number (isAsciiDigit)

/-- Whether a character may stand between two tokens. -/
def isSpace (c : Char) : Bool := c == ' ' || c == '\n' || c == '\t' || c == '\r'

/-- What follows the end of a block comment that stands in a number of others. -/
def skipBlock : Nat → List Char → Option (List Char)
  | depth, '/' :: '*' :: rest => skipBlock (depth + 1) rest
  | 0, '*' :: '/' :: rest => some rest
  | depth + 1, '*' :: '/' :: rest => skipBlock depth rest
  | depth, _ :: rest => skipBlock depth rest
  | _, [] => none

/-- A text without the spaces and comments it starts with; `bound` limits their number. -/
def skipGapsUpTo : Nat → List Char → List Char
  | 0, text => text
  | bound + 1, text =>
    match text.dropWhile isSpace with
    | '/' :: '/' :: rest => skipGapsUpTo bound (rest.dropWhile (· ≠ '\n'))
    | '/' :: '*' :: rest =>
      match skipBlock 0 rest with
      | some rest => skipGapsUpTo bound rest
      | none => '/' :: '*' :: rest
    | rest => rest

/-- A text without the spaces and comments it starts with. -/
def skipGaps (text : List Char) : List Char := skipGapsUpTo (text.length + 1) text

/-- Reads what stands behind a backslash. -/
def takeEscape : List Char → Option (Char × List Char)
  | '\x22' :: rest => some ('\x22', rest)
  | '\x27' :: rest => some ('\x27', rest)
  | '\\' :: rest => some ('\\', rest)
  | 'n' :: rest => some ('\n', rest)
  | 'r' :: rest => some ('\r', rest)
  | 't' :: rest => some ('\t', rest)
  | '0' :: rest => some ('\x00', rest)
  | 'x' :: rest => Text.takeCharOfHex 2 rest
  | 'u' :: rest => Text.takeCharInBraces rest
  | _ => none

/-- Reads a string up to its closing quote; `bound` limits its length. -/
def takeStringUpTo : Nat → List Char → Option (List Char × List Char)
  | 0, _ => none
  | bound + 1, text =>
    match text with
    | [] => none
    | '\x22' :: rest => some ([], rest)
    | '\\' :: rest => do
      let (c, rest) ← takeEscape rest
      (takeStringUpTo bound rest).map fun (more, rest) => (c :: more, rest)
    | c :: rest => (takeStringUpTo bound rest).map fun (more, rest) => (c :: more, rest)

/-- Reads a raw string up to a quote with a number of hash marks behind it. -/
def takeRaw (hashes : Nat) : List Char → Option (List Char × List Char)
  | [] => none
  | c :: rest =>
    match ('\x22' :: List.replicate hashes '#').isPrefixOf? (c :: rest) with
    | some rest => some ([], rest)
    | none => (takeRaw hashes rest).map fun (more, rest) => (c :: more, rest)

/-- Reads a text: a string, a raw string or a character. -/
def takeText (text : List Char) : Option (String × List Char) :=
  match text with
  | '\x22' :: rest =>
    (takeStringUpTo (rest.length + 1) rest).map fun (s, rest) => (String.ofList s, rest)
  | 'r' :: rest =>
    let hashes := rest.takeWhile (· == '#')
    match rest.drop hashes.length with
    | '\x22' :: rest =>
      (takeRaw hashes.length rest).map fun (s, rest) => (String.ofList s, rest)
    | _ => none
  | '\x27' :: '\\' :: rest => do
    let (c, rest) ← takeEscape rest
    (['\x27'].isPrefixOf? rest).map fun rest => (String.ofList [c], rest)
  | '\x27' :: c :: rest => (['\x27'].isPrefixOf? rest).map fun rest => (String.ofList [c], rest)
  | _ => none

/-- Whether a character may stand in a name. -/
def isNameChar (c : Char) : Bool := c.isAlphanum || c == '_'

/-- Splits off a name. -/
def takeName (text : List Char) : Option (String × List Char) :=
  match text with
  | c :: _ =>
    if isNameChar c && !isAsciiDigit c then
      some (String.ofList (text.takeWhile isNameChar), text.dropWhile isNameChar)
    else none
  | [] => none

/-- The tree of a double. -/
def ofFloat (x : Float) : Tree := .scalar (String.ofList (Number.display x))

/-- The whole number that digits with underscores behind the first one write in a base. -/
def wholeInBase? (base : Nat) (digits : List Char) : Option Nat :=
  match digits with
  | [] => none
  | '_' :: _ => none
  | digits => Text.numberInBase? base (digits.filter (· != '_'))

/-- Splits off a whole number without a sign, which may have the mark of a base. -/
def takeWhole (text : List Char) : Option (Nat × List Char) :=
  let isDigit (c : Char) : Bool := (Text.Quoted.hexValue c).isSome || c == '_'
  let (base, text) :=
    match text with
    | '0' :: 'x' :: rest => (16, rest)
    | '0' :: 'o' :: rest => (8, rest)
    | '0' :: 'b' :: rest => (2, rest)
    | text => (10, text)
  (wholeInBase? base (text.takeWhile isDigit)).map fun n => (n, text.dropWhile isDigit)

/-- Reads a number.  A whole number that does not fit in 64 bits becomes a double. -/
def takeNumber (text : List Char) : Option (Tree × List Char) :=
  let (negative, rest) := Number.takeSign text
  let isPart (c : Char) : Bool := isAsciiDigit c || ['e', 'E', '.', '+', '-', '_'].contains c
  let isDigit (c : Char) : Bool := (Text.Quoted.hexValue c).isSome || c == '_'
  let isWhole := (rest.takeWhile isPart).length ≤ (rest.takeWhile isDigit).length
  let double? := do
    let spelling := text.takeWhile isPart
    (Number.parseFinite? spelling).map fun x => (ofFloat x, text.dropWhile isPart)
  match takeWhole rest with
  | some (n, after) =>
    let value : Int := if negative then -(n : Int) else n
    if !isWhole then double?
    else if -0x8000000000000000 ≤ value ∧ value < 0x8000000000000000 then
      some (.ofInt value, after)
    else if n < 0x10000000000000000 then some (ofFloat (Number.Binary64.ofInt value), after)
    else double?
  | none => double?

/-- Whether a structure starts with the name of a field. -/
def startsWithField (text : List Char) : Bool :=
  match takeName text with
  | some (_, rest) => (skipGaps rest).head? == some ':'
  | none => false

/-- The words with a meaning. -/
def word? : String → Option Tree
  | "true" => some (.ofBool true)
  | "false" => some (.ofBool false)
  | "None" => some .nothing
  | "inf" => some (.scalar "inf")
  | "NaN" => some (.scalar "NaN")
  | _ => none

/-- What follows a comma and the gap behind it, or a text that ends in a mark as it is. -/
def afterItem (mark : Char) (text : List Char) : Option (List Char) :=
  match skipGaps text with
  | ',' :: rest => some (skipGaps rest)
  | c :: rest => if c = mark then some (c :: rest) else none
  | [] => none

mutual

/-- Reads a value. -/
def takeValue : Nat → List Char → Option (Tree × List Char)
  | 0, _ => none
  | bound + 1, text =>
    match takeText text with
    | some (value, rest) => some (.text value, rest)
    | none =>
      match takeName text with
      | some ("Some", rest) => do
        let rest ← ['('].isPrefixOf? (skipGaps rest)
        let (value, rest) ← takeValue bound (skipGaps rest)
        let rest ← afterItem ')' rest
        ([')'].isPrefixOf? rest).map fun rest => (value, rest)
      | some (name, rest) =>
        match word? name with
        | some value => some (value, rest)
        | none =>
          match skipGaps rest with
          | '(' :: after => takeStructure bound (skipGaps after)
          | _ => some (.nothing, rest)
      | none =>
        match text with
        | '(' :: ')' :: rest => some (.nothing, rest)
        | '(' :: rest => takeStructure bound (skipGaps rest)
        | '[' :: rest =>
          (takeItems bound ']' (skipGaps rest)).map fun (items, rest) => (.list items, rest)
        | '\x7b' :: rest =>
          (takePairs bound [] (skipGaps rest)).map fun (fields, rest) => (.table fields, rest)
        | '-' :: 'i' :: 'n' :: 'f' :: rest => some (.scalar "-inf", rest)
        | text => takeNumber text

/-- Reads what stands in the parentheses of a structure, and the one that ends it. -/
def takeStructure : Nat → List Char → Option (Tree × List Char)
  | 0, _ => none
  | bound + 1, text =>
    if startsWithField text then
      (takeFields bound [] text).map fun (fields, rest) => (.table fields, rest)
    else (takeItems bound ')' text).map fun (items, rest) => (.list items, rest)

/-- Reads values up to a mark. -/
def takeItems : Nat → Char → List Char → Option (List Tree × List Char)
  | 0, _, _ => none
  | _, _, [] => none
  | bound + 1, mark, c :: text =>
    if c = mark then some ([], text)
    else do
      let (item, rest) ← takeValue bound (c :: text)
      let (more, rest) ← takeItems bound mark (← afterItem mark rest)
      some (item :: more, rest)

/-- Reads the named fields of a structure, behind fields that were read before. -/
def takeFields : Nat → List (String × Tree) → List Char →
    Option (List (String × Tree) × List Char)
  | 0, _, _ => none
  | _, read, ')' :: rest => some (read, rest)
  | bound + 1, read, text => do
    let (name, rest) ← takeName text
    let rest ← [':'].isPrefixOf? (skipGaps rest)
    let (value, rest) ← takeValue bound (skipGaps rest)
    takeFields bound (setField read name value) (← afterItem ')' rest)

/-- Reads the pairs of a map, behind pairs that were read before. -/
def takePairs : Nat → List (String × Tree) → List Char →
    Option (List (String × Tree) × List Char)
  | 0, _, _ => none
  | _, read, '\x7d' :: rest => some (read, rest)
  | bound + 1, read, text => do
    let (name, rest) ← takeText text
    let rest ← [':'].isPrefixOf? (skipGaps rest)
    let (value, rest) ← takeValue bound (skipGaps rest)
    takePairs bound (setField read name value) (← afterItem '\x7d' rest)

end

end Ron

/-- The settings in a text. -/
def readRon? (text : String) : Option (List (String × Tree)) :=
  match Ron.takeValue (2 * text.length + 2) (Ron.skipGaps text.toList) with
  | some (.table fields, rest) => if (Ron.skipGaps rest).isEmpty then some fields else none
  | _ => none

end CatalogGuard.Settings
