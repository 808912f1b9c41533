import CatalogGuard.Kdl.Number
import CatalogGuard.Kdl.Text

/-!
# Reading KDL documents

    nodes := [ { gap } node { end { gap } node } [ end ] ] { gap }
    gap   := blank | line break | comment | less node
    end   := line break | ";" | line comment | end of text
    node  := [ type ] string { blank ( item | less out ) } [ blank drop ] [ block [ drop ] ]
    item  := string "=" value | value
    out   := { less out blank } item
    drop  := less block { blank less block }
    block := "{" nodes "}"
    value := [ type ] ( string | number | word )
    less  := "/" "-" { blank | line break | comment }

What stands behind a slash and a dash is not part of the document, but it has to be well formed.
A node that is taken out this way needs no end: the next node may follow at once, but a semicolon
may not.  An item that is taken out may itself begin with items that are taken out, and then takes
one more with it.

Strings and numbers stand apart from what follows them, but a word with a hash mark need not.

Where a part may be missing, a text that does not read as that part is left to what may come next.
The readers take a bound on the number of steps; every few steps take a character, so a multiple of
the length of the text is bound enough.
-/

namespace CatalogGuard.Kdl

/-- The words with a meaning, behind their hash mark. -/
def keywords : List (List Char × Value) :=
  [("#true".toList, .bool true), ("#false".toList, .bool false), ("#null".toList, .null),
    ("#inf".toList, .float Number.Binary64.infinity),
    ("#-inf".toList, .float Number.Binary64.negativeInfinity),
    ("#nan".toList, .float Number.Binary64.nan)]

/-- Splits off a keyword. -/
def takeKeyword (text : List Char) : Option (Value × List Char) :=
  keywords.findSome? fun (word, value) => (word.isPrefixOf? text).map fun rest => (value, rest)

/-- Splits off a value without a type. -/
def takePlainValue (text : List Char) : Option (Value × List Char) :=
  match takeKeyword text with
  | some read => some read
  | none =>
    if startsLikeNumber text then
      let rest := text.dropWhile isIdentifierChar
      if standsApart rest then
        (number? (text.takeWhile isIdentifierChar)).map fun value => (value, rest)
      else none
    else (takeString text).map fun (chars, rest) => (.string (String.ofList chars), rest)

/-- What follows a type in parentheses and the blanks behind it. -/
def skipType (text : List Char) : Option (List Char) :=
  match text with
  | '(' :: rest => do
    let (_, rest) ← takeString (skipWithinNode rest)
    match skipWithinNode rest with
    | ')' :: rest => some (skipWithinNode rest)
    | _ => none
  | text => some text

/-- Splits off a value. -/
def takeValue (text : List Char) : Option (Value × List Char) := (skipType text).bind takePlainValue

/-- Splits off an argument or a property. -/
def takeItem (text : List Char) : Option (Item × List Char) :=
  let argument := (takeValue text).map fun (value, rest) => ((⟨none, value⟩ : Item), rest)
  match takeString text with
  | some (key, rest) =>
    match skipWithinNode rest with
    | '=' :: rest =>
      (takeValue (skipWithinNode rest)).map fun (value, rest) =>
        (⟨some (String.ofList key), value⟩, rest)
    | _ => argument
  | none => argument

/-- What follows the blanks at the start of a text, if there are any. -/
def afterBlanks? (text : List Char) : Option (List Char) :=
  let rest := skipWithinNode text
  if rest.length = text.length then none else some rest

/-- What follows an item and the items in front of it that are taken out. -/
def dropItem : Nat → List Char → Option (List Char)
  | 0, _ => none
  | bound + 1, text =>
    match text with
    | '/' :: '-' :: out => do
      let rest ← dropItem bound (skipBetweenNodes out)
      dropItem bound (← afterBlanks? rest)
    | text => (takeItem text).map Prod.snd

/-- Splits off the arguments and properties of a node, each with blanks before it. -/
def takeItems : Nat → List Char → List Item × List Char
  | 0, text => ([], text)
  | bound + 1, text =>
    match afterBlanks? text with
    | none => ([], text)
    | some ('/' :: '-' :: out) =>
      match dropItem bound (skipBetweenNodes out) with
      | none => ([], text)
      | some rest => takeItems bound rest
    | some start =>
      match takeItem start with
      | none => ([], text)
      | some (item, rest) =>
        let (more, rest) := takeItems bound rest
        (item :: more, rest)

/-- What follows the end of a node. -/
def takeNodeEnd (text : List Char) : Option (List Char) :=
  match skipWithinNode text with
  | [] => some []
  | ';' :: rest => some rest
  | '/' :: '/' :: rest => some (skipLineComment rest)
  | rest => takeNewline rest

mutual

/-- Reads nodes with an end between two of them. -/
def takeNodes : Nat → List Char → List Node × List Char
  | 0, text => ([], text)
  | bound + 1, text =>
    let start := skipGaps bound text
    match takeNode bound start with
    | none => ([], start)
    | some (node, rest) =>
      match takeNodeEnd rest with
      | none => ([node], skipGaps bound rest)
      | some rest =>
        let (more, rest) := takeNodes bound rest
        (node :: more, rest)

/-- A text without what may separate nodes, nodes that are taken out included. -/
def skipGaps : Nat → List Char → List Char
  | 0, text => text
  | bound + 1, text =>
    match skipBetweenNodes text with
    | '/' :: '-' :: out =>
      match takeNode bound (skipBetweenNodes out) with
      | none => '/' :: '-' :: out
      | some (_, rest) => skipGaps bound rest
    | rest => rest

/-- Reads a node without its end. -/
def takeNode : Nat → List Char → Option (Node × List Char)
  | 0, _ => none
  | bound + 1, text => do
    let (name, rest) ← takeString (← skipType text)
    let (items, rest) := takeItems (rest.length + 1) rest
    let (children, rest) ← takeChildren bound rest
    some (.mk (String.ofList name) items children, rest)

/-- Reads the children of a node, and the blocks around them that are taken out. -/
def takeChildren : Nat → List Char → Option (List Node × List Char)
  | 0, _ => none
  | bound + 1, text =>
    let before := ((afterBlanks? text).bind (dropBlocks bound)).getD text
    match skipWithinNode before with
    | '\x7b' :: rest => do
      let (children, rest) ← takeBlock bound ('\x7b' :: rest)
      some (children, (dropBlocks bound (skipWithinNode rest)).getD rest)
    | _ => some ([], before)

/-- What follows one or more blocks that are taken out, with blanks between two of them. -/
def dropBlocks : Nat → List Char → Option (List Char)
  | 0, _ => none
  | bound + 1, text =>
    match text with
    | '/' :: '-' :: out => do
      let (_, rest) ← takeBlock bound (skipBetweenNodes out)
      some (((afterBlanks? rest).bind (dropBlocks bound)).getD rest)
    | _ => none

/-- Reads the nodes between two braces. -/
def takeBlock : Nat → List Char → Option (List Node × List Char)
  | 0, _ => none
  | bound + 1, text =>
    match text with
    | '\x7b' :: rest =>
      match takeNodes bound rest with
      | (nodes, '\x7d' :: rest) => some (nodes, rest)
      | _ => none
    | _ => none

end

/-- The document that a text stands for; a byte order mark may come first. -/
def parse? (text : String) : Option (List Node) :=
  let text :=
    match text.toList with
    | '\ufeff' :: rest => rest
    | text => text
  match takeNodes (8 * text.length + 8) text with
  | (nodes, []) => some nodes
  | _ => none

end CatalogGuard.Kdl
