import CatalogGuard.Fields
import CatalogGuard.Settings.Tree
import CatalogGuard.Text.Blank
import CatalogGuard.Text.CodePoint

/-!
# Settings in INI files

    file    := { comment | section | pair }
    comment := ( ";" | "#" ) at the start of a line, up to its end
    section := "[" text "]"
    pair    := text ( "=" | ":" ) value

A value goes up to the end of its line, and all values are texts.  Blanks around names and values
do not count.  A value may start with quoted parts, which may go over several lines.  A backslash
escapes the character behind it everywhere but in a comment.

The pairs in front of the first section are settings by themselves.  Of two sections with one name
only the later counts.
-/

namespace CatalogGuard.Settings

open Text (isBlank skipBlanks)

/-- A text without the blanks at its ends. -/
def trimmed (text : List Char) : List Char := (skipBlanks (skipBlanks text).reverse).reverse

/-- What the letter behind a backslash stands for; most characters stand for themselves. -/
def iniEscape (c : Char) : Char :=
  match c with
  | '0' => '\x00'
  | 'a' => '\x07'
  | 'b' => '\x08'
  | 't' => '\t'
  | 'r' => '\r'
  | 'n' => '\n'
  | c => c

/-- Splits a text in front of the first character at which it ends, with the escapes before it
decoded.  `atEnd` tells whether the end of the text will do as well. -/
def takeIniText (ends : Char → Bool) (atEnd : Bool) : Nat → List Char →
    Option (List Char × List Char)
  | 0, _ => none
  | _, [] => if atEnd then some ([], []) else none
  | bound + 1, c :: rest =>
    if ends c then some ([], c :: rest)
    else if c = '\\' then
      match rest with
      | [] => none
      | '\n' :: rest => takeIniText ends atEnd bound rest
      | 'x' :: rest => do
        let (c, rest) ← Text.takeCharOfHex 4 rest
        let (text, rest) ← takeIniText ends atEnd bound rest
        some (c :: text, rest)
      | c :: rest => do
        let (text, rest) ← takeIniText ends atEnd bound rest
        some (iniEscape c :: text, rest)
    else do
      let (text, rest) ← takeIniText ends atEnd bound rest
      some (c :: text, rest)

/-- Splits off a value: quoted parts, and then the rest of the line. -/
def takeIniValue : Nat → Bool → List Char → Option (List Char × List Char)
  | 0, _, _ => none
  | bound + 1, isFirst, text =>
    match text with
    | [] => some ([], [])
    | c :: rest =>
      if c = '\x22' ∨ c = '\x27' then do
        let (part, rest) ← takeIniText (· == c) false bound rest
        let (more, rest) ← takeIniValue bound false (rest.drop 1)
        some (part ++ more, rest)
      else do
        let isEnd (c : Char) : Bool := c == '\n' || c == '\r'
        let (value, rest) ← takeIniText isEnd true (bound + 1) (c :: rest)
        some (if isFirst then trimmed value else (skipBlanks value.reverse).reverse, rest)

/-- The settings that have been read, and the section that is being read. -/
structure IniState where
  /-- The settings in front of the first section and the sections that are complete. -/
  fields : List (String × Tree) := []
  /-- The section that is being read. -/
  current : Option (String × List (String × Tree)) := none

namespace IniState

/-- The settings, the section that is being read included. -/
def settings (state : IniState) : List (String × Tree) :=
  match state.current with
  | none => state.fields
  | some (name, fields) => setField state.fields name (.table fields)

/-- Starts a section. -/
def start (state : IniState) (name : String) : IniState := ⟨state.settings, some (name, [])⟩

/-- Adds a pair. -/
def add (state : IniState) (name value : String) : IniState :=
  match state.current with
  | none => { state with fields := setField state.fields name (.text value) }
  | some (section', fields) =>
    { state with current := some (section', setField fields name (.text value)) }

end IniState

/-- Whether blanks end in a line break. -/
def endInLineBreak (blanks : List Char) : Bool := blanks.getLast? == some '\n'

/-- Reads a file up to its end. -/
def takeIni : Nat → IniState → List Char → Option IniState
  | 0, _, _ => none
  | bound + 1, state, text =>
    match skipBlanks text with
    | [] => some state
    | '[' :: rest => do
      let (name, rest) ← takeIniText (· == ']') false (bound + 1) rest
      takeIni bound (state.start (String.ofList (trimmed name))) (rest.drop 1)
    | c :: rest =>
      if c = ';' ∨ c = '#' then
        if endInLineBreak (Text.leadingBlanks text) then
          takeIni bound state (rest.dropWhile (· ≠ '\n'))
        else none
      else do
        let (name, rest) ←
          takeIniText (fun c => c == '=' || c == ':') false (bound + 1) (c :: rest)
        let name := trimmed name
        let value := (rest.drop 1).dropWhile fun c => c != '\n' && c != '\r' && isBlank c
        let (value, rest) ← takeIniValue (bound + 1) true value
        if name.isEmpty then none
        else takeIni bound (state.add (String.ofList name) (String.ofList value)) rest

/-- The settings in a text. -/
def readIni? (text : String) : Option (List (String × Tree)) :=
  let text := '\n' :: text.toList
  (takeIni (text.length + 1) {} text).map IniState.settings

end CatalogGuard.Settings
