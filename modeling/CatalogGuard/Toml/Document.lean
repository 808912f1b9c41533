import CatalogGuard.Fields
import CatalogGuard.Toml.Scalar

/-!
# Reading TOML documents

A document is read as a sequence of statements, each of which adds to a tree of slots.  A slot
remembers how it came about, because that decides what may still be added to it:

* a value, an inline table or a list of values is complete;
* a table made in passing by a header below it may still get a header of its own;
* a table made by a dotted key may be extended by dotted keys only;
* a table with a header gets its fields from the lines that follow, and no second header.

A path through a list of tables goes on in the last of them.  Lists and inline tables may not stand
in each other too deep, nor may a key have too many parts.
-/

namespace CatalogGuard.Toml

/-- How a table came about. -/
inductive Origin where
  /-- By the header of a table below it. -/
  | passing
  /-- By a dotted key. -/
  | dotted
  /-- By its own header. -/
  | header
  deriving Repr, DecidableEq

/-- A place in a document that is being read. -/
inductive Slot where
  /-- Something complete. -/
  | value (value : Value)
  /-- A table. -/
  | table (origin : Origin) (fields : List (String × Slot))
  /-- A list of tables; the last one comes first. -/
  | tables (last : List (String × Slot)) (before : List (List (String × Slot)))

/-- The fields of a table that is being read. -/
abbrev Fields := List (String × Slot)

/-- Changes the table at the end of a path, making the tables on the way.  `dotted` tells whether
the path belongs to a dotted key; such a path may not pass a table that has a header.  The change
gets the origin of the table, or `none` for the table that the path starts from. -/
def modifyAt (dotted : Bool) (change : Option Origin → Fields → Option Fields) :
    Option Origin → List String → Fields → Option Fields
  | origin, [], fields => change origin fields
  | _, name :: path, fields =>
    match fields.lookup name with
    | none =>
      let origin := if dotted then Origin.dotted else .passing
      (modifyAt dotted change (some origin) path []).map fun inner =>
        setField fields name (.table origin inner)
    | some (.value _) => none
    | some (.tables last before) =>
      (modifyAt dotted change (some .header) path last).map fun last =>
        setField fields name (.tables last before)
    | some (.table origin inner) =>
      if dotted && origin == .header then none
      else
        (modifyAt dotted change (some origin) path inner).map fun inner =>
          setField fields name (.table origin inner)

/-- Adds a field that must not be there yet. -/
def addField (name : String) (slot : Slot) (fields : Fields) : Option Fields :=
  match fields.lookup name with
  | none => some (setField fields name slot)
  | some _ => none

/-- Opens a table by its header. -/
def openTable (path : List String) (root : Fields) : Option Fields :=
  let open? (_ : Option Origin) (fields : Fields) : Option Fields :=
    match path.getLast? with
    | none => none
    | some name =>
      match fields.lookup name with
      | none => some (setField fields name (.table .header []))
      | some (.table .passing inner) => some (setField fields name (.table .header inner))
      | some _ => none
  modifyAt false open? none path.dropLast root

/-- Opens the next table of a list by its header. -/
def openItem (path : List String) (root : Fields) : Option Fields :=
  let open? (_ : Option Origin) (fields : Fields) : Option Fields :=
    match path.getLast? with
    | none => none
    | some name =>
      match fields.lookup name with
      | none => some (setField fields name (.tables [] []))
      | some (.tables last before) =>
        some (setField fields name (.tables [] (last :: before)))
      | some _ => none
  modifyAt false open? none path.dropLast root

/-- Adds a value under a dotted key to a table. -/
def addValue (key : List String) (value : Value) (fields : Fields) : Option Fields :=
  let add (origin : Option Origin) (fields : Fields) : Option Fields :=
    match key.getLast? with
    | none => none
    | some name =>
      match origin with
      | none => addField name (.value value) fields
      | some .dotted => addField name (.value value) fields
      | some _ => none
  modifyAt true add none key.dropLast fields

/-- Adds a value under a dotted key to the table at a path. -/
def addValueAt (path key : List String) (value : Value) (root : Fields) : Option Fields :=
  modifyAt false (fun _ fields => addValue key value fields) none path root

mutual

/-- The value of a slot. -/
def Slot.toValue : Slot → Value
  | .value value => value
  | .table _ fields => .table (fieldValues fields)
  | .tables last before => .array ((tableValues before).reverse ++ [.table (fieldValues last)])

/-- The values of the fields of a table. -/
def fieldValues : List (String × Slot) → List (String × Value)
  | [] => []
  | (name, slot) :: rest => (name, slot.toValue) :: fieldValues rest

/-- The values of several tables. -/
def tableValues : List (List (String × Slot)) → List Value
  | [] => []
  | fields :: rest => .table (fieldValues fields) :: tableValues rest

end

mutual

/-- Reads a value that stands in a number of lists and inline tables. -/
def takeValue : Nat → Nat → List Char → Option (Value × List Char)
  | 0, _, _ => none
  | bound + 1, depth, text =>
    match text with
    | '[' :: rest =>
      if tooDeep ≤ depth + 1 then none
      else (takeItems bound (depth + 1) rest).map fun (items, rest) => (.array items, rest)
    | '\x7b' :: rest =>
      if tooDeep ≤ depth + 1 then none
      else
        match skipBlanks rest with
        | '\x7d' :: rest => some (.table [], rest)
        | rest =>
          (takePairs bound (depth + 1) [] rest).map fun (fields, rest) =>
            (.table (fieldValues fields), rest)
    | '\x22' :: _ => (takeString text).map fun (s, rest) => (.string (String.ofList s), rest)
    | '\x27' :: _ => (takeString text).map fun (s, rest) => (.string (String.ofList s), rest)
    | text => takeScalar text

/-- Reads the items of a list and the bracket that ends it. -/
def takeItems : Nat → Nat → List Char → Option (List Value × List Char)
  | 0, _, _ => none
  | bound + 1, depth, text =>
    match skipLines text with
    | ']' :: rest => some ([], rest)
    | rest => do
      let (item, rest) ← takeValue bound depth rest
      match skipLines rest with
      | ',' :: rest =>
        let (more, rest) ← takeItems bound depth rest
        some (item :: more, rest)
      | ']' :: rest => some ([item], rest)
      | _ => none

/-- Reads the fields of an inline table and the brace that ends it. -/
def takePairs : Nat → Nat → Fields → List Char → Option (Fields × List Char)
  | 0, _, _, _ => none
  | bound + 1, depth, fields, text => do
    let (key, rest) ← takeKey text
    match rest with
    | '=' :: rest =>
      let (value, rest) ← takeValue bound depth (skipBlanks rest)
      let fields ← addValue key value fields
      match skipBlanks rest with
      | ',' :: rest => takePairs bound depth fields rest
      | '\x7d' :: rest => some (fields, rest)
      | _ => none
    | _ => none

end

/-- Reads the header of a table behind its brackets, and the line break behind it. -/
def takeHeader (close text : List Char) : Option (List String × List Char) := do
  let (path, rest) ← takeKey text
  let rest ← close.isPrefixOf? rest
  some (path, ← takeLineEnd rest)

/-- Reads statements up to the end of the text, into the table at a path. -/
def takeStatements : Nat → List String → Fields → List Char → Option Fields
  | 0, _, _, _ => none
  | bound + 1, path, root, text =>
    match skipLines text with
    | [] => some root
    | '[' :: '[' :: rest => do
      let (path, rest) ← takeHeader [']', ']'] rest
      takeStatements bound path (← openItem path root) rest
    | '[' :: rest => do
      let (path, rest) ← takeHeader [']'] rest
      takeStatements bound path (← openTable path root) rest
    | rest => do
      let (key, rest) ← takeKey rest
      match rest with
      | '=' :: rest =>
        let rest := skipBlanks rest
        let (value, rest) ← takeValue (rest.length + 1) 0 rest
        let root ← addValueAt path key value root
        takeStatements bound path root (← takeLineEnd rest)
      | _ => none

/-- The fields of the document that a text stands for; a byte order mark may come first. -/
def parse? (text : String) : Option (List (String × Value)) :=
  let text :=
    match text.toList with
    | '\ufeff' :: rest => rest
    | text => text
  (takeStatements (text.length + 1) [] [] text).map fieldValues

end CatalogGuard.Toml
