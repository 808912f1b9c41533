import CatalogGuard.Kdl.Document
import CatalogGuard.Policy.Error
import CatalogGuard.Policy.Fragment
import CatalogGuard.Rule.Reader

/-!
# Policies in KDL

A document may hold four kinds of nodes, in any number and order; all others are skipped.

* `catalog` holds entries, and an `entry` holds entries and one list of `authors`.
* `claims` lists the claims of a login.
* `registered` lists logins.
* `rule` holds the text of a rule.

The first thing wrong in the order of the document is reported; of an entry, its properties come
before what is below it.  If a property is given more than once, the last value counts.

Claims are followed by their texts, cut at the slashes.  A claim must therefore be a query without
filters in its canonical form: only then do its pieces mean what its patterns mean.
-/

namespace CatalogGuard.Policy

open Kdl (Node Item Value)

/-- The value of a property of an entry. -/
def propertyValue : Value → PropertyValue
  | .string text => .string text
  | .integer n => .number (Number.Binary64.ofInt n)
  | .float x => .number x
  | .bool b => .bool b
  | .null => .null

/-- Whether a text can be the name or the link of an entry. -/
def isSegment (text : String) : Bool := !text.isEmpty && !text.toList.contains '/'

/-- An entry after one of its properties has been read. -/
def applyProperty (entry : Entry) (key : String) (value : Value) : Except Error Entry :=
  if key = "access" then
    match value with
    | .string text =>
      match AccessLevel.ofText? text with
      | some level => .ok { entry with access := level }
      | none => .error (.entry (.unknownAccess entry.name text))
    | _ => .error (.entry (.accessKind entry.name))
  else if key = "draft" then
    match value with
    | .bool draft => .ok { entry with draft }
    | _ => .error (.entry (.draftKind entry.name))
  else if key = "link" then
    match value with
    | .string link =>
      if isSegment link then .ok { entry with link } else .error (.entry (.badLink entry.name))
    | _ => .error (.entry (.badLink entry.name))
  else .ok { entry with data := entry.data.set key (propertyValue value) }

/-- An entry after an argument or a property has been read; arguments say nothing. -/
def applyItem (entry : Entry) (item : Item) : Except Error Entry :=
  match item.key? with
  | none => .ok entry
  | some key => applyProperty entry key item.value

mutual

/-- The branch that an `entry` node describes. -/
def readEntry : Node → Except Error Branch
  | .mk node items below =>
    match (Node.mk node items below).firstText? with
    | none => .error (.entry .nameMissing)
    | some name =>
      if isSegment name then do
        let entry ← items.foldlM applyItem (.named name)
        let (authors, children) ← readBelow name [] [] below
        .ok (.node { entry with authors } children)
      else .error (.entry (.badName name))

/-- The authors and the branches that the nodes below an entry describe, behind those already
read. -/
def readBelow (name : String) (authors : List String) (children : List Branch) :
    List Node → Except Error (List String × List Branch)
  | [] => .ok (authors, children)
  | node :: rest =>
    if node.name = "entry" then do
      let child ← readEntry node
      if children.any fun sibling => sibling.name == child.name then
        .error (.entry (.duplicate child.name name))
      else readBelow name authors (children ++ [child]) rest
    else if node.name = "authors" then readBelow name node.dashTexts children rest
    else .error (.entry (.child node.name name))

end

/-- Checks that a text can be a claim. -/
def validateClaim (claim : String) : Except Error Unit :=
  match Query.parse claim with
  | .error complaint => .error (.rule claim complaint)
  | .ok query =>
    if query.any fun pattern => pattern.filter.isSome then .error (.claim claim .filters)
    else
      let canonical := String.ofList (Query.canonical query)
      if canonical = claim then .ok () else .error (.claim claim (.spelling canonical))

/-- The branch that a node in a catalog describes. -/
def readCatalogChild (node : Node) : Except Error Branch :=
  if node.name = "entry" then readEntry node else .error (.policy (.catalogChild node.name))

/-- What a top-level node contributes. -/
def readNode (node : Node) : Except Error Fragment :=
  if node.name = "catalog" then do
    let entries ← node.children.mapM readCatalogChild
    .ok { Fragment.empty with entries }
  else if node.name = "claims" then
    match node.firstText? with
    | none => .error (.policy .loginMissing)
    | some login => do
      node.dashTexts.forM validateClaim
      .ok { Fragment.empty with claims := [(login, node.dashTexts)] }
  else if node.name = "registered" then
    .ok { Fragment.empty with registered := node.dashTexts }
  else if node.name = "rule" then
    match node.firstText? with
    | none => .error (.policy .ruleMissing)
    | some text =>
      match Rule.parse text with
      | .error complaint => .error (.rule text complaint)
      | .ok rule => .ok { Fragment.empty with rules := [rule] }
  else .ok .empty

/-- What the nodes of a document contribute together. -/
def Fragment.ofNodes (nodes : List Node) : Except Error Fragment := do
  .ok (.concat (← nodes.mapM readNode))

/-- What a document contributes. -/
def Fragment.parse (text : String) : Except Error Fragment :=
  match Kdl.parse? text with
  | none => .error .notKdl
  | some nodes => Fragment.ofNodes nodes

end CatalogGuard.Policy
