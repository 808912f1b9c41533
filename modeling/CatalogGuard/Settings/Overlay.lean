import CatalogGuard.Fields
import CatalogGuard.Settings.Path
import CatalogGuard.Settings.Tree

/-!
# Laying settings over each other

Settings come from several sources, each laid over the ones before.  A source gives values under
names, and a name is a path into a tree.  A table is merged into what is already there, field by
field.  Any other value takes the place of what was there, and a table or list that has to lie on a
path takes the place of a value that is none.

The names of fields count in lower case.  Only what stands in a list is left as it is.
-/

namespace CatalogGuard.Settings

/-- A name with its ASCII letters in lower case. -/
def foldCase (name : String) : String := String.ofList (name.toList.map Char.toLower)

namespace Tree

/-- Gives a field a value; what is no table is dropped for one. -/
def setField (tree : Tree) (name : String) (value : Tree) : Tree :=
  .table (CatalogGuard.setField tree.fields name value)

/-- The place of an index in a list; one that lies too far before the end is the first place. -/
def place (index : Int) (length : Nat) : Nat :=
  if 0 ≤ index then index.toNat else length - index.natAbs

/-- The item at an index. -/
def item? (tree : Tree) (index : Int) : Option Tree := tree.items[place index tree.items.length]?

/-- Gives an item a value; what is no list is dropped for one, and a list that is too short is
filled up with nothing. -/
def setItem (tree : Tree) (index : Int) (value : Tree) : Tree :=
  let n := place index tree.items.length
  let missing := n + 1 - tree.items.length
  .list ((tree.items ++ List.replicate missing nothing).set n value)

end Tree

mutual

/-- Lays a value over the field of a tree. -/
def overlay (name : String) (tree : Tree) : Tree → Tree
  | .table incoming =>
    let inner := (tree.field? (foldCase name)).getD (.table [])
    tree.setField (foldCase name) (overlayFields inner incoming)
  | value => tree.setField (foldCase name) value

/-- Lays several fields over a tree. -/
def overlayFields (tree : Tree) : List (String × Tree) → Tree
  | [] => tree
  | (name, value) :: rest => overlayFields (overlay name tree value) rest

end

/-- Lays a value over what stands at the end of a path. -/
def overlayAt (value : Tree) : List Step → Tree → Tree
  | [], tree => tree
  | [.field name], tree => overlay name tree value
  | [.item index], tree => tree.setItem index value
  | .field name :: next :: path, tree =>
    let inner := (tree.field? (foldCase name)).getD .nothing
    tree.setField (foldCase name) (overlayAt value (next :: path) inner)
  | .item index :: next :: path, tree =>
    let inner := (tree.item? index).getD .nothing
    tree.setItem index (overlayAt value (next :: path) inner)

/-- Lays a source over a tree. -/
def overlaySource (tree : Tree) (source : List (String × Tree)) : Tree :=
  source.foldl (fun tree (name, value) => overlayAt value (stepsOf name) tree) tree

end CatalogGuard.Settings
