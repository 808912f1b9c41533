import CatalogGuard.FileName
import CatalogGuard.Policy.Merge
import CatalogGuard.Policy.OfKdl
import CatalogGuard.Text.Octets

/-!
# Folders of policy files

A policy is kept in a folder.  Its files are those whose extension is exactly `kdl`; they are read
in the order of their names, and the first one that cannot be read or is refused decides about the
error.  The order in which a folder lists its files is of no effect.
-/

namespace CatalogGuard.Policy

/-- What stands under a name in a folder. -/
inductive Content where
  /-- A file with a text. -/
  | text (text : String)
  /-- A file that is no UTF-8 text, with what is left of it when the broken bytes are replaced. -/
  | binary (mended : String)
  /-- A directory. -/
  | directory
  deriving Repr, DecidableEq

/-- The content of a file with the given bytes. -/
def Content.ofBytes (bytes : ByteArray) : Content :=
  match String.fromUTF8? bytes with
  | some decoded => .text decoded
  | none => .binary (Text.Octets.mend bytes)

/-- A name in a folder with what stands under it. -/
structure Item where
  /-- The name. -/
  name : String
  /-- What stands under it. -/
  content : Content
  deriving Repr, DecidableEq

/-- The items that hold policies, in the order of their names. -/
def policyItems (items : List Item) : List Item :=
  let files := items.filter fun item => FileName.hasExtension "kdl" item.name
  files.mergeSort fun a b => decide (a.name ≤ b.name)

/-- What an item of the folder `directory` contributes. -/
def Item.read (directory : String) (item : Item) : Except Error Fragment :=
  match item.content with
  | .text text => Fragment.parse text
  | .binary _ => .error (.unreadable (FileName.join directory item.name) .invalidData)
  | .directory => .error (.unreadable (FileName.join directory item.name) .isDirectory)

/-- The policy in a folder, given what it lists; `none` means that there is no such folder. -/
def ofFolder (directory : String) (listing : Option (List Item)) : Except Error Policy :=
  match listing with
  | none => .error (.policy (.noDirectory directory))
  | some items => do
    ofFragments (← (policyItems items).mapM (Item.read directory))

end CatalogGuard.Policy
