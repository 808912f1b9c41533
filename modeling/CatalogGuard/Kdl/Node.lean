/-!
# KDL documents

A document is a list of nodes.  A node has a name, arguments and properties in the order in which
they are written, and nodes below it.  Type marks and comments are not kept, and neither is the
difference between a node without children and one with an empty list of them.
-/

namespace CatalogGuard.Kdl

/-- The value of an argument or property. -/
inductive Value where
  /-- A text. -/
  | string (text : String)
  /-- A whole number. -/
  | integer (value : Int)
  /-- A number with a fraction or an exponent. -/
  | float (value : Float)
  /-- A truth value. -/
  | bool (value : Bool)
  /-- No value. -/
  | null
  deriving Repr, DecidableEq

/-- An argument, or a property if it has a key. -/
structure Item where
  /-- The key of a property. -/
  key? : Option String
  /-- The value. -/
  value : Value
  deriving Repr, DecidableEq

/-- A node of a document. -/
inductive Node where
  /-- A name, arguments and properties in their order, and the nodes below. -/
  | mk (name : String) (items : List Item) (children : List Node)
  deriving Repr

namespace Node

mutual

/-- Nodes are equal if their names, their items and the nodes below are. -/
def decEq : (node other : Node) → Decidable (node = other)
  | mk name items children, mk name' items' children' =>
    have := decEqAll children children'
    decidable_of_decidable_of_iff
      (Iff.of_eq (mk.injEq name items children name' items' children')).symm

/-- Lists of nodes are compared member by member. -/
def decEqAll : (nodes others : List Node) → Decidable (nodes = others)
  | [], [] => isTrue rfl
  | [], other :: others => isFalse (List.cons_ne_nil other others).symm
  | node :: nodes, [] => isFalse (List.cons_ne_nil node nodes)
  | node :: nodes, other :: others =>
    have := decEq node other
    have := decEqAll nodes others
    decidable_of_decidable_of_iff (Iff.of_eq (List.cons.injEq node nodes other others)).symm

end

instance : DecidableEq Node := decEq

/-- The name of a node. -/
def name : Node → String
  | mk name _ _ => name

/-- The arguments and properties of a node. -/
def items : Node → List Item
  | mk _ items _ => items

/-- The nodes below a node. -/
def children : Node → List Node
  | mk _ _ children => children

/-- The first argument of a node, if it is a text. -/
def firstText? (node : Node) : Option String :=
  match node.items.find? fun item => item.key?.isNone with
  | some ⟨_, .string text⟩ => some text
  | _ => none

/-- The texts of the nodes named `-` below a node. -/
def dashTexts (node : Node) : List String :=
  (node.children.filter fun child => child.name == "-").filterMap firstText?

end Node

end CatalogGuard.Kdl
