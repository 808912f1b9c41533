import CatalogGuard.Number.Layout
import CatalogGuard.Text.CodePoint

/-!
# YAML values

A scalar that is written plainly may be more than a text: nothing, a truth value, a whole number of
64 bits or another number, which is kept as it is spelled.  Quotes make a text of everything.
-/

namespace CatalogGuard.Yaml

/-- A scalar. -/
inductive Scalar where
  /-- Nothing. -/
  | null
  /-- A truth value. -/
  | bool (value : Bool)
  /-- A whole number. -/
  | integer (value : Int)
  /-- Another number, as spelled. -/
  | real (spelling : String)
  /-- A text. -/
  | text (value : String)
  deriving Repr, DecidableEq

/-- A value of a document. -/
inductive Value where
  /-- A scalar. -/
  | scalar (scalar : Scalar)
  /-- A list of values. -/
  | sequence (items : List Value)
  /-- Values under scalars. -/
  | mapping (pairs : List (Scalar × Value))
  deriving Repr

/-- The value that there is none. -/
def Value.null : Value := .scalar .null

/-- The whole number of 64 bits that a plain scalar stands for. -/
def integer? (plain : List Char) : Option Int := do
  let (negative, digits) := Number.takeSign plain
  let n ←
    match plain with
    | '0' :: 'x' :: c :: digits => Text.numberInBase? 16 (c :: digits)
    | '0' :: 'o' :: c :: digits => Text.numberInBase? 8 (c :: digits)
    | _ => if digits.isEmpty then none else Text.numberInBase? 10 digits
  let value : Int := if negative then -(n : Int) else n
  if -0x8000000000000000 ≤ value ∧ value < 0x8000000000000000 then some value else none

/-- The spellings of the infinities and of the number that is none. -/
def realWords : List String :=
  [".inf", ".Inf", ".INF", "+.inf", "+.Inf", "+.INF", "-.inf", "-.Inf", "-.INF", ".nan", "NaN",
    ".NAN"]

/-- What a plain scalar stands for. -/
def Scalar.ofPlain (plain : List Char) : Scalar :=
  let word := String.ofList plain
  if plain = [] ∨ word = "~" ∨ word = "null" then .null
  else if word = "true" then .bool true
  else if word = "false" then .bool false
  else
    match integer? plain with
    | some n => .integer n
    | none =>
      if realWords.contains word || (Number.parse? plain).isSome then .real word else .text word

end CatalogGuard.Yaml
