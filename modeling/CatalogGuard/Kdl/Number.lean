import CatalogGuard.Kdl.Node
import CatalogGuard.Number.Layout
import CatalogGuard.Text.Quoted

/-!
# Numbers of KDL

Whole numbers in four bases, and decimal numbers with a fraction or an exponent.  Underscores may
stand between and behind digits, and the letter that marks a base may be small or capital.

Every run of digits has to stand for a number below 2 ^ 127 by itself, be it a whole number, the
part of a decimal number before or behind the point, or an exponent; signs do not count.
-/

namespace CatalogGuard.Kdl

open Number (natOfDigits takeSign)

/-- The value of a digit in a base up to sixteen. -/
def digitValue? (base : Nat) (c : Char) : Option Nat :=
  (Text.Quoted.hexValue c).filter fun n => n < base

/-- Whether a text is digits of a base with underscores behind the first one. -/
def areDigits (base : Nat) : List Char → Bool
  | [] => false
  | c :: rest =>
    (digitValue? base c).isSome && rest.all fun d => d == '_' || (digitValue? base d).isSome

/-- The number that digits stand for. -/
def numberOfDigits (base : Nat) (digits : List Char) : Nat :=
  (digits.filterMap (digitValue? base)).foldl (fun n d => base * n + d) 0

/-- Whether a text is digits of a base that stand for a number below 2 ^ 127. -/
def isWord (base : Nat) (digits : List Char) : Bool :=
  areDigits base digits && decide (numberOfDigits base digits < Nat.pow 2 127)

/-- The number that digits with a sign stand for. -/
def signed (negative : Bool) (base : Nat) (digits : List Char) : Int :=
  if negative then -(numberOfDigits base digits : Int) else numberOfDigits base digits

/-- The whole number with the given digits, unless it is too large. -/
def integer? (negative : Bool) (base : Nat) (digits : List Char) : Option Value :=
  if isWord base digits then some (.integer (signed negative base digits)) else none

/-- The power of ten written behind `e`. -/
def exponent? (text : List Char) : Option Int :=
  let (negative, digits) := takeSign text
  if isWord 10 digits then some (signed negative 10 digits) else none

/-- The decimal number with the given digits and exponent. -/
def float? (negative : Bool) (whole fraction : List Char) (exponent : Option Int) :
    Option Value :=
  if isWord 10 whole && (fraction.isEmpty || isWord 10 fraction) then
    exponent.map fun e =>
      let places := (fraction.filter (· != '_')).length
      .float (Number.Binary64.ofDecimal negative (numberOfDigits 10 (whole ++ fraction))
        (e - places))
  else none

/-- The number in base ten that a text without a sign stands for. -/
def decimal? (negative : Bool) (text : List Char) : Option Value :=
  let isMark (c : Char) : Bool := c == 'e' || c == 'E'
  let mantissa := text.takeWhile fun c => !isMark c
  let power := text.dropWhile fun c => !isMark c
  let whole := mantissa.takeWhile (· != '.')
  match mantissa.dropWhile (· != '.'), power with
  | [], [] => integer? negative 10 whole
  | [], _ :: power => float? negative whole [] (exponent? power)
  | _ :: fraction, power =>
    let exponent :=
      match power with
      | [] => some 0
      | _ :: power => exponent? power
    if fraction.isEmpty then none else float? negative whole fraction exponent

/-- The base that a letter behind a zero marks. -/
def baseOf? (mark : Char) : Option Nat :=
  match mark.toLower with
  | 'x' => some 16
  | 'o' => some 8
  | 'b' => some 2
  | _ => none

/-- The number that a text stands for. -/
def number? (text : List Char) : Option Value :=
  match takeSign text with
  | (negative, '0' :: mark :: digits) =>
    match baseOf? mark with
    | some base => integer? negative base digits
    | none => decimal? negative ('0' :: mark :: digits)
  | (negative, text) => decimal? negative text

end CatalogGuard.Kdl
