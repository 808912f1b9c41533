import CatalogGuard.Number.Layout
import CatalogGuard.Rule.Basic
import CatalogGuard.Text.Blank
import CatalogGuard.Text.WordChar

/-!
# The grammar of rules and queries

Which texts stand for which rules, said without a reader:

    rule   ::= blank* [ "after" blank+ date [ blank+ "until" blank+ date ]
                      | "until" blank+ date ] query
    query  ::= blank* { "/" blank* name blank* [ filter blank* ] }
    filter ::= "[" blank* "@" property blank* sign blank* value blank* "]"
    value  ::= quoted string | "true" | "false" | "null" | number
    number ::= [ "+" | "-" ] digit+ [ "." digit+ ]
    date   ::= YYYY-MM-DDTHH:mm

Each production is a relation between a text and what it stands for, with one constructor for each
of its alternatives.  Nothing here says how far a token reaches when more text follows: a text
derives a rule if it can be cut into the parts of a production at all.

What lies outside the grammar is taken as it is: the blanks and word characters of the Unicode
standard, the decoding of quoted strings, the double next to a decimal fraction, and the calendar,
which is built into `Instant`.

## Main definitions

* `QueryText` — a text derives a query
* `RuleText` — a text derives a rule
-/

namespace CatalogGuard.Rule.Grammar

open Number (natOfDigits)
open Text (isBlank isWordChar)

/-! ### Characters -/

/-- A character of a name. -/
def NameChar (c : Char) : Prop := isWordChar c = true ∨ c ∈ ['.', '*', '-']

/-- A character that may open the name of a property. -/
def PropertyStart (c : Char) : Prop := ('A' ≤ c ∧ c ≤ 'Z') ∨ ('a' ≤ c ∧ c ≤ 'z') ∨ c = '_'

/-- A further character of the name of a property. -/
def PropertyChar (c : Char) : Prop := isWordChar c = true ∨ c = '-'

/-- A text of blanks, perhaps an empty one. -/
def Blanks (text : List Char) : Prop := ∀ c ∈ text, isBlank c = true

theorem blanks_nil : Blanks [] := fun _ hc => absurd hc List.not_mem_nil

/-- One blank or more. -/
def Gap (text : List Char) : Prop := text ≠ [] ∧ Blanks text

/-! ### Tokens -/

/-- The name of an entry, and the pattern it is. -/
inductive Name : List Char → NamePattern → Prop where
  | chars {text : List Char} (ne : text ≠ []) (chars : ∀ c ∈ text, NameChar c) :
      Name text (.ofText (String.ofList text))

/-- The name of a property. -/
inductive Property : List Char → String → Prop where
  | chars {c : Char} {more : List Char} (start : PropertyStart c)
      (chars : ∀ d ∈ more, PropertyChar d) : Property (c :: more) (String.ofList (c :: more))

/-- The sign of a comparison; equality may be doubled. -/
inductive Sign : List Char → Comparison → Prop where
  | single (comparison : Comparison) : Sign comparison.sign.toList comparison
  | doubled : Sign ['=', '='] .equal

/-- The sign of a number, and whether it is a minus. -/
inductive NumberSign : List Char → Bool → Prop where
  | none : NumberSign [] false
  | plus : NumberSign ['+'] false
  | minus : NumberSign ['-'] true

/-- A number written with digits of a class: whether it is negative, its whole digits and those
behind the point. -/
inductive Numeral (digit : Char → Bool) : List Char → Bool → List Char → List Char → Prop where
  | whole {sign whole : List Char} {negative : Bool} (hs : NumberSign sign negative)
      (ne : whole ≠ []) (digits : ∀ c ∈ whole, digit c = true) :
      Numeral digit (sign ++ whole) negative whole []
  | fraction {sign whole fraction : List Char} {negative : Bool} (hs : NumberSign sign negative)
      (ne : whole ≠ []) (digits : ∀ c ∈ whole, digit c = true) (ne' : fraction ≠ [])
      (digits' : ∀ c ∈ fraction, digit c = true) :
      Numeral digit (sign ++ (whole ++ '.' :: fraction)) negative whole fraction

/-- A value: a quoted string that is used up by its decoding, a word, or a number in digits of
ASCII, which stands for the double next to it. -/
inductive Value : List Char → PropertyValue → Prop where
  | string {text decoded : List Char} (h : Text.Quoted.decode text = .ok (decoded, [])) :
      Value text (.string (String.ofList decoded))
  | yes : Value ['t', 'r', 'u', 'e'] (.bool true)
  | no : Value ['f', 'a', 'l', 's', 'e'] (.bool false)
  | null : Value ['n', 'u', 'l', 'l'] .null
  | number {text whole fraction : List Char} {negative : Bool}
      (h : Numeral Char.isDigit text negative whole fraction) :
      Value text (.number (Number.Binary64.ofDecimal negative (natOfDigits (whole ++ fraction))
        (-fraction.length)))

/-- A field of a date: so many digits of a class. -/
def Field (digit : Char → Bool) (count : Nat) (text : List Char) : Prop :=
  text.length = count ∧ ∀ c ∈ text, digit c = true

/-- A date and time `YYYY-MM-DDTHH:mm` in digits of a class, and its fields. -/
inductive DateFields (digit : Char → Bool) : List Char → Instant.Fields → Prop where
  | fields {year month day hour minute : List Char} (hyear : Field digit 4 year)
      (hmonth : Field digit 2 month) (hday : Field digit 2 day) (hhour : Field digit 2 hour)
      (hminute : Field digit 2 minute) :
      DateFields digit
        (year ++ '-' :: (month ++ '-' :: (day ++ 'T' :: (hour ++ ':' :: minute))))
        ⟨natOfDigits year, natOfDigits month, natOfDigits day, natOfDigits hour,
          natOfDigits minute, 0, 0⟩

/-- A date and time in digits of ASCII, and the instant with these fields. -/
def Date (text : List Char) (t : Instant) : Prop := DateFields Char.isDigit text t.toFields

/-! ### Productions -/

/-- A filter, with its brackets. -/
inductive Filter : List Char → PropertyFilter → Prop where
  | filter {gap₁ property gap₂ sign gap₃ value gap₄ : List Char} {name : String}
      {comparison : Comparison} {wanted : PropertyValue} (h₁ : Blanks gap₁)
      (hp : Property property name) (h₂ : Blanks gap₂) (hs : Sign sign comparison)
      (h₃ : Blanks gap₃) (hv : Value value wanted) (h₄ : Blanks gap₄) :
      Filter ('[' :: (gap₁ ++ '@' :: (property ++ gap₂ ++ sign ++ gap₃ ++ value ++ gap₄ ++ [']'])))
        ⟨name, comparison, wanted⟩

/-- An entry pattern, with the blanks behind it. -/
inductive Pattern : List Char → EntryPattern → Prop where
  | plain {gap₁ name gap₂ : List Char} {pattern : NamePattern} (h₁ : Blanks gap₁)
      (hn : Name name pattern) (h₂ : Blanks gap₂) :
      Pattern ('/' :: (gap₁ ++ name ++ gap₂)) ⟨pattern, none⟩
  | filtered {gap₁ name gap₂ bracket gap₃ : List Char} {pattern : NamePattern}
      {filter : PropertyFilter} (h₁ : Blanks gap₁) (hn : Name name pattern) (h₂ : Blanks gap₂)
      (hf : Filter bracket filter) (h₃ : Blanks gap₃) :
      Pattern ('/' :: (gap₁ ++ name ++ gap₂ ++ bracket ++ gap₃)) ⟨pattern, some filter⟩

/-- Entry patterns one behind the other. -/
inductive Patterns : List Char → Query → Prop where
  | nil : Patterns [] []
  | cons {text more : List Char} {pattern : EntryPattern} {query : Query}
      (hp : Pattern text pattern) (hq : Patterns more query) :
      Patterns (text ++ more) (pattern :: query)

/-- A text derives a query. -/
inductive QueryText : List Char → Query → Prop where
  | query {gap text : List Char} {query : Query} (h : Blanks gap) (hq : Patterns text query) :
      QueryText (gap ++ text) query

/-- A keyword and the bound behind it. -/
inductive Bound (keyword : String) : List Char → Instant → Prop where
  | bound {gap date : List Char} {t : Instant} (h : Gap gap) (hd : Date date t) :
      Bound keyword (keyword.toList ++ gap ++ date) t

/-- The window of a rule: its opening and its closing bound. -/
inductive Window : List Char → Option Instant → Option Instant → Prop where
  | always : Window [] none none
  | opens {text : List Char} {t : Instant} (h : Bound "after" text t) : Window text (some t) none
  | closes {text : List Char} {t : Instant} (h : Bound "until" text t) : Window text none (some t)
  | both {opening gap closing : List Char} {t u : Instant} (ho : Bound "after" opening t)
      (h : Gap gap) (hc : Bound "until" closing u) :
      Window (opening ++ gap ++ closing) (some t) (some u)

/-- A text derives a rule. -/
inductive RuleText : List Char → Rule → Prop where
  | rule {gap window text : List Char} {opens closes : Option Instant} {query : Query}
      (h : Blanks gap) (hw : Window window opens closes) (hq : QueryText text query) :
      RuleText (gap ++ window ++ text) ⟨query, opens, closes⟩

end CatalogGuard.Rule.Grammar
