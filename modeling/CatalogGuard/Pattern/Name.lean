import CatalogGuard.Pattern.Glob

/-!
# Name patterns

The part of an entry pattern that speaks about the name of an entry.  Its kind is read off its
text: one star is any single entry, two are any run of entries, another text with a star is a glob,
and a text without a star is a name.
-/

namespace CatalogGuard

/-- A pattern for the names of entries. -/
inductive NamePattern where
  /-- The one name. -/
  | literal (text : String)
  /-- A text with a star in it. -/
  | glob (text : String)
  /-- `*`: one entry of any name. -/
  | anySegment
  /-- `**`: any number of further entries. -/
  | anySequence
  deriving Repr, DecidableEq

namespace NamePattern

/-- The pattern that a text stands for. -/
def ofText (text : String) : NamePattern :=
  if text = "*" then .anySegment
  else if text = "**" then .anySequence
  else if text.toList.contains '*' then .glob text
  else .literal text

/-- The text that stands for a pattern. -/
def text : NamePattern → String
  | .literal text => text
  | .glob text => text
  | .anySegment => "*"
  | .anySequence => "**"

/-- The glob that matches the same names. -/
def toGlob : NamePattern → Glob
  | .literal text => .literal text.toList
  | .glob text => Glob.compile text.toList
  | .anySegment => .any
  | .anySequence => .any

/-- Whether a pattern matches the name of one entry; both star patterns match every name. -/
def accepts : NamePattern → String → Bool
  | .literal text, name => text == name
  | .glob text, name => (Glob.compile text.toList).accepts name.toList
  | .anySegment, _ => true
  | .anySequence, _ => true

@[simp] theorem text_ofText (source : String) : (ofText source).text = source := by
  unfold ofText
  split
  next hone => exact hone.symm
  next =>
    split
    next htwo => exact htwo.symm
    next => split <;> rfl

/-- The compiled pattern matches the same names. -/
theorem accepts_toGlob (pattern : NamePattern) (name : String) :
    pattern.toGlob.accepts name.toList = pattern.accepts name := by
  cases pattern with
  | literal text =>
    show (text.toList == name.toList) = (text == name)
    rw [Bool.eq_iff_iff, beq_iff_eq, beq_iff_eq, String.toList_inj]
  | glob text => rfl
  | anySegment => rfl
  | anySequence => rfl

end NamePattern

end CatalogGuard
