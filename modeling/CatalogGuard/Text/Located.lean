import CatalogGuard.Text.Size

/-!
# Complaints about a place in a text

A reader that refuses a text says why and where.  The offset counts bytes and never points past
the end; the label covers the one character found there.
-/

namespace CatalogGuard.Text

/-- A cause of refusal at a place of a text. -/
structure Located (ε : Type) where
  /-- The text that was refused. -/
  text : String
  /-- Why it was refused. -/
  cause : ε
  /-- The byte offset of the first character that could not be read. -/
  offset : Nat
  deriving Repr, DecidableEq

namespace Located

variable {ε : Type}

/-- A complaint at a byte offset; an offset past the end means the end. -/
def place (text : String) (cause : ε) (offset : Nat) : Located ε :=
  ⟨text, cause, min offset (byteSize text.toList)⟩

/-- The number of bytes the label of a complaint covers. -/
def labelWidth (complaint : Located ε) : Nat :=
  widthAt complaint.text.toList complaint.offset

/-- The complaint in words, given the words for its cause. -/
def message (describe : ε → String) (complaint : Located ε) : String :=
  describe complaint.cause ++ " at offset " ++ toString complaint.offset

theorem offset_place_le (text : String) (cause : ε) (offset : Nat) :
    (place text cause offset).offset ≤ byteSize text.toList :=
  Nat.min_le_right ..

end Located

end CatalogGuard.Text
