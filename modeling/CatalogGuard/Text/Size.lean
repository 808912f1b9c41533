/-!
# Sizes in bytes

Every position that is reported to a reader counts the bytes of the UTF-8 form of the text.  The
texts themselves are lists of characters; `byteSize` measures them, and `widthAt` tells how wide
the character at a position is.
-/

namespace CatalogGuard.Text

/-- The number of bytes of the UTF-8 form of a text. -/
def byteSize : List Char → Nat
  | [] => 0
  | c :: rest => c.utf8Size + byteSize rest

@[simp] theorem byteSize_nil : byteSize [] = 0 := rfl

@[simp] theorem byteSize_cons (c : Char) (rest : List Char) :
    byteSize (c :: rest) = c.utf8Size + byteSize rest := rfl

@[simp] theorem byteSize_append (xs ys : List Char) :
    byteSize (xs ++ ys) = byteSize xs + byteSize ys := by
  induction xs with
  | nil => simp
  | cons c rest ih => simp [ih, Nat.add_assoc]

/-- The width in bytes of the character that starts at a byte offset; zero at the end of the text
and at an offset inside a character. -/
def widthAt : List Char → Nat → Nat
  | [], _ => 0
  | c :: _, 0 => c.utf8Size
  | c :: rest, offset + 1 =>
    if c.utf8Size ≤ offset + 1 then widthAt rest (offset + 1 - c.utf8Size) else 0

/-- Behind any part of a text, the width is that of the next character. -/
theorem widthAt_byteSize_append (before : List Char) (c : Char) (after : List Char) :
    widthAt (before ++ c :: after) (byteSize before) = c.utf8Size := by
  induction before with
  | nil => rfl
  | cons d rest ih =>
    obtain ⟨k, hk⟩ : ∃ k, d.utf8Size + byteSize rest = k + 1 :=
      ⟨d.utf8Size + byteSize rest - 1, by have := d.utf8Size_pos; omega⟩
    have hle : d.utf8Size ≤ k + 1 := by omega
    have hsub : k + 1 - d.utf8Size = byteSize rest := by omega
    simp [hk, widthAt, hle, hsub, ih]

/-- At the end of the text the width is zero. -/
theorem widthAt_byteSize (text : List Char) : widthAt text (byteSize text) = 0 := by
  induction text with
  | nil => rfl
  | cons d rest ih =>
    obtain ⟨k, hk⟩ : ∃ k, d.utf8Size + byteSize rest = k + 1 :=
      ⟨d.utf8Size + byteSize rest - 1, by have := d.utf8Size_pos; omega⟩
    have hle : d.utf8Size ≤ k + 1 := by omega
    have hsub : k + 1 - d.utf8Size = byteSize rest := by omega
    simp [hk, widthAt, hle, hsub, ih]

end CatalogGuard.Text
