import CatalogGuard.Text.Size
import Mathlib.Data.String.Basic
import Mathlib.Tactic.SplitIfs

/-!
# The bytes of a text

A text is a list of characters, and a system that knows nothing of characters has its bytes.  The
bytes of a text are those of its characters in turn, so a text that is cut between two characters
has its bytes cut as well, at an offset that is the size of the first part.

Texts are compared character by character, and in UTF-8 their bytes compare alike: a character with
a greater number has a greater first byte if it takes more bytes, and otherwise the fields of six
bits compare as the number does.  So of two different characters the bytes differ before either form
ends, and what follows has no say.

## Main results

* `byteSize_eq`, `isValid_of_cut` — offsets between characters
* `bytes_of_cut` — the bytes before such an offset
* `bytes_lt_iff`, `bytes_le_iff` — texts compare as their bytes do
-/

namespace CatalogGuard.Text

variable {a b text : String} {c d : Char} {xs ys before after : List Char} {u v : List UInt8}
  {m n : Nat}

/-- The bytes of a text. -/
def bytes (text : String) : List UInt8 := text.toUTF8.data.toList

theorem bytes_eq (text : String) : bytes text = text.toList.flatMap String.utf8EncodeChar := by
  have hencode : text.toUTF8 = text.toList.utf8Encode := String.utf8Encode_toList.symm
  rw [bytes, hencode]
  exact List.toList_data_toByteArray

/-! ### Offsets -/

theorem byteSize_eq (text : List Char) : byteSize text = (String.ofList text).utf8ByteSize := by
  induction text with
  | nil => rfl
  | cons c rest ih =>
    rw [byteSize_cons, ih, String.ofList_cons, String.utf8ByteSize_append,
      String.utf8ByteSize_singleton]

/-- A text that is cut between two characters is cut at an offset in it. -/
theorem isValid_of_cut (h : text.toList = before ++ after) :
    byteSize before ≤ text.utf8ByteSize ∧
      (String.Pos.Raw.mk (byteSize before)).IsValid text := by
  have htext : text = String.ofList before ++ String.ofList after := by
    rw [← String.ofList_append, ← h, String.ofList_toList]
  refine ⟨?_, String.Pos.Raw.isValid_iff_exists_append.mpr ⟨_, _, htext, ?_⟩⟩
  · rw [byteSize_eq, htext, String.utf8ByteSize_append]
    exact Nat.le_add_right _ _
  · rw [byteSize_eq]
    rfl

theorem length_flatMap_utf8EncodeChar (xs : List Char) :
    (xs.flatMap String.utf8EncodeChar).length = byteSize xs := by
  induction xs with
  | nil => rfl
  | cons c xs ih =>
    rw [List.flatMap_cons, List.length_append, ih, byteSize_cons, String.length_utf8EncodeChar]

/-- **The bytes before an offset** are those of the characters before it. -/
theorem bytes_of_cut (h : text.toList = before ++ after) :
    bytes (String.ofList before) = (bytes text).take (byteSize before) := by
  rw [bytes_eq, bytes_eq, h, String.toList_ofList, List.flatMap_append,
    List.take_left' (length_flatMap_utf8EncodeChar before)]

/-! ### Single characters -/

theorem ofNat_cons_lt_iff (hm : m < 256) (hn : n < 256) :
    UInt8.ofNat m :: u < UInt8.ofNat n :: v ↔ m < n ∨ m = n ∧ u < v := by
  have hsize : UInt8.size = 256 := rfl
  rw [List.cons_lt_cons_iff, UInt8.lt_iff_toNat_lt, ← UInt8.toNat_inj,
    UInt8.toNat_ofNat_of_lt' (hsize ▸ hm), UInt8.toNat_ofNat_of_lt' (hsize ▸ hn)]

/-- **The bytes of a lesser character are less**, whatever follows. -/
theorem utf8EncodeChar_append_lt (h : c < d) (u v : List UInt8) :
    String.utf8EncodeChar c ++ u < String.utf8EncodeChar d ++ v := by
  have hlt : c.val.toNat < d.val.toNat := UInt32.lt_iff_toNat_lt.mp h
  have hd : d.val.toNat < 0x110000 := by
    have hvalid : d.val.toNat < 0xD800 ∨ 0xDFFF < d.val.toNat ∧ d.val.toNat < 0x110000 := d.valid
    omega
  delta String.utf8EncodeChar
  dsimp only
  generalize c.val.toNat = m at *
  generalize d.val.toNat = n at *
  -- the digits to the base of 64, of which the greatest is below 8
  have hdigits : ∀ k < 0x110000, k / 4096 = k / 64 / 64 ∧ k / 262144 % 8 = k / 64 / 64 / 64 := by
    omega
  have hlex : ∀ k l : Nat, k < l ↔ k / 64 < l / 64 ∨ k / 64 = l / 64 ∧ k % 64 < l % 64 := by omega
  obtain ⟨hm, hm'⟩ := hdigits m (hlt.trans hd)
  obtain ⟨hn, hn'⟩ := hdigits n hd
  have hdigit := hlt
  rw [hlex, hlex (m / 64), hlex (m / 64 / 64)] at hdigit
  -- by the lengths of the two forms; the longer one starts with the greater byte
  split_ifs <;>
    simp (disch := omega) only [List.cons_append, List.nil_append, ofNat_cons_lt_iff] <;> omega

/-! ### Texts -/

theorem utf8EncodeChar_flatMap_lt (h : xs < ys) :
    xs.flatMap String.utf8EncodeChar < ys.flatMap String.utf8EncodeChar := by
  induction xs generalizing ys with
  | nil =>
    cases ys with
    | nil => exact absurd h (List.lt_irrefl [])
    | cons d ys =>
      rw [List.flatMap_nil, List.flatMap_cons]
      have hne : String.utf8EncodeChar d ++ ys.flatMap String.utf8EncodeChar ≠ [] :=
        List.append_ne_nil_of_left_ne_nil (String.utf8EncodeChar_ne_nil) _
      obtain ⟨byte, rest, hbytes⟩ := List.exists_cons_of_ne_nil hne
      rw [hbytes]
      exact List.nil_lt_cons byte rest
  | cons c xs ih =>
    cases ys with
    | nil => exact absurd h (List.not_lt_nil _)
    | cons d ys =>
      rw [List.flatMap_cons, List.flatMap_cons]
      obtain hcd | ⟨rfl, hlt⟩ := List.cons_lt_cons_iff.mp h
      · exact utf8EncodeChar_append_lt hcd _ _
      · exact List.append_left_lt (ih hlt)

/-- **Texts compare as their bytes do.** -/
theorem bytes_lt_iff : bytes a < bytes b ↔ a < b := by
  rw [bytes_eq, bytes_eq, String.lt_iff_toList_lt]
  refine ⟨fun h => ?_, utf8EncodeChar_flatMap_lt⟩
  obtain hlt | heq | hgt := lt_trichotomy a.toList b.toList
  · exact hlt
  · rw [heq] at h
    exact absurd h (List.lt_irrefl _)
  · exact absurd h (List.lt_asymm (utf8EncodeChar_flatMap_lt hgt))

theorem bytes_le_iff : bytes a ≤ bytes b ↔ a ≤ b := by
  rw [← List.not_lt, bytes_lt_iff, not_lt]

end CatalogGuard.Text
