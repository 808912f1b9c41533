/-!
# Texts from bytes that are no UTF-8

Bytes are read as UTF-8 one by one.  Where they break the rules, a replacement character takes the
place of the bytes that have begun a character and come to nothing; the byte that shows it begins
anew.
-/

namespace CatalogGuard.Text.Octets

/-- The character that takes the place of broken bytes. -/
def replacement : Char := '\ufffd'

/-- A character that has begun. -/
structure Begun where
  /-- The number of bytes still missing. -/
  missing : Nat
  /-- The least byte that may come next. -/
  low : Nat
  /-- The greatest byte that may come next. -/
  high : Nat
  /-- The bits read so far. -/
  bits : Nat
  deriving Repr, DecidableEq

/-- The characters that are complete behind the first byte of a character, and what it begins. -/
def first (byte : Nat) : List Char × Option Begun :=
  if byte < 0x80 then ([Char.ofNat byte], none)
  else if byte < 0xc2 then ([replacement], none)
  else if byte < 0xe0 then ([], some ⟨1, 0x80, 0xbf, byte - 0xc0⟩)
  else if byte = 0xe0 then ([], some ⟨2, 0xa0, 0xbf, 0⟩)
  else if byte = 0xed then ([], some ⟨2, 0x80, 0x9f, 0xd⟩)
  else if byte < 0xf0 then ([], some ⟨2, 0x80, 0xbf, byte - 0xe0⟩)
  else if byte = 0xf0 then ([], some ⟨3, 0x90, 0xbf, 0⟩)
  else if byte < 0xf4 then ([], some ⟨3, 0x80, 0xbf, byte - 0xf0⟩)
  else if byte = 0xf4 then ([], some ⟨3, 0x80, 0x8f, 4⟩)
  else ([replacement], none)

/-- The characters that are complete behind the next byte, and what has begun then. -/
def step (begun : Option Begun) (byte : Nat) : List Char × Option Begun :=
  match begun with
  | none => first byte
  | some b =>
    if b.low ≤ byte ∧ byte ≤ b.high then
      let bits := 64 * b.bits + byte % 64
      if b.missing = 1 then ([Char.ofNat bits], none)
      else ([], some ⟨b.missing - 1, 0x80, 0xbf, bits⟩)
    else
      let (complete, begun) := first byte
      (replacement :: complete, begun)

/-- The characters of bytes behind what has begun. -/
def mendFrom (begun : Option Begun) : List Nat → List Char
  | [] => if begun.isSome then [replacement] else []
  | byte :: rest =>
    let (complete, begun) := step begun byte
    complete ++ mendFrom begun rest

/-- The text of bytes, mended where they are no UTF-8. -/
def mend (bytes : ByteArray) : String :=
  String.ofList (mendFrom none (bytes.toList.map UInt8.toNat))

end CatalogGuard.Text.Octets
