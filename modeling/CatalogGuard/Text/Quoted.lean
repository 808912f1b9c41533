import CatalogGuard.Text.Size

/-!
# Quoted strings

The string form shared by rules and serialised data: double quotes around the text, with
backslash escapes inside.  Writing escapes the quote, the backslash and the control characters
below U+0020, and nothing else.  Reading accepts every spelling of a character: raw, by its short
escape, or by `\u` and four hexadecimal digits, two such units for a character beyond U+FFFF.

## Where a flaw is reported

A literal is read byte by byte, and a flaw is reported at the last byte read.  The four bytes of a
`\u` escape are read at once, so a flawed one is reported behind all four, even if they cut a
character in two; that is why a `Fault` counts bytes and does not hold a rest of the text.
-/

namespace CatalogGuard.Text.Quoted

/-- What can be wrong inside a quoted string. -/
inductive Flaw where
  /-- A backslash before a character that makes no escape. -/
  | invalidEscape
  /-- A leading surrogate without a second `\u` behind it. -/
  | unexpectedEndOfHexEscape
  /-- A surrogate without its partner. -/
  | loneSurrogate
  /-- A character below U+0020. -/
  | controlCharacter
  /-- The text ends before the closing quote. -/
  | unterminated
  deriving Repr, DecidableEq

/-- The wording of a flaw. -/
def Flaw.message : Flaw → String
  | .invalidEscape => "invalid escape"
  | .unexpectedEndOfHexEscape => "unexpected end of hex escape"
  | .loneSurrogate => "lone leading surrogate in hex escape"
  | .controlCharacter => "control character (\\u0000-\\u001F) found while parsing a string"
  | .unterminated => "EOF while parsing a string"

/-- A flaw, with the number of bytes behind the place where it was noticed. -/
structure Fault where
  /-- What is wrong. -/
  flaw : Flaw
  /-- How many bytes had not been read. -/
  unread : Nat
  deriving Repr, DecidableEq

/-! ### Writing -/

/-- The hexadecimal digit, in lower case, of a number below sixteen. -/
def hexDigit (n : Nat) : Char :=
  if n < 10 then Char.ofNat (48 + n) else Char.ofNat (87 + n)

/-- The written form of one character. -/
def escape (c : Char) : List Char :=
  if c = '\x22' then ['\\', '\x22']
  else if c = '\\' then ['\\', '\\']
  else if c = '\x08' then ['\\', 'b']
  else if c = '\x0c' then ['\\', 'f']
  else if c = '\n' then ['\\', 'n']
  else if c = '\r' then ['\\', 'r']
  else if c = '\t' then ['\\', 't']
  else if c.toNat < 0x20 then
    ['\\', 'u', '0', '0', hexDigit (c.toNat / 16), hexDigit (c.toNat % 16)]
  else [c]

/-- The written form of a text, without the quotes around it. -/
def escapeAll (text : List Char) : List Char := text.flatMap escape

/-- The written form of a text. -/
def encode (text : List Char) : List Char := '\x22' :: (escapeAll text ++ ['\x22'])

/-! ### Reading -/

/-- The value of a hexadecimal digit. -/
def hexValue (c : Char) : Option Nat :=
  if '0' ≤ c ∧ c ≤ '9' then some (c.toNat - 48)
  else if 'a' ≤ c ∧ c ≤ 'f' then some (c.toNat - 87)
  else if 'A' ≤ c ∧ c ≤ 'F' then some (c.toNat - 55)
  else none

/-- The number written by four hexadecimal digits. -/
def hexNumber (a b c d : Char) : Option Nat := do
  let a ← hexValue a
  let b ← hexValue b
  let c ← hexValue c
  let d ← hexValue d
  return ((a * 16 + b) * 16 + c) * 16 + d

/-- Reads the four hexadecimal digits behind `\u`. -/
def hexUnit (text : List Char) : Except Fault (Nat × List Char) :=
  if byteSize text < 4 then .error ⟨.unterminated, 0⟩
  else
    match text with
    | a :: b :: c :: d :: rest =>
      match hexNumber a b c d with
      | some n => .ok (n, rest)
      | none => .error ⟨.invalidEscape, byteSize text - 4⟩
    | _ => .error ⟨.invalidEscape, byteSize text - 4⟩

/-- Whether a unit opens a surrogate pair. -/
def isLeadingSurrogate (n : Nat) : Bool := 0xD800 ≤ n && n ≤ 0xDBFF

/-- Whether a unit closes a surrogate pair. -/
def isTrailingSurrogate (n : Nat) : Bool := 0xDC00 ≤ n && n ≤ 0xDFFF

/-- The character of a surrogate pair. -/
def joinSurrogates (leading trailing : Nat) : Char :=
  Char.ofNat (0x10000 + (leading - 0xD800) * 0x400 + (trailing - 0xDC00))

/-- Reads the second half of a surrogate pair, which has to follow the first at once. -/
def trailingUnit (leading : Nat) : List Char → Except Fault (Char × List Char)
  | [] => .error ⟨.unterminated, 0⟩
  | '\\' :: [] => .error ⟨.unterminated, 0⟩
  | '\\' :: 'u' :: rest =>
    match hexUnit rest with
    | .error fault => .error fault
    | .ok (n, rest) =>
      if isTrailingSurrogate n then .ok (joinSurrogates leading n, rest)
      else .error ⟨.loneSurrogate, byteSize rest⟩
  | '\\' :: rest => .error ⟨.unexpectedEndOfHexEscape, byteSize rest - 1⟩
  | rest => .error ⟨.unexpectedEndOfHexEscape, byteSize rest - 1⟩

/-- Reads what follows `\u`. -/
def hexEscape (text : List Char) : Except Fault (Char × List Char) :=
  match hexUnit text with
  | .error fault => .error fault
  | .ok (n, rest) =>
    if isTrailingSurrogate n then .error ⟨.loneSurrogate, byteSize rest⟩
    else if isLeadingSurrogate n then trailingUnit n rest
    else .ok (Char.ofNat n, rest)

/-- The character that a letter behind a backslash stands for. -/
def shortEscape : Char → Option Char
  | '\x22' => some '\x22'
  | '\\' => some '\\'
  | '/' => some '/'
  | 'b' => some '\x08'
  | 'f' => some '\x0c'
  | 'n' => some '\n'
  | 'r' => some '\r'
  | 't' => some '\t'
  | _ => none

/-- Reads one character of the text inside the quotes. -/
def unit : List Char → Except Fault (Char × List Char)
  | [] => .error ⟨.unterminated, 0⟩
  | '\\' :: [] => .error ⟨.unterminated, 0⟩
  | '\\' :: 'u' :: rest => hexEscape rest
  | '\\' :: c :: rest =>
    match shortEscape c with
    | some d => .ok (d, rest)
    | none => .error ⟨.invalidEscape, byteSize (c :: rest) - 1⟩
  | c :: rest =>
    if c.toNat < 0x20 then .error ⟨.controlCharacter, byteSize rest⟩ else .ok (c, rest)

theorem length_lt_of_hexUnit {text rest : List Char} {n : Nat}
    (h : hexUnit text = .ok (n, rest)) : rest.length < text.length := by
  unfold hexUnit at h
  split at h
  · simp at h
  · split at h
    · split at h
      · simp only [Except.ok.injEq, Prod.mk.injEq] at h
        obtain ⟨-, rfl⟩ := h
        simp only [List.length_cons]
        omega
      · simp at h
    · simp at h

theorem length_lt_of_trailingUnit {leading : Nat} {text rest : List Char} {c : Char}
    (h : trailingUnit leading text = .ok (c, rest)) : rest.length < text.length := by
  unfold trailingUnit at h
  split at h <;> try simp at h
  next tail =>
    split at h
    · simp at h
    · next hu =>
      split at h
      · simp only [Except.ok.injEq, Prod.mk.injEq] at h
        obtain ⟨-, rfl⟩ := h
        have := length_lt_of_hexUnit hu
        simp only [List.length_cons]
        omega
      · simp at h

theorem length_lt_of_hexEscape {text rest : List Char} {c : Char}
    (h : hexEscape text = .ok (c, rest)) : rest.length < text.length := by
  unfold hexEscape at h
  split at h
  · simp at h
  · next hu =>
    have := length_lt_of_hexUnit hu
    split at h
    · simp at h
    · split at h
      · have := length_lt_of_trailingUnit h
        omega
      · simp only [Except.ok.injEq, Prod.mk.injEq] at h
        obtain ⟨-, rfl⟩ := h
        exact this

/-- Every character read consumes some of the text. -/
theorem length_lt_of_unit {text rest : List Char} {c : Char}
    (h : unit text = .ok (c, rest)) : rest.length < text.length := by
  unfold unit at h
  split at h
  · simp at h
  · simp at h
  · have := length_lt_of_hexEscape h
    simp only [List.length_cons]
    omega
  · split at h
    · simp only [Except.ok.injEq, Prod.mk.injEq] at h
      obtain ⟨-, rfl⟩ := h
      simp only [List.length_cons]
      omega
    · simp at h
  · split at h
    · simp at h
    · simp only [Except.ok.injEq, Prod.mk.injEq] at h
      obtain ⟨-, rfl⟩ := h
      simp

/-- Reads a text up to its closing quote, and returns it with what follows the quote. -/
def decodeBody (text : List Char) : Except Fault (List Char × List Char) :=
  match text with
  | '\x22' :: rest => .ok ([], rest)
  | text =>
    match h : unit text with
    | .error fault => .error fault
    | .ok (c, rest) =>
      have : rest.length < text.length := length_lt_of_unit h
      match decodeBody rest with
      | .error fault => .error fault
      | .ok (decoded, rest) => .ok (c :: decoded, rest)
  termination_by text.length

/-- Reads a quoted string from its opening quote on. -/
def decode : List Char → Except Fault (List Char × List Char)
  | '\x22' :: rest => decodeBody rest
  | text => .error ⟨.unterminated, byteSize text⟩

/-! ### Places in a literal -/

/-- The line and column that the first `count` bytes of a text reach: lines count from one, and a
column is the number of bytes since the last line break. -/
def lineColumn (text : List Char) (count : Nat) : Nat × Nat :=
  go text count 1 0
where
  /-- Follows the text from a given line and column on. -/
  go : List Char → Nat → Nat → Nat → Nat × Nat
    | [], count, line, column => (line, column + count)
    | c :: rest, count, line, column =>
      if count < c.utf8Size then (line, column + count)
      else if c = '\n' then go rest (count - c.utf8Size) (line + 1) 0
      else go rest (count - c.utf8Size) line (column + c.utf8Size)

/-- The line and column at which a fault of the given literal was noticed. -/
def Fault.place (fault : Fault) (literal : List Char) : Nat × Nat :=
  lineColumn literal (byteSize literal - fault.unread)

end CatalogGuard.Text.Quoted
