import CatalogGuard.Proofs.Text.Literal

/-!
# Spellings of quoted strings

A character of a quoted string has several spellings: itself, a short escape, or one or two units
behind `\u`.  Reading takes every one of them, and takes no more of the text than it; so a quoted
string decodes whichever spelling each of its characters has, and what follows the closing quote is
left.  It takes nothing else either.

A `Spelling` is said by what reading computes from the letters, digits and units in it, which is
what the proofs about readers go by.  It is the same as a `Writing`, which is said by the tables.

## Main definitions

* `Spelling`, `Spelled` — the spellings of a character and of a text

## Main results

* `unit_append` — a spelling is read as its character, whatever follows
* `spelling_of_unit` — what is read as a character is one of its spellings
* `decode_of_spelled` — a quoted string is read as its text, whatever follows
* `decode_eq_ok_iff` — what is read as a text is one of its literals
* `literal_encode`, `decode_encode` — what was written is a literal, and is read
-/

namespace CatalogGuard.Text.Quoted

variable {a b c d : Char} {n leading : Nat} {run text decoded literal body rest : List Char}

/-- The spellings of one character. -/
inductive Spelling : List Char → Char → Prop where
  | raw {c : Char} (hq : c ≠ '\x22') (hb : c ≠ '\\') (hc : 0x20 ≤ c.toNat) : Spelling [c] c
  | short {letter c : Char} (h : shortEscape letter = some c) : Spelling ['\\', letter] c
  | unit {a b c d decoded : Char} (h : hexNumber a b c d = some decoded.toNat) :
      Spelling ['\\', 'u', a, b, c, d] decoded
  | pair {a b c d a' b' c' d' : Char} {leading trailing : Nat}
      (h : hexNumber a b c d = some leading) (hl : isLeadingSurrogate leading = true)
      (h' : hexNumber a' b' c' d' = some trailing) (ht : isTrailingSurrogate trailing = true) :
      Spelling ['\\', 'u', a, b, c, d, '\\', 'u', a', b', c', d'] (joinSurrogates leading trailing)

/-- The spellings of a text: one spelling for each of its characters. -/
inductive Spelled : List Char → List Char → Prop where
  | nil : Spelled [] []
  | cons {run text decoded : List Char} {c : Char} (hc : Spelling run c)
      (h : Spelled text decoded) : Spelled (run ++ text) (c :: decoded)

/-! ### Single characters -/

theorem hexUnit_append (h : hexNumber a b c d = some n) (rest : List Char) :
    hexUnit (a :: b :: c :: d :: rest) = .ok (n, rest) := by
  have hsize : ¬byteSize (a :: b :: c :: d :: rest) < 4 := by
    have := a.utf8Size_pos
    have := b.utf8Size_pos
    have := c.utf8Size_pos
    have := d.utf8Size_pos
    simp only [byteSize_cons]
    omega
  rw [hexUnit, if_neg hsize]
  simp only [h]

/-- No character is half of a surrogate pair. -/
theorem not_surrogate (c : Char) :
    isTrailingSurrogate c.toNat = false ∧ isLeadingSurrogate c.toNat = false := by
  have hvalid : c.toNat < 0xD800 ∨ 0xDFFF < c.toNat ∧ c.toNat < 0x110000 := c.valid
  simp only [isTrailingSurrogate, isLeadingSurrogate, Bool.and_eq_false_iff,
    decide_eq_false_iff_not]
  omega

theorem leading_not_trailing (h : isLeadingSurrogate n = true) : isTrailingSurrogate n = false := by
  simp only [isTrailingSurrogate, isLeadingSurrogate, Bool.and_eq_true, decide_eq_true_eq,
    Bool.and_eq_false_iff, decide_eq_false_iff_not] at *
  omega

/-- **A spelling is read as its character**, whatever follows. -/
theorem unit_append (h : Spelling run c) (rest : List Char) :
    unit (run ++ rest) = .ok (c, rest) := by
  cases h with
  | raw hq hb hc =>
    rw [List.singleton_append, unit, if_neg (Nat.not_lt.mpr hc)]
    · exact fun hnil => absurd hnil hb
    · exact fun _ hu => absurd hu hb
    · exact fun _ _ hcons => absurd hcons hb
  | @short letter _ h =>
    have hletter : letter ≠ 'u' := by
      rintro rfl
      cases h
    rw [List.cons_append, List.singleton_append, unit, h]
    exact hletter
  | @unit a b c' d _ h =>
    obtain ⟨htrailing, hleading⟩ := not_surrogate c
    show hexEscape (a :: b :: c' :: d :: rest) = _
    simp only [hexEscape, hexUnit_append h, htrailing, hleading, Char.ofNat_toNat]
    rfl
  | @pair a b c d a' b' c' d' leading trailing h hl h' ht =>
    show hexEscape (a :: b :: c :: d :: '\\' :: 'u' :: a' :: b' :: c' :: d' :: rest) = _
    simp only [hexEscape, hexUnit_append h, leading_not_trailing hl, hl]
    show trailingUnit leading ('\\' :: 'u' :: a' :: b' :: c' :: d' :: rest) = _
    simp only [trailingUnit, hexUnit_append h', ht, if_pos]

/-- No spelling starts with a quote. -/
theorem ne_quote_of_spelling (h : Spelling run c) (rest tail : List Char) :
    run ++ rest ≠ '\x22' :: tail := by
  intro heq
  cases h with
  | raw hq => exact hq (List.cons.inj heq).1
  | short => exact absurd (List.cons.inj heq).1 (by decide)
  | unit => exact absurd (List.cons.inj heq).1 (by decide)
  | pair => exact absurd (List.cons.inj heq).1 (by decide)

/-! ### What is read as a character -/

theorem exists_of_hexUnit (h : hexUnit text = .ok (n, rest)) :
    ∃ a b c d, text = a :: b :: c :: d :: rest ∧ hexNumber a b c d = some n := by
  rw [hexUnit.eq_def] at h
  split at h
  · cases h
  · split at h
    · next a b c d tail _ =>
      split at h
      · next m hn =>
        obtain ⟨rfl, rfl⟩ := Prod.mk.inj (Except.ok.inj h)
        exact ⟨a, b, c, d, rfl, hn⟩
      · cases h
    · cases h

theorem exists_of_trailingUnit (h : trailingUnit leading text = .ok (c, rest)) :
    ∃ a b c' d trailing, text = '\\' :: 'u' :: a :: b :: c' :: d :: rest ∧
      hexNumber a b c' d = some trailing ∧ isTrailingSurrogate trailing = true ∧
      c = joinSurrogates leading trailing := by
  rw [trailingUnit.eq_def] at h
  split at h
  case h_3 tail =>
    split at h
    · cases h
    · next trailing more hu =>
      split at h
      · next ht =>
        obtain ⟨rfl, rfl⟩ := Prod.mk.inj (Except.ok.inj h)
        obtain ⟨a, b, c', d, rfl, hn⟩ := exists_of_hexUnit hu
        exact ⟨a, b, c', d, trailing, rfl, hn, ht, rfl⟩
      · cases h
  all_goals cases h

theorem spelling_of_hexEscape (h : hexEscape text = .ok (c, rest)) :
    ∃ run, text = run ++ rest ∧ Spelling ('\\' :: 'u' :: run) c := by
  rw [hexEscape] at h
  split at h
  · cases h
  · next n more hu =>
    obtain ⟨a, b, c', d, rfl, hn⟩ := exists_of_hexUnit hu
    split at h
    · cases h
    · next ht =>
      split at h
      · next hl =>
        obtain ⟨a', b', c'', d', trailing, rfl, hn', ht', hjoin⟩ := exists_of_trailingUnit h
        rw [hjoin]
        exact ⟨_, rfl, .pair hn hl hn' ht'⟩
      · next hl =>
        obtain ⟨rfl, rfl⟩ := Prod.mk.inj (Except.ok.inj h)
        have hlt := (hexNumber_eq_some_iff.mp hn).lt
        -- A unit that is no surrogate is the number of a character.
        have hvalid : n.isValidChar := by
          rw [isTrailingSurrogate_iff] at ht
          rw [isLeadingSurrogate_iff] at hl
          show n < 0xD800 ∨ 0xDFFF < n ∧ n < 0x110000
          omega
        refine ⟨[a, b, c', d], rfl, .unit ?_⟩
        rw [toNat_ofNat_of_isValidChar hvalid]
        exact hn

/-- **What is read as a character is one of its spellings**, except for a bare quote. -/
theorem spelling_of_unit (h : unit text = .ok (c, rest)) (hq : ∀ tail, text ≠ '\x22' :: tail) :
    ∃ run, text = run ++ rest ∧ Spelling run c := by
  rw [unit.eq_def] at h
  split at h
  case h_3 tail =>
    obtain ⟨run, rfl, hr⟩ := spelling_of_hexEscape h
    exact ⟨_, rfl, hr⟩
  case h_4 letter tail _ =>
    split at h
    · next hs =>
      obtain ⟨rfl, rfl⟩ := Prod.mk.inj (Except.ok.inj h)
      exact ⟨['\\', letter], rfl, .short hs⟩
    · cases h
  case h_5 d tail hend _ hmid =>
    split at h
    · cases h
    · next hc =>
      obtain ⟨rfl, rfl⟩ := Prod.mk.inj (Except.ok.inj h)
      refine ⟨[d], rfl, .raw (fun hd => hq tail (by rw [hd])) ?_ (Nat.le_of_not_lt hc)⟩
      rintro rfl
      cases tail with
      | nil => exact hend rfl rfl
      | cons e tail => exact hmid e tail rfl rfl
  all_goals cases h

/-! ### Texts -/

theorem decodeBody_append (h : Spelling run c) (hd : decodeBody text = .ok (decoded, rest)) :
    decodeBody (run ++ text) = .ok (c :: decoded, rest) := by
  rw [decodeBody.eq_def]
  split
  · next tail heq => exact absurd heq (ne_quote_of_spelling h text tail)
  · split
    · next hu =>
      rw [unit_append h] at hu
      cases hu
    · next hu =>
      rw [unit_append h] at hu
      obtain ⟨rfl, rfl⟩ := Prod.mk.inj (Except.ok.inj hu)
      simp only [hd]

/-- **A quoted string is read as its text**, whatever follows. -/
theorem decode_of_spelled (h : Spelled text decoded) (rest : List Char) :
    decode ('\x22' :: (text ++ '\x22' :: rest)) = .ok (decoded, rest) := by
  show decodeBody (text ++ '\x22' :: rest) = _
  induction h with
  | nil =>
    rw [List.nil_append, decodeBody]
  | cons hc _ ih =>
    rw [List.append_assoc]
    exact decodeBody_append hc ih

theorem spelled_of_decodeBody (h : decodeBody text = .ok (decoded, rest)) :
    ∃ body, text = body ++ '\x22' :: rest ∧ Spelled body decoded := by
  fun_induction decodeBody text generalizing decoded rest with
  | case1 tail =>
    obtain ⟨rfl, rfl⟩ := Prod.mk.inj (Except.ok.inj h)
    exact ⟨[], rfl, .nil⟩
  | case2 => cases h
  | case3 => cases h
  | case4 text hq c tail hu _ decoded' rest' hd ih =>
    obtain ⟨rfl, rfl⟩ := Prod.mk.inj (Except.ok.inj h)
    obtain ⟨run, rfl, hr⟩ := spelling_of_unit hu hq
    obtain ⟨body, rfl, hb⟩ := ih hd
    exact ⟨run ++ body, (List.append_assoc ..).symm, .cons hr hb⟩

/-! ### Literals -/

/-- The spellings of a character are the ways to write it. -/
theorem spelling_iff_writing : Spelling run c ↔ Writing run c := by
  constructor
  · intro h
    cases h with
    | raw hq hb hc => exact .raw hq hb hc
    | short h => exact .short (shortEscape_eq_some_iff.mp h)
    | unit h => exact .unit (hexNumber_eq_some_iff.mp h)
    | pair h hl h' ht =>
      obtain ⟨hc, hleading, htrailing⟩ := joinSurrogates_eq_iff.mp ⟨hl, ht, rfl⟩
      have hhigh := hexNumber_eq_some_iff.mp h
      have hlow := hexNumber_eq_some_iff.mp h'
      rw [hleading] at hhigh
      rw [htrailing] at hlow
      exact .pair hc hhigh hlow
  · intro h
    cases h with
    | raw hq hb hc => exact .raw hq hb hc
    | short h => exact .short (shortEscape_eq_some_iff.mpr h)
    | unit h =>
      obtain ⟨a, b, c', d, rfl, hn⟩ := h.exists_hexNumber
      exact .unit hn
    | pair hc hhigh hlow =>
      obtain ⟨hl, ht, heq⟩ := joinSurrogates_eq_iff.mpr ⟨hc, rfl, rfl⟩
      obtain ⟨a, b, c', d, rfl, hn⟩ := hhigh.exists_hexNumber
      obtain ⟨a', b', c'', d', rfl, hn'⟩ := hlow.exists_hexNumber
      have hpair := Spelling.pair hn hl hn' ht
      rw [heq] at hpair
      exact hpair

theorem spelled_iff_writings :
    Spelled body text ↔ ∃ runs, List.Forall₂ Writing runs text ∧ body = runs.flatten := by
  constructor
  · intro h
    induction h with
    | nil => exact ⟨[], .nil, rfl⟩
    | @cons run _ _ _ hc _ ih =>
      obtain ⟨runs, hruns, rfl⟩ := ih
      exact ⟨run :: runs, .cons (spelling_iff_writing.mp hc) hruns, rfl⟩
  · rintro ⟨runs, hruns, rfl⟩
    induction hruns with
    | nil => exact .nil
    | cons hc _ ih => exact .cons (spelling_iff_writing.mpr hc) ih

/-- A literal is a spelling of its text between quotes. -/
theorem literal_iff_spelled :
    Literal literal text ↔ ∃ body, Spelled body text ∧ literal = '\x22' :: (body ++ ['\x22']) := by
  constructor
  · rintro ⟨runs, hruns, rfl⟩
    exact ⟨_, spelled_iff_writings.mpr ⟨runs, hruns, rfl⟩, rfl⟩
  · rintro ⟨body, hbody, rfl⟩
    obtain ⟨runs, hruns, rfl⟩ := spelled_iff_writings.mp hbody
    exact ⟨runs, hruns, rfl⟩

/-- **What is read as a text is one of its literals**, and every literal is read, whatever
follows. -/
theorem decode_eq_ok_iff :
    decode text = .ok (decoded, rest) ↔
      ∃ literal, Literal literal decoded ∧ text = literal ++ rest := by
  constructor
  · intro h
    rw [decode.eq_def] at h
    split at h
    · next tail =>
      obtain ⟨body, rfl, hbody⟩ := spelled_of_decodeBody h
      refine ⟨_, literal_iff_spelled.mpr ⟨body, hbody, rfl⟩, ?_⟩
      rw [List.cons_append, List.append_assoc, List.singleton_append]
    · cases h
  · rintro ⟨literal, hliteral, rfl⟩
    obtain ⟨body, hbody, rfl⟩ := literal_iff_spelled.mp hliteral
    rw [List.cons_append, List.append_assoc, List.singleton_append]
    exact decode_of_spelled hbody rest

/-! ### The written form -/

theorem hexValue_hexDigit (h : n < 16) : hexValue (hexDigit n) = some n := by
  have hall : ∀ n < 16, hexValue (hexDigit n) = some n := by decide
  exact hall n h

/-- Control characters are written by their number. -/
theorem hexNumber_of_lt (h : n < 0x20) :
    hexNumber '0' '0' (hexDigit (n / 16)) (hexDigit (n % 16)) = some n := by
  have hzero : hexValue '0' = some 0 := rfl
  have hhigh : hexValue (hexDigit (n / 16)) = some (n / 16) := hexValue_hexDigit (by omega)
  have hlow : hexValue (hexDigit (n % 16)) = some (n % 16) := hexValue_hexDigit (by omega)
  simp only [hexNumber, hzero, hhigh, hlow, Option.bind_eq_bind, Option.bind_some, Option.pure_def,
    Option.some.injEq]
  omega

theorem spelling_escape (c : Char) : Spelling (escape c) c := by
  rw [escape]
  split
  · next h => exact .short (by rw [h]; rfl)
  split
  · next h => exact .short (by rw [h]; rfl)
  split
  · next h => exact .short (by rw [h]; rfl)
  split
  · next h => exact .short (by rw [h]; rfl)
  split
  · next h => exact .short (by rw [h]; rfl)
  split
  · next h => exact .short (by rw [h]; rfl)
  split
  · next h => exact .short (by rw [h]; rfl)
  split
  · next h => exact .unit (hexNumber_of_lt h)
  · next hq hb _ _ _ _ _ hc => exact .raw hq hb (Nat.le_of_not_lt hc)

theorem spelled_escapeAll (text : List Char) : Spelled (escapeAll text) text := by
  induction text with
  | nil => exact .nil
  | cons c text ih => exact .cons (spelling_escape c) ih

/-- What was written is a literal. -/
theorem literal_encode (text : List Char) : Literal (encode text) text :=
  literal_iff_spelled.mpr ⟨escapeAll text, spelled_escapeAll text, rfl⟩

/-- **What was written is read.** -/
theorem decode_encode (text : List Char) : decode (encode text) = .ok (text, []) :=
  decode_of_spelled (spelled_escapeAll text) []

end CatalogGuard.Text.Quoted
