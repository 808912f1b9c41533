import CatalogGuard.Proofs.Rule.Tokens

/-!
# Reading numbers

A number is split off with the decimal digits of any script, and is then refused unless its digits
are those of ASCII.  So what is read is a number in digits of ASCII; and no such number is missed,
as long as what follows it could not stand in a name.

That a number in other digits has no value is a matter of single characters: only texts of ASCII
have a value at all.

## Main results

* `takeNumber_append` — a number is split off whole
* `parseFinite?_eq_some` — the value of a number in digits of ASCII
* `numeral_isDigit_of_parseFinite?` — no number in other digits has one
-/

namespace CatalogGuard.Rule

open Grammar
open Number (isAsciiDigit natOfDigits parseFinite? exponent?)
open Text (Stops isDecimalDigit stops_nil stops_cons)

variable {digit : Char → Bool} {negative : Bool} {c : Char}
  {sign whole fraction text token rest : List Char}

/-! ### Signs -/

/-- Behind its sign a number has a digit. -/
theorem takeSign_append (hs : NumberSign sign negative) (ne : whole ≠ [])
    (digits : ∀ c ∈ whole, isDecimalDigit c = true) (rest : List Char) :
    takeSign (sign ++ (whole ++ rest)) = (sign, whole ++ rest) ∧
      Number.takeSign (sign ++ (whole ++ rest)) = (negative, whole ++ rest) := by
  obtain ⟨d, more, rfl⟩ := List.exists_cons_of_ne_nil ne
  have hd := digits d List.mem_cons_self
  have hplus : d ≠ '+' := by
    rintro rfl
    rw [Text.isDecimalDigit_of_ascii (by decide)] at hd
    exact absurd hd (by decide)
  have hminus : d ≠ '-' := by
    rintro rfl
    rw [Text.isDecimalDigit_of_ascii (by decide)] at hd
    exact absurd hd (by decide)
  cases hs with
  | none => simp [takeSign, Number.takeSign, hplus, hminus]
  | plus => exact ⟨rfl, rfl⟩
  | minus => exact ⟨rfl, rfl⟩

theorem exists_sign_of_takeSign (text : List Char) :
    ∃ negative, NumberSign (takeSign text).1 negative ∧
      text = (takeSign text).1 ++ (takeSign text).2 := by
  rw [takeSign.eq_def]
  split
  · exact ⟨_, .plus, rfl⟩
  · exact ⟨_, .minus, rfl⟩
  · exact ⟨_, .none, rfl⟩

/-! ### Numbers -/

theorem isDecimalDigit_of_isDigit (digits : ∀ c ∈ text, c.isDigit = true) :
    ∀ c ∈ text, isDecimalDigit c = true :=
  fun c hc => Text.isDecimalDigit_of_isDigit (digits c hc)

theorem numeral_isDecimalDigit (hn : Numeral Char.isDigit token negative whole fraction) :
    Numeral isDecimalDigit token negative whole fraction := by
  cases hn with
  | whole hs ne digits => exact .whole hs ne (isDecimalDigit_of_isDigit digits)
  | fraction hs ne digits ne' digits' =>
    exact .fraction hs ne (isDecimalDigit_of_isDigit digits) ne' (isDecimalDigit_of_isDigit digits')

theorem exists_cons_of_numberSign (hs : NumberSign sign negative) (ne : whole ≠ [])
    (digits : ∀ c ∈ whole, c.isDigit = true) (rest : List Char) :
    ∃ c more, sign ++ (whole ++ rest) = c :: more ∧ (c ∈ ['+', '-'] ∨ c.isDigit = true) := by
  cases hs with
  | none =>
    obtain ⟨d, more, rfl⟩ := List.exists_cons_of_ne_nil ne
    exact ⟨d, more ++ rest, rfl, Or.inr (digits d List.mem_cons_self)⟩
  | plus => exact ⟨'+', whole ++ rest, rfl, Or.inl (by simp)⟩
  | minus => exact ⟨'-', whole ++ rest, rfl, Or.inl (by simp)⟩

/-- A number starts with a sign or a digit. -/
theorem exists_cons_of_numeral (hn : Numeral Char.isDigit token negative whole fraction) :
    ∃ c more, token = c :: more ∧ (c ∈ ['+', '-'] ∨ c.isDigit = true) := by
  cases hn with
  | whole hs ne digits => simpa using exists_cons_of_numberSign hs ne digits []
  | fraction hs ne digits => exact exists_cons_of_numberSign hs ne digits _

/-! ### Splitting numbers off -/

theorem takeFraction_of_stops (h : Stops isNameChar rest) : takeFraction rest = ([], rest) := by
  rw [takeFraction.eq_def]
  split
  · have hpoint : isNameChar '.' = true := isNameChar_iff.mpr (Or.inr List.mem_cons_self)
    rw [h '.' rfl] at hpoint
    exact absurd hpoint Bool.false_ne_true
  · rfl

theorem takeFraction_point (ne : fraction ≠ []) (digits : ∀ c ∈ fraction, isDecimalDigit c = true)
    (h : Stops isDecimalDigit rest) :
    takeFraction ('.' :: (fraction ++ rest)) = ('.' :: fraction, rest) := by
  obtain ⟨d, more, rfl⟩ := List.exists_cons_of_ne_nil ne
  have hrun := Text.takeWhile_append_of_stops digits h
  have hrest := Text.dropWhile_append_of_stops digits h
  rw [List.cons_append] at hrun hrest ⊢
  rw [takeFraction, if_pos (digits d List.mem_cons_self), hrun, hrest]

theorem takeNumber_append (hn : Numeral isDecimalDigit token negative whole fraction)
    (h : Stops isNameChar rest) : takeNumber (token ++ rest) = some (token, rest) := by
  have hdigit : Stops isDecimalDigit rest := h.mono fun c hc =>
    isNameChar_of_isWordChar (Text.isWordChar_of_isDecimalDigit hc)
  cases hn with
  | whole hs ne digits =>
    rw [List.append_assoc, takeNumber, (takeSign_append hs ne digits rest).1]
    dsimp only
    rw [Text.takeWhile_append_of_stops digits hdigit, Text.dropWhile_append_of_stops digits hdigit,
      takeFraction_of_stops h, if_neg (by simpa using ne), List.append_nil]
  | fraction hs ne digits ne' digits' =>
    have hpoint : Stops isDecimalDigit ('.' :: fraction ++ rest) :=
      stops_cons.mpr (Text.isDecimalDigit_of_ascii (by decide))
    rw [List.append_assoc, List.append_assoc, takeNumber, (takeSign_append hs ne digits _).1]
    dsimp only
    rw [Text.takeWhile_append_of_stops digits hpoint,
      Text.dropWhile_append_of_stops digits hpoint, List.cons_append,
      takeFraction_point ne' digits' hdigit, if_neg (by simpa using ne), List.append_assoc]

/-- Nothing is split off, or a point with digits behind it. -/
theorem takeFraction_cases (text : List Char) :
    takeFraction text = ([], text) ∨
      ∃ fraction rest, fraction ≠ [] ∧ (∀ c ∈ fraction, isDecimalDigit c = true) ∧
        text = '.' :: (fraction ++ rest) ∧ takeFraction text = ('.' :: fraction, rest) := by
  rw [takeFraction.eq_def]
  split
  · next d more =>
    split
    · next hd =>
      refine Or.inr ⟨(d :: more).takeWhile isDecimalDigit, (d :: more).dropWhile isDecimalDigit,
        ?_, fun c hc => List.mem_takeWhile_imp hc, ?_, rfl⟩
      · rw [List.takeWhile_cons_of_pos hd]
        exact List.cons_ne_nil _ _
      · rw [List.takeWhile_append_dropWhile]
    · exact Or.inl rfl
  · exact Or.inl rfl

theorem exists_numeral_of_takeNumber (h : takeNumber text = some (token, rest)) :
    text = token ++ rest ∧
      ∃ negative whole fraction, Numeral isDecimalDigit token negative whole fraction := by
  obtain ⟨negative, hs, htext⟩ := exists_sign_of_takeSign text
  rw [takeNumber] at h
  generalize takeSign text = signed at *
  have hdigits : ∀ c ∈ signed.2.takeWhile isDecimalDigit, isDecimalDigit c = true :=
    fun c hc => List.mem_takeWhile_imp hc
  have hsplit := List.takeWhile_append_dropWhile (p := isDecimalDigit) (l := signed.2)
  generalize signed.2.takeWhile isDecimalDigit = whole at *
  generalize signed.2.dropWhile isDecimalDigit = behind at *
  split at h
  · cases h
  · next hne =>
    have hne : whole ≠ [] := by simpa using hne
    obtain ⟨rfl, rfl⟩ := Prod.mk.inj (Option.some.inj h)
    rcases takeFraction_cases behind with hf | ⟨fraction, rest, hne', hdigits', rfl, hf⟩
    · rw [hf, List.append_nil, List.append_assoc, hsplit]
      exact ⟨htext, negative, whole, [], .whole hs hne hdigits⟩
    · rw [hf, List.append_assoc signed.1]
      refine ⟨?_, negative, whole, fraction, .fraction hs hne hdigits hne' hdigits'⟩
      rw [htext, ← hsplit]
      simp

/-! ### The value of a number -/

/-- A number in digits of ASCII has a value. -/
theorem parseFinite?_eq_some (hn : Numeral Char.isDigit token negative whole fraction) :
    parseFinite? token = some (Number.Binary64.ofDecimal negative (natOfDigits (whole ++ fraction))
      (-fraction.length)) := by
  cases hn with
  | @whole sign _ _ hs ne digits =>
    have hsign := (takeSign_append hs ne (isDecimalDigit_of_isDigit digits) []).2
    rw [List.append_nil] at hsign
    have hrun := Text.takeWhile_append_of_stops digits stops_nil
    have hrest := Text.dropWhile_append_of_stops digits stops_nil
    rw [List.append_nil] at hrun hrest
    rw [parseFinite?, hsign, isAsciiDigit_eq]
    dsimp only
    rw [hrun, hrest]
    dsimp only
    rw [if_neg (by simpa using ne)]
    rfl
  | @fraction sign _ _ _ hs ne digits ne' digits' =>
    have hsign := (takeSign_append hs ne (isDecimalDigit_of_isDigit digits) ('.' :: fraction)).2
    have hpoint : Stops Char.isDigit ('.' :: fraction) := stops_cons.mpr (by decide)
    have hrun := Text.takeWhile_append_of_stops digits' stops_nil
    have hrest := Text.dropWhile_append_of_stops digits' stops_nil
    rw [List.append_nil] at hrun hrest
    rw [parseFinite?, hsign, isAsciiDigit_eq]
    dsimp only
    rw [Text.takeWhile_append_of_stops digits hpoint,
      Text.dropWhile_append_of_stops digits hpoint]
    simp only [hrun, hrest]
    rw [if_neg (by simp [ne])]
    simp [exponent?]

/-- A text of characters of ASCII. -/
def Ascii (text : List Char) : Prop := ∀ c ∈ text, c.toNat < 0x80

theorem ascii_nil : Ascii [] := by simp [Ascii]

theorem ascii_append {more : List Char} : Ascii (text ++ more) ↔ Ascii text ∧ Ascii more :=
  List.forall_mem_append

theorem ascii_cons : Ascii (c :: text) ↔ c.toNat < 0x80 ∧ Ascii text :=
  List.forall_mem_cons

theorem ascii_of_digits (digits : ∀ c ∈ text, isAsciiDigit c = true) : Ascii text := by
  intro c hc
  have hd := digits c hc
  rw [isAsciiDigit_eq, Text.isDigit_iff] at hd
  omega

theorem ascii_takeSign_iff (text : List Char) : Ascii (Number.takeSign text).2 ↔ Ascii text := by
  rw [Number.takeSign.eq_def]
  split <;> simp [ascii_cons]

theorem ascii_of_exponent? {e : Int} (h : exponent? text = some e) : Ascii text := by
  rw [Number.exponent?.eq_def] at h
  split at h
  · exact ascii_nil
  · next mark more =>
    split at h
    · next hmark =>
      dsimp only at h
      split at h
      · cases h
      · next hdigits =>
        have hall : ∀ c ∈ (Number.takeSign more).2, isAsciiDigit c = true := by
          have := (Bool.or_eq_false_iff.mp (Bool.eq_false_iff.mpr hdigits)).2
          rwa [Bool.not_eq_false', List.all_eq_true] at this
        refine ascii_cons.mpr ⟨?_, (ascii_takeSign_iff more).mp (ascii_of_digits hall)⟩
        rcases hmark with rfl | rfl <;> decide
    · cases h

/-- Only texts of ASCII have a value. -/
theorem ascii_of_parseFinite? {value : Float} (h : parseFinite? text = some value) :
    Ascii text := by
  rw [← ascii_takeSign_iff]
  rw [parseFinite?] at h
  generalize Number.takeSign text = signed at *
  obtain ⟨negative, rest⟩ := signed
  have hwhole : Ascii (rest.takeWhile isAsciiDigit) :=
    ascii_of_digits fun c hc => List.mem_takeWhile_imp hc
  dsimp only at h ⊢
  rw [← List.takeWhile_append_dropWhile (p := isAsciiDigit) (l := rest), ascii_append]
  refine ⟨hwhole, ?_⟩
  generalize rest.dropWhile isAsciiDigit = behind at *
  split at h
  · next more =>
    split at h
    · cases h
    · obtain ⟨e, he, -⟩ := Option.map_eq_some_iff.mp h
      have hfraction : Ascii (more.takeWhile isAsciiDigit) :=
        ascii_of_digits fun c hc => List.mem_takeWhile_imp hc
      rw [ascii_cons, ← List.takeWhile_append_dropWhile (p := isAsciiDigit) (l := more),
        ascii_append]
      exact ⟨by decide, hfraction, ascii_of_exponent? he⟩
  · split at h
    · cases h
    · obtain ⟨e, he, -⟩ := Option.map_eq_some_iff.mp h
      exact ascii_of_exponent? he

theorem isDigit_of_ascii (digits : ∀ c ∈ text, isDecimalDigit c = true) (h : Ascii text) :
    ∀ c ∈ text, c.isDigit = true :=
  fun c hc => Text.isDecimalDigit_of_ascii (h c hc) ▸ digits c hc

/-- **The value of a number.**  A number in decimal digits of any script has a value exactly if its
digits are those of ASCII. -/
theorem numeral_isDigit_of_parseFinite? {value : Float}
    (hn : Numeral isDecimalDigit token negative whole fraction)
    (h : parseFinite? token = some value) : Numeral Char.isDigit token negative whole fraction := by
  have hascii := ascii_of_parseFinite? h
  cases hn with
  | whole hs ne digits =>
    exact .whole hs ne (isDigit_of_ascii digits (ascii_append.mp hascii).2)
  | fraction hs ne digits ne' digits' =>
    obtain ⟨hw, hf⟩ := ascii_append.mp (ascii_append.mp hascii).2
    exact .fraction hs ne (isDigit_of_ascii digits hw) ne'
      (isDigit_of_ascii digits' (ascii_cons.mp hf).2)

end CatalogGuard.Rule
