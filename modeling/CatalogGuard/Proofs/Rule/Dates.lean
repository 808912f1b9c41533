import CatalogGuard.Proofs.Rule.Tokens

/-!
# Reading dates

The text of a date is split off by its shape, with the decimal digits of any script, and is then
read field by field: a number of at most as many digits of ASCII, then the separator.  A field with
another digit in it would end before its separator, so that all digits of a date that is read are
those of ASCII.  The bounds of single fields refuse no date that exists.

## Main results

* `takeShape_dateTimeShape_iff` — what is split off
* `ofMinutes_eq_ok`, `dateFields_isDigit_of_ofMinutes` — what is read of it
-/

namespace CatalogGuard.Rule

open Grammar
open Instant (readNumber readField readYear readSeparator readDateAndMinute ofMinutes)
open Number (isAsciiDigit natOfDigits)
open Text (Stops isDecimalDigit stops_nil stops_cons)

variable {digit : Char → Bool} {c : Char} {count : Nat} {field shape text token rest : List Char}
  {fields : Instant.Fields}

/-! ### Splitting dates off -/

theorem takeShape_cons_eq_some_iff {s : Char} :
    takeShape (s :: shape) text = some (token, rest) ↔
      ∃ c behind more, (if s = '0' then isDecimalDigit c else c == s) = true ∧
        text = c :: behind ∧ token = c :: more ∧ takeShape shape behind = some (more, rest) := by
  cases text with
  | nil => simp [takeShape]
  | cons c text =>
    rw [takeShape]
    by_cases hc : (if s = '0' then isDecimalDigit c else c == s) = true
    · rw [if_pos hc, Option.map_eq_some_iff]
      constructor
      · rintro ⟨⟨more, rest'⟩, h, heq⟩
        obtain ⟨rfl, rfl⟩ := Prod.mk.inj heq
        exact ⟨c, text, more, hc, rfl, rfl, h⟩
      · rintro ⟨d, behind, more, -, htext, rfl, h⟩
        obtain ⟨rfl, rfl⟩ := List.cons.inj htext
        exact ⟨(more, rest), h, rfl⟩
    · rw [if_neg hc]
      constructor
      · intro h
        cases h
      · rintro ⟨d, behind, more, hd, htext, -⟩
        obtain ⟨rfl, rfl⟩ := List.cons.inj htext
        exact absurd hd hc

theorem takeShape_zeros :
    takeShape (List.replicate count '0' ++ shape) text = some (token, rest) ↔
      ∃ field behind more, Field isDecimalDigit count field ∧ text = field ++ behind ∧
        token = field ++ more ∧ takeShape shape behind = some (more, rest) := by
  induction count generalizing text token with
  | zero =>
    constructor
    · intro h
      exact ⟨[], text, token, ⟨rfl, by simp⟩, rfl, rfl, h⟩
    · rintro ⟨field, behind, more, ⟨hlen, -⟩, rfl, rfl, h⟩
      obtain rfl := List.length_eq_zero_iff.mp hlen
      exact h
  | succ count ih =>
    rw [List.replicate_succ, List.cons_append, takeShape_cons_eq_some_iff]
    simp only [if_pos, ih]
    constructor
    · rintro ⟨c, _, _, hc, rfl, rfl, field, behind, more, ⟨hlen, hall⟩, rfl, rfl, h⟩
      exact ⟨c :: field, behind, more, ⟨congrArg (· + 1) hlen, List.forall_mem_cons.mpr ⟨hc, hall⟩⟩,
        rfl, rfl, h⟩
    · rintro ⟨field, behind, more, ⟨hlen, hall⟩, rfl, rfl, h⟩
      obtain ⟨c, field, rfl⟩ := List.exists_cons_of_length_eq_add_one hlen
      obtain ⟨hc, hall⟩ := List.forall_mem_cons.mp hall
      exact ⟨c, _, _, hc, rfl, rfl, field, behind, more, ⟨Nat.succ.inj hlen, hall⟩, rfl, rfl, h⟩

/-- A field and the separator behind it. -/
theorem takeShape_zeros_mark {s : Char} (hs : s ≠ '0') :
    takeShape (List.replicate count '0' ++ s :: shape) text = some (token, rest) ↔
      ∃ field behind more, Field isDecimalDigit count field ∧ text = field ++ s :: behind ∧
        token = field ++ s :: more ∧ takeShape shape behind = some (more, rest) := by
  rw [takeShape_zeros]
  simp only [takeShape_cons_eq_some_iff, if_neg hs, beq_iff_eq]
  constructor
  · rintro ⟨field, _, _, hf, rfl, rfl, _, behind, more, rfl, rfl, rfl, h⟩
    exact ⟨field, behind, more, hf, rfl, rfl, h⟩
  · rintro ⟨field, behind, more, hf, rfl, rfl, h⟩
    exact ⟨field, _, _, hf, rfl, rfl, s, behind, more, rfl, rfl, rfl, h⟩

theorem dateTimeShape_eq : dateTimeShape = List.replicate 4 '0' ++ '-' ::
    (List.replicate 2 '0' ++ '-' :: (List.replicate 2 '0' ++ 'T' ::
      (List.replicate 2 '0' ++ ':' :: (List.replicate 2 '0' ++ [])))) := by
  decide

/-- A date is split off exactly if the text starts with one in decimal digits of any script. -/
theorem takeShape_dateTimeShape_iff :
    takeShape dateTimeShape text = some (token, rest) ↔
      text = token ++ rest ∧ ∃ fields, DateFields isDecimalDigit token fields := by
  rw [dateTimeShape_eq]
  constructor
  · intro h
    obtain ⟨year, _, _, hyear, rfl, rfl, h₁⟩ := (takeShape_zeros_mark (by decide)).mp h
    obtain ⟨month, _, _, hmonth, rfl, rfl, h₂⟩ := (takeShape_zeros_mark (by decide)).mp h₁
    obtain ⟨day, _, _, hday, rfl, rfl, h₃⟩ := (takeShape_zeros_mark (by decide)).mp h₂
    obtain ⟨hour, _, _, hhour, rfl, rfl, h₄⟩ := (takeShape_zeros_mark (by decide)).mp h₃
    obtain ⟨minute, _, _, hminute, rfl, rfl, h₅⟩ := takeShape_zeros.mp h₄
    obtain ⟨rfl, rfl⟩ := Prod.mk.inj (Option.some.inj h₅)
    rw [List.append_nil]
    exact ⟨by simp, _, .fields hyear hmonth hday hhour hminute⟩
  · rintro ⟨rfl, _, ⟨hyear, hmonth, hday, hhour, hminute⟩⟩
    simp only [List.append_assoc, List.cons_append]
    refine (takeShape_zeros_mark (by decide)).mpr ⟨_, _, _, hyear, rfl, rfl, ?_⟩
    refine (takeShape_zeros_mark (by decide)).mpr ⟨_, _, _, hmonth, rfl, rfl, ?_⟩
    refine (takeShape_zeros_mark (by decide)).mpr ⟨_, _, _, hday, rfl, rfl, ?_⟩
    refine (takeShape_zeros_mark (by decide)).mpr ⟨_, _, _, hhour, rfl, rfl, ?_⟩
    exact takeShape_zeros.mpr ⟨_, rest, [], hminute, rfl, (List.append_nil _).symm, rfl⟩

/-! ### The fields of a date -/

theorem field_ne_nil (h : Field digit (count + 1) field) : field ≠ [] :=
  List.ne_nil_of_length_eq_add_one h.1

/-- A field in digits of ASCII is read whole. -/
theorem readNumber_append (h : Field Char.isDigit (count + 1) field) (rest : List Char) :
    readNumber (count + 1) (field ++ rest) = .ok (natOfDigits field, rest) := by
  have hrun := Text.takeWhile_append_of_stops h.2 stops_nil
  rw [List.append_nil] at hrun
  rw [readNumber, List.take_left' h.1, isAsciiDigit_eq, hrun, if_neg (by simp [field_ne_nil h]),
    if_neg (by simp [field_ne_nil h]), List.drop_left]

/-- If a number is read to the end of a field, the field is in digits of ASCII. -/
theorem field_isDigit_of_readNumber {n : Nat} (h : Field isDecimalDigit count field)
    (hr : readNumber count (field ++ rest) = .ok (n, token)) (hstop : Stops isDecimalDigit token) :
    Field Char.isDigit count field ∧ n = natOfDigits field ∧ token = rest := by
  rw [readNumber, List.take_left' h.1, isAsciiDigit_eq] at hr
  split at hr
  · cases hr
  · split at hr
    · cases hr
    · obtain ⟨rfl, rfl⟩ := Prod.mk.inj (Except.ok.inj hr)
      have hdigits : ∀ c ∈ field.takeWhile Char.isDigit, c.isDigit = true :=
        fun c hc => List.mem_takeWhile_imp hc
      have hsplit := List.takeWhile_append_dropWhile (p := Char.isDigit) (l := field)
      generalize field.takeWhile Char.isDigit = read at *
      generalize field.dropWhile Char.isDigit = behind at *
      subst hsplit
      rw [List.append_assoc, List.drop_left] at hstop ⊢
      -- a digit that is left of the field would come next
      cases behind with
      | nil => exact ⟨⟨h.1, by simpa using hdigits⟩, by simp⟩
      | cons d more =>
        have hd := h.2 d (by simp)
        rw [List.cons_append, stops_cons, hd] at hstop
        exact absurd hstop.symm Bool.false_ne_true

theorem isDecimalDigit_of_field (h : Field Char.isDigit count field) :
    Field isDecimalDigit count field :=
  ⟨h.1, fun c hc => Text.isDecimalDigit_of_isDigit (h.2 c hc)⟩

/-- A field starts with no blank and with no sign. -/
theorem exists_digit_of_field (h : Field isDecimalDigit (count + 1) field) (rest : List Char) :
    ∃ d more, field ++ rest = d :: more ∧ isDecimalDigit d = true := by
  obtain ⟨d, more, rfl⟩ := List.exists_cons_of_ne_nil (field_ne_nil h)
  exact ⟨d, more ++ rest, rfl, h.2 d List.mem_cons_self⟩

theorem stops_isBlank_of_field (h : Field isDecimalDigit (count + 1) field) (rest : List Char) :
    Stops Text.isBlank (field ++ rest) := by
  obtain ⟨d, more, heq, hd⟩ := exists_digit_of_field h rest
  rw [heq]
  exact stops_cons.mpr (Text.isBlank_of_isWordChar (Text.isWordChar_of_isDecimalDigit hd))

theorem skipBlanks_field (h : Field isDecimalDigit (count + 1) field) (rest : List Char) :
    Text.skipBlanks (field ++ rest) = field ++ rest :=
  (stops_isBlank_of_field h rest).dropWhile_eq

theorem readField_field {low high n : Nat} {behind : List Char}
    (h : Field isDecimalDigit 2 field) :
    readField low high (field ++ rest) = .ok (n, behind) ↔
      readNumber 2 (field ++ rest) = .ok (n, behind) ∧ low ≤ n ∧ n ≤ high := by
  rw [readField, skipBlanks_field h, bind_eq_ok_iff]
  constructor
  · rintro ⟨⟨m, r⟩, hr, hm⟩
    dsimp only at hm
    split at hm
    · next hle =>
      obtain ⟨rfl, rfl⟩ := Prod.mk.inj (Except.ok.inj hm)
      exact ⟨hr, hle⟩
    · cases hm
  · rintro ⟨hr, hle⟩
    exact ⟨(n, behind), hr, if_pos hle⟩

theorem readYear_field {y : Int} {behind : List Char} (h : Field isDecimalDigit 4 field) :
    readYear (field ++ rest) = .ok (y, behind) ↔
      ∃ n : Nat, readNumber 4 (field ++ rest) = .ok (n, behind) ∧ y = n := by
  rw [readYear, skipBlanks_field h]
  obtain ⟨d, more, heq, hd⟩ := exists_digit_of_field h rest
  rw [heq]
  split
  · next heq' =>
    obtain ⟨rfl, -⟩ := List.cons.inj heq'
    rw [Text.isDecimalDigit_of_ascii (by decide)] at hd
    exact absurd hd (by decide)
  · next heq' =>
    obtain ⟨rfl, -⟩ := List.cons.inj heq'
    rw [Text.isDecimalDigit_of_ascii (by decide)] at hd
    exact absurd hd (by decide)
  · rw [bind_eq_ok_iff]
    constructor
    · rintro ⟨⟨n, r⟩, hr, heq⟩
      obtain ⟨rfl, rfl⟩ := Prod.mk.inj (Except.ok.inj heq)
      exact ⟨n, hr, rfl⟩
    · rintro ⟨n, hr, rfl⟩
      exact ⟨(n, behind), hr, rfl⟩

theorem readSeparator_eq_ok_iff : readSeparator c text = .ok rest ↔ text = c :: rest := by
  cases text with
  | nil => simp [readSeparator]
  | cons d text =>
    rw [readSeparator, List.cons_eq_cons]
    split
    · next h => simp [h]
    · next h => simp [h]

/-- The fields of a real date and time are within their bounds. -/
theorem bounds_of_instant (t : Instant) :
    (1 ≤ t.month ∧ t.month ≤ 12) ∧ (1 ≤ t.day ∧ t.day ≤ 31) ∧ t.hour ≤ 23 ∧ t.minute ≤ 59 := by
  have hdays : daysInMonth t.year t.month ≤ 31 := by
    rw [daysInMonth.eq_def]
    split
    · split <;> omega
    all_goals omega
  have hreal := t.real
  simp only [Instant.Fields.isReal, Bool.and_eq_true, decide_eq_true_eq] at hreal
  omega

theorem ofFields?_eq_some_iff {t : Instant} :
    Instant.ofFields? fields = some t ↔ t.toFields = fields := by
  by_cases hreal : fields.isReal = true
  · have hsome : Instant.ofFields? fields = some ⟨fields, hreal⟩ := dif_pos hreal
    rw [hsome, Option.some_inj]
    constructor
    · rintro rfl
      rfl
    · rintro rfl
      rfl
  · have hnone : Instant.ofFields? fields = none := dif_neg hreal
    rw [hnone]
    constructor
    · intro h
      cases h
    · rintro rfl
      exact absurd t.real hreal

theorem check_eq_ok_iff {t : Instant} : Instant.check fields = .ok t ↔ t.toFields = fields := by
  rw [← ofFields?_eq_some_iff]
  delta Instant.check
  cases Instant.ofFields? fields with
  | none =>
    show Except.error _ = .ok t ↔ none = some t
    simp
  | some t' =>
    show Except.ok t' = .ok t ↔ some t' = some t
    rw [Except.ok.injEq, Option.some_inj]

theorem readField_append {low high : Nat} (h : Field Char.isDigit 2 field) (rest : List Char)
    (hlow : low ≤ natOfDigits field) (hhigh : natOfDigits field ≤ high) :
    readField low high (field ++ rest) = .ok (natOfDigits field, rest) :=
  (readField_field (isDecimalDigit_of_field h)).mpr ⟨readNumber_append h rest, hlow, hhigh⟩

/-- A real date and time in digits of ASCII is read, whatever follows, if no separator is lost. -/
theorem readDateAndMinute_append {gap : List Char → List Char} {t : Instant}
    (hgap : ∀ separator ∈ ['-', 'T', ':'], ∀ rest, gap (separator :: rest) = separator :: rest)
    (h : DateFields Char.isDigit text t.toFields) (rest : List Char) :
    readDateAndMinute gap (text ++ rest) = .ok (t.toFields, rest) := by
  obtain ⟨⟨hm, hm'⟩, ⟨hd, hd'⟩, hh, hmin⟩ := bounds_of_instant t
  generalize t.toFields = fields at h hm hm' hd hd' hh hmin
  obtain ⟨hyear, hmonth, hday, hhour, hminute⟩ := h
  have hhyphen := hgap '-' (by simp)
  have hletter := hgap 'T' (by simp)
  have hcolon := hgap ':' (by simp)
  simp only [readDateAndMinute, bind_eq_ok_iff, Prod.exists, List.append_assoc, List.cons_append]
  exact ⟨_, _, (readYear_field (isDecimalDigit_of_field hyear)).mpr
      ⟨_, readNumber_append hyear _, rfl⟩, _, readSeparator_eq_ok_iff.mpr (hhyphen _),
    _, _, readField_append hmonth _ hm hm', _, readSeparator_eq_ok_iff.mpr (hhyphen _),
    _, _, readField_append hday _ hd hd', _, readSeparator_eq_ok_iff.mpr (hletter _),
    _, _, readField_append hhour _ (Nat.zero_le _) hh, _, readSeparator_eq_ok_iff.mpr (hcolon _),
    _, _, readField_append hminute _ (Nat.zero_le _) hmin, rfl⟩

/-- A real date and time in digits of ASCII is read. -/
theorem ofMinutes_eq_ok {t : Instant} (h : DateFields Char.isDigit text t.toFields) :
    ofMinutes text = .ok t := by
  have hread := readDateAndMinute_append (fun _ _ _ => id_eq _) h []
  rw [List.append_nil] at hread
  rw [ofMinutes, bind_eq_ok_iff]
  exact ⟨(t.toFields, []), hread, check_eq_ok_iff.mpr rfl⟩

/-- A field that is read to its end is in digits of ASCII. -/
theorem field_isDigit_of_readField {low high n : Nat} (h : Field isDecimalDigit 2 field)
    (hr : readField low high (field ++ rest) = .ok (n, token))
    (hstop : Stops isDecimalDigit token) :
    Field Char.isDigit 2 field ∧ n = natOfDigits field ∧ token = rest :=
  field_isDigit_of_readNumber h ((readField_field h).mp hr).1 hstop

/-! ### Dates -/

theorem dateFields_isDecimalDigit (h : DateFields Char.isDigit text fields) :
    DateFields isDecimalDigit text fields := by
  obtain ⟨hyear, hmonth, hday, hhour, hminute⟩ := h
  exact .fields (isDecimalDigit_of_field hyear) (isDecimalDigit_of_field hmonth)
    (isDecimalDigit_of_field hday) (isDecimalDigit_of_field hhour)
    (isDecimalDigit_of_field hminute)

/-- A date starts with no blank. -/
theorem stops_isBlank_of_date {t : Instant} (h : Date text t) (rest : List Char) :
    Stops Text.isBlank (text ++ rest) := by
  rw [Date] at h
  generalize t.toFields = fields at h
  obtain ⟨hyear, -⟩ := h
  rw [List.append_assoc]
  exact stops_isBlank_of_field (isDecimalDigit_of_field hyear) _

/-- If a text in decimal digits is read as a date, its digits are those of ASCII: a field with
others would not be followed by its separator. -/
theorem dateFields_isDigit_of_ofMinutes {t : Instant} (hf : DateFields isDecimalDigit text fields)
    (h : ofMinutes text = .ok t) : DateFields Char.isDigit text t.toFields := by
  have hhyphen : ∀ rest, Stops isDecimalDigit ('-' :: rest) := fun _ =>
    stops_cons.mpr (Text.isDecimalDigit_of_ascii (by decide))
  have hcolon : ∀ rest, Stops isDecimalDigit (':' :: rest) := fun _ =>
    stops_cons.mpr (Text.isDecimalDigit_of_ascii (by decide))
  have hletter : ∀ rest, Stops isDecimalDigit ('T' :: rest) := fun _ =>
    stops_cons.mpr (Text.isDecimalDigit_of_ascii (by decide))
  obtain @⟨year, month, day, hour, minute, hyear, hmonth, hday, hhour, hminute⟩ := hf
  rw [ofMinutes, bind_eq_ok_iff] at h
  obtain ⟨⟨fields, behind⟩, hread, h⟩ := h
  simp only [readDateAndMinute, bind_eq_ok_iff, Prod.exists, id_eq,
    readSeparator_eq_ok_iff] at hread
  obtain ⟨y, _, hy, _, rfl, m, _, hm, _, rfl, d, _, hd, _, rfl, hr, _, hh, _, rfl, mi, _, hmi,
    heq⟩ := hread
  obtain ⟨rfl, rfl⟩ := Prod.mk.inj (Except.ok.inj heq)
  dsimp only at h
  split at h
  · next hnil =>
    obtain rfl := List.isEmpty_iff.mp hnil
    obtain ⟨n, hn, rfl⟩ := (readYear_field hyear).mp hy
    obtain ⟨hyear, rfl, hrest⟩ := field_isDigit_of_readNumber hyear hn (hhyphen _)
    obtain ⟨-, rfl⟩ := List.cons.inj hrest
    obtain ⟨hmonth, rfl, hrest⟩ := field_isDigit_of_readField hmonth hm (hhyphen _)
    obtain ⟨-, rfl⟩ := List.cons.inj hrest
    obtain ⟨hday, rfl, hrest⟩ := field_isDigit_of_readField hday hd (hletter _)
    obtain ⟨-, rfl⟩ := List.cons.inj hrest
    obtain ⟨hhour, rfl, hrest⟩ := field_isDigit_of_readField hhour hh (hcolon _)
    rw [(List.cons.inj hrest).2, ← List.append_nil minute] at hmi
    obtain ⟨hminute, rfl, -⟩ := field_isDigit_of_readField hminute hmi stops_nil
    rw [check_eq_ok_iff.mp h]
    exact .fields hyear hmonth hday hhour hminute
  · cases h

end CatalogGuard.Rule
