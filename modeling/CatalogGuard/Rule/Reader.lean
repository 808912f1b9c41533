import CatalogGuard.Outcome
import CatalogGuard.Rule.Basic
import CatalogGuard.Rule.Fault
import CatalogGuard.Text.Blank
import CatalogGuard.Text.DecimalDigit
import CatalogGuard.Text.WordChar

/-!
# Reading queries and rules

The grammar, with blanks allowed between tokens:

    rule    := [ "after" date [ "until" date ] | "until" date ] query
    query   := { "/" name [ filter ] }
    filter  := "[" "@" property comparison value "]"
    value   := quoted string | "true" | "false" | "null" | number

Each production is a function of the text that is left.  It returns what it read with the text
behind it, or a cause with the text at which it could go no further.  So what a production does
depends on nothing before it, and an offset is the difference of two sizes.

A name takes as many characters as it can, and a comparison the longest sign that fits.  A number
takes the decimal digits of any script, but only those of ASCII have a value.
-/

namespace CatalogGuard.Rule

open Text (isBlank isDecimalDigit isWordChar skipBlanks byteSize)

/-- A refusal: its cause, and the text that was left. -/
structure Refusal where
  /-- The cause. -/
  fault : Fault
  /-- The text from the character on that could not be read. -/
  rest : List Char
  deriving Repr, DecidableEq

/-- The complaint about a text, given the refusal of a production that read it. -/
def Refusal.complaint (text : String) (refusal : Refusal) : Complaint :=
  .place text refusal.fault (byteSize text.toList - byteSize refusal.rest)

/-- A production that reads an `α` from the front of a text. -/
abbrev Production (α : Type) := List Char → Except Refusal (α × List Char)

/-! ### Tokens -/

/-- Whether a character may stand in the name of an entry. -/
def isNameChar (c : Char) : Bool := isWordChar c || c == '.' || c == '*' || c == '-'

/-- Whether a character may open the name of a property. -/
def isIdentifierStart (c : Char) : Bool :=
  ('A' ≤ c && c ≤ 'Z') || ('a' ≤ c && c ≤ 'z') || c == '_'

/-- Whether a character may stand in the name of a property. -/
def isIdentifierChar (c : Char) : Bool := isWordChar c || c == '-'

/-- Splits a text into the quoted string it starts with and the rest.  The string ends at the first
quote that no backslash stands before; a backslash covers any character but a line break. -/
def takeQuoted : List Char → Option (List Char × List Char)
  | '\x22' :: rest => (body rest).map fun (token, rest) => ('\x22' :: token, rest)
  | _ => none
where
  /-- The part behind the opening quote. -/
  body : List Char → Option (List Char × List Char)
    | [] => none
    | '\x22' :: rest => some (['\x22'], rest)
    | '\\' :: [] => none
    | '\\' :: c :: rest =>
      if c = '\n' then none else (body rest).map fun (token, rest) => ('\\' :: c :: token, rest)
    | c :: rest => (body rest).map fun (token, rest) => (c :: token, rest)

/-- Whether a word that came just before would end here. -/
def endsWord : List Char → Bool
  | [] => true
  | c :: _ => !isWordChar c

/-- What follows a word, if the text starts with it and it ends there. -/
def takeWord (word text : List Char) : Option (List Char) :=
  (word.isPrefixOf? text).filter endsWord

/-- The digits behind a point, with the point; a point without digits is left alone. -/
def takeFraction : List Char → List Char × List Char
  | '.' :: c :: rest =>
    if isDecimalDigit c then
      ('.' :: (c :: rest).takeWhile isDecimalDigit, (c :: rest).dropWhile isDecimalDigit)
    else ([], '.' :: c :: rest)
  | text => ([], text)

/-- The sign a number may start with, and what follows. -/
def takeSign : List Char → List Char × List Char
  | '+' :: rest => (['+'], rest)
  | '-' :: rest => (['-'], rest)
  | text => ([], text)

/-- Splits a text into the number it starts with and the rest. -/
def takeNumber (text : List Char) : Option (List Char × List Char) :=
  let signed := takeSign text
  let digits := signed.2.takeWhile isDecimalDigit
  let fraction := takeFraction (signed.2.dropWhile isDecimalDigit)
  if digits.isEmpty then none else some (signed.1 ++ digits ++ fraction.1, fraction.2)

/-- The shape of a date and time; a zero stands for any decimal digit. -/
def dateTimeShape : List Char := "0000-00-00T00:00".toList

/-- Splits a text into a part of the given shape and the rest. -/
def takeShape : List Char → List Char → Option (List Char × List Char)
  | [], text => some ([], text)
  | _ :: _, [] => none
  | s :: shape, c :: text =>
    if (if s = '0' then isDecimalDigit c else c == s) then
      (takeShape shape text).map fun (token, rest) => (c :: token, rest)
    else none

/-- The signs of comparisons, with both spellings of equality, longer ones first. -/
def comparisonTokens : List (List Char × Comparison) :=
  [(['!', '='], .notEqual), (['*', '='], .contains), (['^', '='], .startsWith),
   (['$', '='], .endsWith), (['=', '='], .equal), (['<', '='], .lessOrEqual),
   (['>', '='], .greaterOrEqual), (['<'], .less), (['>'], .greater), (['='], .equal)]

/-- The comparison whose sign a text starts with, and the rest. -/
def takeComparison (text : List Char) : Option (Comparison × List Char) :=
  comparisonTokens.findSome? fun (token, comparison) =>
    (token.isPrefixOf? text).map fun rest => (comparison, rest)

/-! ### Productions -/

/-- Reads the value of a filter. -/
def value : Production PropertyValue := fun text =>
  match takeQuoted text with
  | some (token, rest) =>
    match Text.Quoted.decode token with
    | .ok (decoded, _) => .ok (.string (String.ofList decoded), rest)
    | .error fault =>
      let (line, column) := fault.place token
      .error ⟨.badString fault.flaw line column, text⟩
  | none =>
    match takeWord ['t', 'r', 'u', 'e'] text with
    | some rest => .ok (.bool true, rest)
    | none =>
      match takeWord ['f', 'a', 'l', 's', 'e'] text with
      | some rest => .ok (.bool false, rest)
      | none =>
        match takeWord ['n', 'u', 'l', 'l'] text with
        | some rest => .ok (.null, rest)
        | none =>
          match takeNumber text with
          | some (token, rest) =>
            match Number.parseFinite? token with
            | some number => .ok (.number number, rest)
            | none => .error ⟨.badNumber token, text⟩
          | none => .error ⟨.value, text⟩

/-- Reads the name of a property. -/
def propertyName : Production String := fun text =>
  match text with
  | c :: rest =>
    if isIdentifierStart c then
      .ok (String.ofList (c :: rest.takeWhile isIdentifierChar), rest.dropWhile isIdentifierChar)
    else .error ⟨.propertyName, text⟩
  | [] => .error ⟨.propertyName, text⟩

/-- Reads the given character behind blanks. -/
def punctuation (c : Char) (fault : Fault) (text : List Char) : Except Refusal (List Char) :=
  match skipBlanks text with
  | [] => .error ⟨fault, []⟩
  | d :: rest => if d = c then .ok rest else .error ⟨fault, d :: rest⟩

/-- Reads a comparison behind blanks. -/
def comparison : Production Comparison := fun text =>
  match takeComparison (skipBlanks text) with
  | some read => .ok read
  | none => .error ⟨.comparison, skipBlanks text⟩

/-- Reads a filter behind its opening bracket. -/
def filter : Production PropertyFilter := fun text => do
  let text ← punctuation '@' .atSign text
  let (name, text) ← propertyName text
  let (comparison, text) ← comparison text
  let (value, text) ← value (skipBlanks text)
  let text ← punctuation ']' .closingBracket text
  .ok (⟨name, comparison, value⟩, text)

/-- Reads what may follow the name of an entry pattern. -/
def optionalFilter : Production (Option PropertyFilter) := fun text =>
  match skipBlanks text with
  | '[' :: rest => do
    let (filter, rest) ← filter rest
    .ok (some filter, rest)
  | rest => .ok (none, rest)

/-- Reads the name of an entry pattern behind blanks. -/
def entryName : Production NamePattern := fun text =>
  let text := skipBlanks text
  match text.takeWhile isNameChar with
  | [] => .error ⟨.entryName, text⟩
  | name => .ok (.ofText (String.ofList name), text.dropWhile isNameChar)

/-- Reads an entry pattern. -/
def entryPattern : Production EntryPattern := fun text =>
  match text with
  | '/' :: rest => do
    let (name, rest) ← entryName rest
    let (filter, rest) ← optionalFilter rest
    .ok (⟨name, filter⟩, rest)
  | _ => .error ⟨.slash, text⟩

/-! ### Productions leave less text -/

theorem length_le_of_takeQuoted_body {text token rest : List Char}
    (h : takeQuoted.body text = some (token, rest)) : rest.length ≤ text.length := by
  fun_induction takeQuoted.body text generalizing token rest with
  | case1 => cases h
  | case2 tail =>
    obtain ⟨-, rfl⟩ := Prod.mk.inj (Option.some.inj h)
    exact Nat.le_succ _
  | case3 => cases h
  | case4 => cases h
  | case5 c tail _ ih =>
    obtain ⟨⟨more, _⟩, hbody, heq⟩ := Option.map_eq_some_iff.mp h
    obtain ⟨-, rfl⟩ := Prod.mk.inj heq
    exact Nat.le_succ_of_le (Nat.le_succ_of_le (ih hbody))
  | case6 c tail _ _ _ ih =>
    obtain ⟨⟨more, _⟩, hbody, heq⟩ := Option.map_eq_some_iff.mp h
    obtain ⟨-, rfl⟩ := Prod.mk.inj heq
    exact Nat.le_succ_of_le (ih hbody)

theorem length_le_of_takeQuoted {text token rest : List Char}
    (h : takeQuoted text = some (token, rest)) : rest.length ≤ text.length := by
  unfold takeQuoted at h
  split at h
  next tail =>
    obtain ⟨⟨more, _⟩, hbody, heq⟩ := Option.map_eq_some_iff.mp h
    obtain ⟨-, rfl⟩ := Prod.mk.inj heq
    exact Nat.le_succ_of_le (length_le_of_takeQuoted_body hbody)
  next => cases h

theorem length_le_of_isPrefixOf? {word text rest : List Char}
    (h : word.isPrefixOf? text = some rest) : rest.length ≤ text.length := by
  induction word generalizing text with
  | nil =>
    have ht : some text = some rest := h
    exact Nat.le_of_eq (congrArg List.length (Option.some.inj ht).symm)
  | cons c word ih =>
    cases text with
    | nil => exact nomatch (show none = some rest from h)
    | cons d text =>
      have ht : (if c == d then word.isPrefixOf? text else none) = some rest := h
      split at ht
      · exact Nat.le_succ_of_le (ih ht)
      · exact nomatch ht

theorem length_le_of_takeWord {word text rest : List Char}
    (h : takeWord word text = some rest) : rest.length ≤ text.length := by
  simp only [takeWord, Option.filter_eq_some_iff] at h
  exact length_le_of_isPrefixOf? h.1

theorem length_takeFraction_le (text : List Char) :
    (takeFraction text).2.length ≤ text.length := by
  unfold takeFraction
  split
  · next c rest =>
    split
    · have := (List.dropWhile_sublist isDecimalDigit (l := c :: rest)).length_le
      simp only [List.length_cons] at this ⊢
      omega
    · simp
  · simp

theorem length_takeSign_le (text : List Char) : (takeSign text).2.length ≤ text.length := by
  unfold takeSign
  split <;> simp

theorem length_le_of_takeNumber {text token rest : List Char}
    (h : takeNumber text = some (token, rest)) : rest.length ≤ text.length := by
  unfold takeNumber at h
  simp only at h
  split at h
  · simp at h
  · simp only [Option.some.injEq, Prod.mk.injEq] at h
    obtain ⟨-, rfl⟩ := h
    exact Nat.le_trans (length_takeFraction_le _)
      (Nat.le_trans (List.dropWhile_sublist _).length_le (length_takeSign_le text))

theorem length_le_of_value {text rest : List Char} {read : PropertyValue}
    (h : value text = .ok (read, rest)) : rest.length ≤ text.length := by
  revert h
  fun_cases value text with
  | case1 token tail hquoted =>
    intro h
    obtain ⟨-, rfl⟩ := Prod.mk.inj (Except.ok.inj h)
    exact length_le_of_takeQuoted hquoted
  | case2 =>
    intro h
    cases h
  | case3 _ tail hword =>
    intro h
    obtain ⟨-, rfl⟩ := Prod.mk.inj (Except.ok.inj h)
    exact length_le_of_takeWord hword
  | case4 _ _ tail hword =>
    intro h
    obtain ⟨-, rfl⟩ := Prod.mk.inj (Except.ok.inj h)
    exact length_le_of_takeWord hword
  | case5 _ _ _ tail hword =>
    intro h
    obtain ⟨-, rfl⟩ := Prod.mk.inj (Except.ok.inj h)
    exact length_le_of_takeWord hword
  | case6 _ _ _ _ token tail hnumber =>
    intro h
    obtain ⟨-, rfl⟩ := Prod.mk.inj (Except.ok.inj h)
    exact length_le_of_takeNumber hnumber
  | case7 =>
    intro h
    cases h
  | case8 =>
    intro h
    cases h

theorem length_le_of_propertyName {text rest : List Char} {name : String}
    (h : propertyName text = .ok (name, rest)) : rest.length ≤ text.length := by
  unfold propertyName at h
  split at h
  · next c tail =>
    split at h
    · simp only [Except.ok.injEq, Prod.mk.injEq] at h
      obtain ⟨-, rfl⟩ := h
      have := (List.dropWhile_sublist isIdentifierChar (l := tail)).length_le
      simp only [List.length_cons]
      omega
    · simp at h
  · simp at h

theorem length_le_of_punctuation {c : Char} {fault : Fault} {text rest : List Char}
    (h : punctuation c fault text = .ok rest) : rest.length ≤ text.length := by
  unfold punctuation at h
  split at h
  · simp at h
  · next d tail hs =>
    split at h
    · simp only [Except.ok.injEq] at h
      subst h
      have := Text.length_skipBlanks_le text
      rw [hs, List.length_cons] at this
      omega
    · simp at h

theorem length_le_of_comparison {text rest : List Char} {read : Comparison}
    (h : comparison text = .ok (read, rest)) : rest.length ≤ text.length := by
  unfold comparison at h
  split at h
  · next hc =>
    simp only [Except.ok.injEq] at h
    subst h
    unfold takeComparison at hc
    obtain ⟨⟨token, _⟩, -, ht⟩ := List.exists_of_findSome?_eq_some hc
    simp only [Option.map_eq_some_iff, Prod.mk.injEq] at ht
    obtain ⟨_, hp, -, rfl⟩ := ht
    exact Nat.le_trans (length_le_of_isPrefixOf? hp) (Text.length_skipBlanks_le text)
  · simp at h

theorem length_le_of_filter {text rest : List Char} {read : PropertyFilter}
    (h : filter text = .ok (read, rest)) : rest.length ≤ text.length := by
  obtain ⟨afterSign, hsign, h⟩ := bind_eq_ok_iff.mp h
  obtain ⟨⟨name, afterName⟩, hname, h⟩ := bind_eq_ok_iff.mp h
  obtain ⟨⟨sign, afterComparison⟩, hcomparison, h⟩ := bind_eq_ok_iff.mp h
  obtain ⟨⟨constant, afterValue⟩, hvalue, h⟩ := bind_eq_ok_iff.mp h
  obtain ⟨afterBracket, hbracket, h⟩ := bind_eq_ok_iff.mp h
  obtain ⟨-, rfl⟩ := Prod.mk.inj (Except.ok.inj h)
  calc afterBracket.length
      ≤ afterValue.length := length_le_of_punctuation hbracket
    _ ≤ (skipBlanks afterComparison).length := length_le_of_value hvalue
    _ ≤ afterComparison.length := Text.length_skipBlanks_le afterComparison
    _ ≤ afterName.length := length_le_of_comparison hcomparison
    _ ≤ afterSign.length := length_le_of_propertyName hname
    _ ≤ text.length := length_le_of_punctuation hsign

theorem length_le_of_optionalFilter {text rest : List Char} {read : Option PropertyFilter}
    (h : optionalFilter text = .ok (read, rest)) : rest.length ≤ text.length := by
  refine Nat.le_trans ?_ (Text.length_skipBlanks_le text)
  unfold optionalFilter at h
  split at h
  next tail ht =>
    obtain ⟨⟨read, afterFilter⟩, hfilter, h⟩ := bind_eq_ok_iff.mp h
    obtain ⟨-, rfl⟩ := Prod.mk.inj (Except.ok.inj h)
    rw [ht]
    exact Nat.le_succ_of_le (length_le_of_filter hfilter)
  next =>
    obtain ⟨-, rfl⟩ := Prod.mk.inj (Except.ok.inj h)
    exact Nat.le_refl _

theorem length_le_of_entryName {text rest : List Char} {read : NamePattern}
    (h : entryName text = .ok (read, rest)) : rest.length ≤ text.length := by
  unfold entryName at h
  simp only at h
  split at h
  · simp at h
  · simp only [Except.ok.injEq, Prod.mk.injEq] at h
    obtain ⟨-, rfl⟩ := h
    exact Nat.le_trans (List.dropWhile_sublist _).length_le (Text.length_skipBlanks_le text)

/-- An entry pattern takes at least its slash. -/
theorem length_lt_of_entryPattern {text rest : List Char} {read : EntryPattern}
    (h : entryPattern text = .ok (read, rest)) : rest.length < text.length := by
  unfold entryPattern at h
  split at h
  next tail =>
    obtain ⟨⟨name, afterName⟩, hname, h⟩ := bind_eq_ok_iff.mp h
    obtain ⟨⟨condition, afterFilter⟩, hfilter, h⟩ := bind_eq_ok_iff.mp h
    obtain ⟨-, rfl⟩ := Prod.mk.inj (Except.ok.inj h)
    calc afterFilter.length
        ≤ afterName.length := length_le_of_optionalFilter hfilter
      _ ≤ tail.length := length_le_of_entryName hname
      _ < tail.length + 1 := Nat.lt_succ_self _
  next => cases h

/-! ### Whole texts -/

/-- Reads entry patterns up to the end of the text. -/
def patterns (text : List Char) : Except Refusal Query :=
  match hs : skipBlanks text with
  | [] => .ok []
  | c :: tail =>
    match h : entryPattern (c :: tail) with
    | .error refusal => .error refusal
    | .ok (pattern, rest) =>
      have : rest.length < text.length :=
        Nat.lt_of_lt_of_le (length_lt_of_entryPattern h)
          (hs ▸ Text.length_skipBlanks_le text)
      match patterns rest with
      | .error refusal => .error refusal
      | .ok more => .ok (pattern :: more)
  termination_by text.length

/-- Reads a date and time behind a keyword and at least one blank. -/
def bound (keyword : String) : Production Instant := fun text =>
  let rest := skipBlanks text
  if rest.length = text.length then .error ⟨.blankAfter keyword, text⟩
  else
    match takeShape dateTimeShape rest with
    | none => .error ⟨.dateTime, rest⟩
    | some (token, after) =>
      match Instant.ofMinutes token with
      | .ok t => .ok (t, after)
      | .error fault => .error ⟨.badDateTime token fault, rest⟩

/-- What follows the keyword of a closing bound, if blanks and the keyword come next. -/
def takeUntil (text : List Char) : Option (List Char) :=
  let rest := skipBlanks text
  if rest.length = text.length then none else "until".toList.isPrefixOf? rest

/-- Reads the window of a rule. -/
def window : Production (Option Instant × Option Instant) := fun text =>
  match "after".toList.isPrefixOf? text with
  | some rest => do
    let (opens, rest) ← bound "after" rest
    match takeUntil rest with
    | none => .ok ((some opens, none), rest)
    | some rest =>
      let (closes, rest) ← bound "until" rest
      .ok ((some opens, some closes), rest)
  | none =>
    match "until".toList.isPrefixOf? text with
    | some rest => do
      let (closes, rest) ← bound "until" rest
      .ok ((none, some closes), rest)
    | none => .ok ((none, none), text)

/-- Reads a rule up to the end of the text. -/
def whole (text : List Char) : Except Refusal Rule := do
  let ((opens, closes), rest) ← window (skipBlanks text)
  let query ← patterns rest
  .ok ⟨query, opens, closes⟩

/-- The rule that a text stands for. -/
def parse (text : String) : Except Complaint Rule :=
  (whole text.toList).mapError (Refusal.complaint text)

end CatalogGuard.Rule

/-- The query that a text stands for. -/
def CatalogGuard.Query.parse (text : String) :
    Except CatalogGuard.Rule.Complaint CatalogGuard.Query :=
  (CatalogGuard.Rule.patterns text.toList).mapError (CatalogGuard.Rule.Refusal.complaint text)
