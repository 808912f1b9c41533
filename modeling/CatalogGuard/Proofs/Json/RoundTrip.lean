import CatalogGuard.Json.Writer
import CatalogGuard.Proofs.Json.Numbers
import CatalogGuard.Proofs.Text.Spelling

/-!
# JSON read back

A value is written by putting its spellings between marks, and whatever its spellings are, they are
taken as they stand.  If they are spellings of the grammar, the reader finds the same marks again: a
string ends at its quote, since quotes within it are escaped, and a number ends where a mark comes
that cannot continue it.

The readers of values, of items and of fields call each other with a bound on the number of steps.
Each of them takes a character that the others do not, so the length of the text is bound enough.

## Main definitions

* `WellSpelled` — the strings and numbers in a value are those of the grammar
* `ReadsBack` — with so many steps, what was written is read

## Main results

* `stringBody_of_spelled` — a string is split off whole, whatever its spelling
* `readsBack` — as many steps as there are characters are enough
* `parse?_compact` — a well-spelled value is read back from its text
-/

namespace CatalogGuard.Json

open Rule (isPrefixOf?_append isPrefixOf?_eq_some_iff)
open Text (Stops)
open Text.Quoted (Spelled Spelling hexNumber hexValue shortEscape)

variable {a b c d : Char} {n bound : Nat} {run text spelling rest : List Char} {content : Json}
  {list : List Json} {record : List (List Char × Json)}

/-- A value whose strings and numbers are spelled as the grammar wants it. -/
inductive WellSpelled : Json → Prop where
  | null : WellSpelled .null
  | bool (value : Bool) : WellSpelled (.bool value)
  | number {spelling : List Char} (h : NumberText spelling) : WellSpelled (.number spelling)
  | string {spelling text : List Char} (h : Spelled spelling text) : WellSpelled (.string spelling)
  | array {items : List Json} (h : ∀ item ∈ items, WellSpelled item) : WellSpelled (.array items)
  | object {fields : List (List Char × Json)}
      (hnames : ∀ field ∈ fields, ∃ text, Spelled field.1 text)
      (h : ∀ field ∈ fields, WellSpelled field.2) : WellSpelled (.object fields)

/-! ### Strings -/

theorem all_hexValue (h : hexNumber a b c d = some n) :
    ([a, b, c, d].all fun digit => (hexValue digit).isSome) = true := by
  simp only [hexNumber, Option.bind_eq_bind, Option.bind_eq_some_iff] at h
  obtain ⟨_, ha, _, hb, _, hc, _, hd, -⟩ := h
  simp [ha, hb, hc, hd]

theorem stringBody_append (h : Spelling run c) (hb : stringBody text = some (spelling, rest)) :
    stringBody (run ++ text) = some (run ++ spelling, rest) := by
  cases h with
  | raw hq hs hc =>
    have hc : ¬(c.toNat < 0x20 || c == '\\') = true := by simp [hs, Nat.not_lt.mpr hc]
    rw [List.singleton_append, stringBody, if_neg hc, hb]
    · rfl
    · exact fun heq => absurd heq hq
    · exact fun _ _ _ _ _ heq => absurd heq hs
    · exact fun _ _ heq => absurd heq hs
  | @short letter _ h =>
    have hletter : letter ≠ 'u' := by
      rintro rfl
      cases h
    have hsome : (shortEscape letter).isSome = true := by rw [h]; rfl
    rw [List.cons_append, List.singleton_append, stringBody, if_pos hsome, hb]
    · rfl
    · exact fun _ _ _ _ _ heq => absurd heq hletter
  | unit h =>
    simp only [List.cons_append, List.nil_append]
    rw [stringBody, if_pos (all_hexValue h), hb]
    rfl
  | pair h _ h' _ =>
    simp only [List.cons_append, List.nil_append]
    rw [stringBody, if_pos (all_hexValue h), stringBody, if_pos (all_hexValue h'), hb]
    rfl

/-- **A string is split off whole**, whatever its spelling. -/
theorem stringBody_of_spelled (h : Spelled spelling text) (rest : List Char) :
    stringBody (spelling ++ '\x22' :: rest) = some (spelling, rest) := by
  induction h with
  | nil => rfl
  | cons hc _ ih =>
    rw [List.append_assoc]
    exact stringBody_append hc ih

/-! ### Words and numbers -/

/-- What may follow a value: nothing, or a mark of the list or the object that it is in. -/
def EndsValue (rest : List Char) : Prop := ∀ c ∈ rest.head?, c ∈ [',', ']', '\x7d']

theorem endsValue_cons : EndsValue (c :: rest) ↔ c ∈ [',', ']', '\x7d'] := by simp [EndsValue]

theorem EndsValue.stops (h : EndsValue rest) : Stops continuesNumber rest := by
  intro c hc
  have hmark := h c hc
  simp only [List.mem_cons, List.not_mem_nil, or_false] at hmark
  rcases hmark with rfl | rfl | rfl <;> rfl

/-- The first character of a number. -/
theorem NumberText.exists_cons (h : NumberText spelling) :
    ∃ c more, spelling = c :: more ∧ (c.isDigit = true ∨ c = '-') := by
  obtain ⟨hsign, hw, hf, he⟩ := h
  rcases hsign with rfl | rfl
  · obtain ⟨c, more, rfl, hc⟩ := hw.exists_cons
    exact ⟨c, _, rfl, Or.inl hc⟩
  · exact ⟨'-', _, rfl, Or.inr rfl⟩

theorem isPrefixOf?_cons_of_ne (h : c ≠ d) : (d :: run).isPrefixOf? (c :: text) = none := by
  rw [Option.eq_none_iff_forall_ne_some]
  intro rest hsome
  exact h (List.cons.inj (isPrefixOf?_eq_some_iff.mp hsome)).1

theorem scalar_number (h : NumberText spelling) (hrest : EndsValue rest) :
    scalar (spelling ++ rest) = some (.number spelling, rest) := by
  have hnumber := numberSpelling_append h hrest.stops
  obtain ⟨c, more, rfl, hc⟩ := h.exists_cons
  have hword : ∀ d ∈ ['n', 't', 'f'], c ≠ d := by
    rintro d hd rfl
    simp only [List.mem_cons, List.not_mem_nil, or_false] at hd
    rcases hd with rfl | rfl | rfl <;> simp at hc
  rw [List.cons_append] at hnumber ⊢
  rw [scalar, isPrefixOf?_cons_of_ne (hword 'n' (by simp)),
    isPrefixOf?_cons_of_ne (hword 't' (by simp)), isPrefixOf?_cons_of_ne (hword 'f' (by simp))]
  simp only [hnumber, Option.map_some]

/-! ### Values -/

/-- The first character of a value: no space, and no end of a list. -/
theorem WellSpelled.exists_cons (h : content.WellSpelled) :
    ∃ c more, content.compact = c :: more ∧ isSpace c = false ∧ c ≠ ']' := by
  cases h with
  | null => exact ⟨_, _, rfl, rfl, by decide⟩
  | bool value =>
    cases value with
    | true => exact ⟨_, _, rfl, rfl, by decide⟩
    | false => exact ⟨_, _, rfl, rfl, by decide⟩
  | number h =>
    obtain ⟨c, more, rfl, hc⟩ := h.exists_cons
    refine ⟨c, more, rfl, Bool.eq_false_iff.mpr fun hspace => ?_, ?_⟩
    · simp only [isSpace, Bool.or_eq_true, beq_iff_eq] at hspace
      rcases hspace with ((rfl | rfl) | rfl) | rfl <;> simp at hc
    · rintro rfl
      simp at hc
  | string => exact ⟨_, _, rfl, rfl, by decide⟩
  | array => exact ⟨_, _, rfl, rfl, by decide⟩
  | object => exact ⟨_, _, rfl, rfl, by decide⟩

/-- With so many steps, what was written is read, whatever follows. -/
structure ReadsBack (bound : Nat) : Prop where
  /-- A value is. -/
  ofValue : ∀ content rest, WellSpelled content → content.compact.length ≤ bound →
    EndsValue rest → value bound (content.compact ++ rest) = some (content, rest)
  /-- The items of a list are. -/
  ofItems : ∀ list rest, list ≠ [] → (∀ item ∈ list, WellSpelled item) →
    (compactItems list).length ≤ bound →
    items bound (compactItems list ++ rest) = some (list, rest)
  /-- The fields of an object are. -/
  ofFields : ∀ record rest, record ≠ [] → (∀ field ∈ record, ∃ text, Spelled field.1 text) →
    (∀ field ∈ record, WellSpelled field.2) → (compactFields record).length ≤ bound →
    fields bound (compactFields record ++ rest) = some (record, rest)

theorem skipSpace_cons (h : isSpace c = false) : skipSpace (c :: text) = c :: text := by
  rw [skipSpace, List.dropWhile_cons_of_neg (Bool.not_eq_true _ ▸ h)]

/-- A text of items starts as its first item does. -/
theorem exists_cons_of_compactItems (ne : list ≠ []) (h : ∀ item ∈ list, WellSpelled item) :
    ∃ c more, compactItems list = c :: more ∧ isSpace c = false ∧ c ≠ ']' := by
  obtain ⟨item, more, rfl⟩ := List.exists_cons_of_ne_nil ne
  obtain ⟨c, text, hc, hspace, hend⟩ := (h item List.mem_cons_self).exists_cons
  cases more with
  | nil => exact ⟨c, text ++ [']'], by rw [compactItems, hc, List.cons_append], hspace, hend⟩
  | cons next more =>
    exact ⟨c, text ++ ',' :: compactItems (next :: more),
      by rw [compactItems, hc, List.cons_append], hspace, hend⟩

theorem exists_cons_of_compactFields (ne : record ≠ []) :
    ∃ more, compactFields record = '\x22' :: more := by
  obtain ⟨field, more, rfl⟩ := List.exists_cons_of_ne_nil ne
  cases more with
  | nil => exact ⟨_, rfl⟩
  | cons next more => exact ⟨_, rfl⟩

theorem value_succ (ih : ReadsBack bound) (h : WellSpelled content)
    (hlen : content.compact.length ≤ bound + 1) (hrest : EndsValue rest) :
    value (bound + 1) (content.compact ++ rest) = some (content, rest) := by
  cases h with
  | null => rfl
  | bool truth =>
    cases truth with
    | true => rfl
    | false => rfl
  | number h =>
    have hscalar := scalar_number h hrest
    obtain ⟨c, more, rfl, hc⟩ := h.exists_cons
    have hmark : ∀ d, ¬(d.isDigit = true ∨ d = '-') → ∀ tail, c :: (more ++ rest) ≠ d :: tail :=
      fun d hd tail heq => hd ((List.cons.inj heq).1 ▸ hc)
    rw [compact, List.cons_append] at *
    rw [value, hscalar]
    · exact hmark '\x22' (by decide)
    · exact hmark '[' (by decide)
    · exact hmark '\x7b' (by decide)
  | string h =>
    rw [compact, quoted, List.cons_append, List.append_assoc, value, List.singleton_append,
      stringBody_of_spelled h]
    rfl
  | @array list h =>
    cases list with
    | nil => rfl
    | cons item list =>
      have ne := List.cons_ne_nil item list
      have hitems := ih.ofItems _ rest ne h (Nat.le_of_succ_le_succ hlen)
      obtain ⟨c, more, hc, hspace, hend⟩ := exists_cons_of_compactItems ne h
      rw [hc, List.cons_append] at hitems
      rw [compact, List.cons_append, value, hc, List.cons_append, skipSpace_cons hspace]
      split
      · next heq => exact absurd (List.cons.inj heq).1 hend
      · rw [hitems]
        rfl
  | @object record hnames h =>
    cases record with
    | nil => rfl
    | cons field record =>
      have ne := List.cons_ne_nil field record
      have hfields := ih.ofFields _ rest ne hnames h (Nat.le_of_succ_le_succ hlen)
      obtain ⟨more, hc⟩ := exists_cons_of_compactFields ne
      rw [hc, List.cons_append] at hfields
      rw [compact, List.cons_append, value, hc, List.cons_append, skipSpace_cons rfl]
      exact congrArg (Option.map _) hfields

/-! ### Lists and objects -/

theorem items_of_last (h : value bound text = some (content, ']' :: rest)) :
    items (bound + 1) text = some ([content], rest) := by
  rw [items, h]
  rfl

theorem items_of_more {behind : List Char} (h : value bound text = some (content, ',' :: behind))
    (hmore : items bound (skipSpace behind) = some (list, rest)) :
    items (bound + 1) text = some (content :: list, rest) := by
  have hcomma : isSpace ',' = false := rfl
  rw [items, h]
  simp only [Option.bind_eq_bind, Option.bind_some, skipSpace_cons hcomma, hmore]

theorem items_succ (ih : ReadsBack bound) (ne : list ≠ []) (h : ∀ item ∈ list, WellSpelled item)
    (hlen : (compactItems list).length ≤ bound + 1) (rest : List Char) :
    items (bound + 1) (compactItems list ++ rest) = some (list, rest) := by
  obtain ⟨item, more, rfl⟩ := List.exists_cons_of_ne_nil ne
  obtain ⟨hitem, hmore⟩ := List.forall_mem_cons.mp h
  cases more with
  | nil =>
    rw [compactItems, List.length_append] at hlen
    rw [compactItems, List.append_assoc]
    exact items_of_last (ih.ofValue item (']' :: rest) hitem (Nat.le_of_succ_le_succ hlen)
      (endsValue_cons.mpr (by simp)))
  | cons next more =>
    rw [compactItems, List.length_append, List.length_cons] at hlen
    rw [compactItems, List.append_assoc, List.cons_append]
    have ne := List.cons_ne_nil next more
    obtain ⟨c, text, hc, hspace, -⟩ := exists_cons_of_compactItems ne hmore
    have hskip : skipSpace (compactItems (next :: more) ++ rest) =
        compactItems (next :: more) ++ rest := by
      rw [hc, List.cons_append, skipSpace_cons hspace]
    refine items_of_more (ih.ofValue item _ hitem (by omega) (endsValue_cons.mpr (by simp))) ?_
    rw [hskip]
    exact ih.ofItems _ rest ne hmore (by omega)

theorem fields_of_last {name behind : List Char} (hname : Spelled name text)
    (h : value bound (skipSpace behind) = some (content, '\x7d' :: rest)) :
    fields (bound + 1) (quoted name ++ ':' :: behind) = some ([(name, content)], rest) := by
  have hcolon : isSpace ':' = false := rfl
  have hbrace : isSpace '\x7d' = false := rfl
  rw [quoted, List.cons_append, List.append_assoc, List.singleton_append, fields,
    stringBody_of_spelled hname]
  simp only [Option.bind_eq_bind, Option.bind_some, skipSpace_cons hcolon, skipSpace_cons hbrace, h]

theorem fields_of_more {name behind behind' : List Char} (hname : Spelled name text)
    (h : value bound (skipSpace behind) = some (content, ',' :: behind'))
    (hmore : fields bound (skipSpace behind') = some (record, rest)) :
    fields (bound + 1) (quoted name ++ ':' :: behind) = some ((name, content) :: record, rest) := by
  have hcolon : isSpace ':' = false := rfl
  have hcomma : isSpace ',' = false := rfl
  rw [quoted, List.cons_append, List.append_assoc, List.singleton_append, fields,
    stringBody_of_spelled hname]
  simp only [Option.bind_eq_bind, Option.bind_some, skipSpace_cons hcolon, skipSpace_cons hcomma, h,
    hmore]

/-- No space comes before a value. -/
theorem skipSpace_compact (h : content.WellSpelled) (rest : List Char) :
    skipSpace (content.compact ++ rest) = content.compact ++ rest := by
  obtain ⟨c, more, hc, hspace, -⟩ := h.exists_cons
  rw [hc, List.cons_append, skipSpace_cons hspace]

theorem fields_succ (ih : ReadsBack bound) (ne : record ≠ [])
    (hnames : ∀ field ∈ record, ∃ text, Spelled field.1 text)
    (h : ∀ field ∈ record, WellSpelled field.2)
    (hlen : (compactFields record).length ≤ bound + 1) (rest : List Char) :
    fields (bound + 1) (compactFields record ++ rest) = some (record, rest) := by
  obtain ⟨⟨name, item⟩, more, rfl⟩ := List.exists_cons_of_ne_nil ne
  obtain ⟨⟨text, hname⟩, hnames⟩ := List.forall_mem_cons.mp hnames
  obtain ⟨hitem, hmore⟩ := List.forall_mem_cons.mp h
  cases more with
  | nil =>
    have hlen : item.compact.length ≤ bound := by
      simp only [compactFields, List.length_append, List.length_cons] at hlen
      omega
    rw [compactFields, List.append_assoc, List.cons_append, List.append_assoc]
    refine fields_of_last hname ?_
    rw [skipSpace_compact hitem]
    exact ih.ofValue item _ hitem hlen (endsValue_cons.mpr (by simp))
  | cons next more =>
    have ne := List.cons_ne_nil next more
    simp only [compactFields, List.length_append, List.length_cons] at hlen
    have hvalue := ih.ofValue item (',' :: (compactFields (next :: more) ++ rest)) hitem (by omega)
      (endsValue_cons.mpr (by simp))
    have hfields := ih.ofFields _ rest ne hnames hmore (by omega)
    obtain ⟨tail, hc⟩ := exists_cons_of_compactFields ne
    have hskip : skipSpace (compactFields (next :: more) ++ rest) =
        compactFields (next :: more) ++ rest := by
      rw [hc, List.cons_append, skipSpace_cons rfl]
    rw [← skipSpace_compact hitem] at hvalue
    rw [← hskip] at hfields
    rw [compactFields, List.append_assoc, List.cons_append, List.append_assoc, List.cons_append]
    exact fields_of_more hname hvalue hfields

/-- **As many steps as there are characters are enough.** -/
theorem readsBack (bound : Nat) : ReadsBack bound := by
  induction bound with
  | zero =>
    refine ⟨fun content rest h hlen _ => ?_, fun list rest ne h hlen => ?_,
      fun record rest ne _ _ hlen => ?_⟩
    · obtain ⟨c, more, hc, -⟩ := h.exists_cons
      rw [hc] at hlen
      cases hlen
    · obtain ⟨c, more, hc, -⟩ := exists_cons_of_compactItems ne h
      rw [hc] at hlen
      cases hlen
    · obtain ⟨more, hc⟩ := exists_cons_of_compactFields ne
      rw [hc] at hlen
      cases hlen
  | succ bound ih =>
    exact ⟨fun _ _ h hlen hrest => value_succ ih h hlen hrest,
      fun _ rest ne h hlen => items_succ ih ne h hlen rest,
      fun _ rest ne hnames h hlen => fields_succ ih ne hnames h hlen rest⟩

/-- **A well-spelled value is read back from its text.** -/
theorem parse?_compact (h : content.WellSpelled) : parse? content.compact = some content := by
  obtain ⟨c, more, hc, hspace, -⟩ := h.exists_cons
  have hvalue := (readsBack (content.compact.length + 1)).ofValue content [] h (Nat.le_succ _)
    (by simp [EndsValue])
  have hskip : skipSpace content.compact = content.compact := by rw [hc, skipSpace_cons hspace]
  rw [List.append_nil] at hvalue
  rw [parse?, hskip, hvalue]
  rfl

end CatalogGuard.Json
