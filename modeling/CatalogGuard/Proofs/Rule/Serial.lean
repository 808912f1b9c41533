import CatalogGuard.Proofs.Json.Shape
import CatalogGuard.Proofs.Outcome
import CatalogGuard.Proofs.Rule.RoundTrip
import CatalogGuard.Rule.Serial

/-!
# Rules read back from data

As data a rule loses what the grammar of rules asks of it: a name may be empty or hold a slash, and
the name of a property may be anything.  It also loses the kinds of its parts.  A pattern is written
as its text, and is read back because its text says of which kind it is; the value of a filter is
written as the plain value, and is read back because values of different kinds are of different
shapes, once no number is written as `null`.

That the digits of a number are worth the number is another matter: they are multiplied by a power
of ten after they have been rounded.  For the numbers in a rule it is a hypothesis here.

## Main definitions

* `Rule.Portable` — a rule that data has a form for
* `PropertyValue.ReadsBack` — the value is no number, or its digits are read as that number

## Main results

* `PropertyValue.ofJson?_toJson`, `EntryPattern.ofJson?_toJson`, `Rule.ofJson?_toJson` — parts of a
  rule, and then rules, are read back from JSON values
* `Rule.wellSpelled_toJson` — such values are read back from texts
* `Rule.ofJson?_toCompact` — so rules are read back from their texts
-/

namespace CatalogGuard

open Json (WellSpelled fields?_record optional? wellSpelled_ofText wellSpelled_record)

variable {α : Type} {read : Json → Option α} {write : α → Json} {found : Option α} {x : Float}
  {value : PropertyValue} {filter : PropertyFilter} {pattern : EntryPattern} {query : Query}
  {rule : Rule}

/-- A pattern that data has a form for. -/
structure EntryPattern.Portable (pattern : EntryPattern) : Prop where
  /-- Its name is what some text stands for. -/
  classified : pattern.name.Classified
  /-- Its number is finite. -/
  finite : ∀ filter ∈ pattern.filter, filter.value.Finite

/-- A rule that data has a form for. -/
structure Rule.Portable (rule : Rule) : Prop where
  /-- Its patterns are. -/
  query : ∀ pattern ∈ rule.query, pattern.Portable
  /-- It opens at a whole minute of a year with four digits. -/
  opens : ∀ t ∈ rule.opens, t.Legible
  /-- So it closes. -/
  closes : ∀ t ∈ rule.closes, t.Legible

/-- The digits that are written for a number are worth that number. -/
def PropertyValue.ReadsBack : PropertyValue → Prop
  | .number x =>
    ∀ spelling, Number.serialized? x = some spelling → Json.numberValue? spelling = some x
  | _ => True

/-! ### Spellings -/

theorem PropertyValue.wellSpelled_toJson (value : PropertyValue) : value.toJson.WellSpelled := by
  cases value with
  | string text => exact wellSpelled_ofText text
  | number x =>
    rw [toJson]
    split
    · next hserialized => exact .number (Json.numberText_serialized hserialized)
    · exact .null
  | bool truth => exact .bool truth
  | null => exact .null

theorem wellSpelled_ofOption (h : ∀ a ∈ found, (write a).WellSpelled) :
    (Json.ofOption write found).WellSpelled := by
  cases found with
  | none => exact .null
  | some a => exact h a rfl

theorem PropertyFilter.wellSpelled_toJson (filter : PropertyFilter) :
    filter.toJson.WellSpelled := by
  have hvalue := filter.value.wellSpelled_toJson
  exact wellSpelled_record (by simp [Comparison.toJson, wellSpelled_ofText, hvalue])

theorem EntryPattern.wellSpelled_toJson (pattern : EntryPattern) : pattern.toJson.WellSpelled := by
  have hfilter : (Json.ofOption PropertyFilter.toJson pattern.filter).WellSpelled :=
    wellSpelled_ofOption fun filter _ => filter.wellSpelled_toJson
  exact wellSpelled_record (by simp [wellSpelled_ofText, hfilter])

/-- **What is written for a rule is well spelled.** -/
theorem Rule.wellSpelled_toJson (rule : Rule) : rule.toJson.WellSpelled := by
  have hquery : (Query.toJson rule.query).WellSpelled :=
    .array (List.forall_mem_map.mpr fun pattern _ => pattern.wellSpelled_toJson)
  have hbound : ∀ found : Option Instant, (Json.ofOption Instant.toJson found).WellSpelled :=
    fun found => wellSpelled_ofOption fun t _ => wellSpelled_ofText _
  exact wellSpelled_record (by simp [hquery, hbound])

/-! ### Values -/

theorem exists_serialized (h : x.isFinite = true) :
    ∃ spelling, Number.serialized? x = some spelling := by
  obtain ⟨hnan, hinf⟩ := Number.Binary64.isFinite_iff_not_special.mp h
  have hspecial : ¬(x.isNaN || x.isInf) = true := fun h => (Bool.or_eq_true_iff.mp h).elim hnan hinf
  rw [Number.serialized?, if_neg hspecial]
  dsimp only
  split
  · exact ⟨_, rfl⟩
  · split
    · exact ⟨_, rfl⟩
    · exact ⟨_, rfl⟩

/-- **The kind of a value is found again**, and the value with it. -/
theorem PropertyValue.ofJson?_toJson (hfinite : value.Finite) (hread : value.ReadsBack) :
    ofJson? value.toJson = some value := by
  cases value with
  | string text => exact congrArg (Option.map PropertyValue.string) (Json.decoded?_escapeAll text)
  | number x =>
    obtain ⟨spelling, hspelling⟩ := exists_serialized hfinite
    rw [toJson, hspelling, ofJson?, hread spelling hspelling]
    rfl
  | bool truth => rfl
  | null => rfl

theorem Comparison.ofJson?_toJson (comparison : Comparison) :
    ofJson? comparison.toJson = some comparison := by
  have hsign : ofSign? comparison.sign = some comparison := by
    cases comparison <;> decide
  rw [ofJson?, toJson, Json.variant?_ofText, Option.bind_some, hsign]

/-- What may be missing is read back: it is `null` only if it is missing. -/
theorem optional?_ofOption (h : ∀ a ∈ found, read (write a) = some a)
    (hnull : ∀ a ∈ found, write a ≠ .null) :
    optional? read (some (Json.ofOption write found)) = some found := by
  cases found with
  | none => rfl
  | some a =>
    rw [Json.ofOption, optional?, h a rfl]
    · rfl
    · exact hnull a rfl

/-! ### Patterns and rules -/

theorem PropertyFilter.ofJson?_toJson (hfinite : filter.value.Finite)
    (hread : filter.value.ReadsBack) : ofJson? filter.toJson = some filter := by
  have hfields : Json.fields? ["name", "op", "value"] filter.toJson =
      some [some (.ofText filter.name), some filter.comparison.toJson, some filter.value.toJson] :=
    fields?_record (by decide) rfl
  simp only [ofJson?, hfields, Option.bind_eq_bind, Option.bind_some, Json.text?_ofText,
    Comparison.ofJson?_toJson, PropertyValue.ofJson?_toJson hfinite hread]

/-- **The kind of a name is found again**, and the pattern with it. -/
theorem EntryPattern.ofJson?_toJson (h : pattern.Portable)
    (hread : ∀ filter ∈ pattern.filter, filter.value.ReadsBack) :
    ofJson? pattern.toJson = some pattern := by
  have hfields : Json.fields? ["name", "filter"] pattern.toJson =
      some [some (.ofText pattern.name.text),
        some (.ofOption PropertyFilter.toJson pattern.filter)] :=
    fields?_record (by decide) rfl
  have hfilter := optional?_ofOption (fun filter hf =>
    PropertyFilter.ofJson?_toJson (h.finite filter hf) (hread filter hf)) fun filter _ hnull => by
      cases hnull
  simp only [ofJson?, hfields, Option.bind_eq_bind, Option.bind_some, Json.text?_ofText, hfilter,
    NamePattern.ofText_text h.classified]

theorem Query.ofJson?_toJson (h : ∀ pattern ∈ query, pattern.Portable)
    (hread : ∀ pattern ∈ query, ∀ filter ∈ pattern.filter, filter.value.ReadsBack) :
    Query.ofJson? (Query.toJson query) = some query := by
  have hpatterns := mapM_map_eq_some fun pattern hmem =>
    EntryPattern.ofJson?_toJson (h pattern hmem) (hread pattern hmem)
  rwa [List.map_id'] at hpatterns

theorem Instant.ofJson?_toJson {t : Instant} (h : t.Legible) : ofJson? t.toJson = some t := by
  rw [ofJson?, toJson, Json.text?_ofText]
  simp only [Option.bind_eq_bind, Option.bind_some, String.toList_ofList, ofSeconds_toSeconds h]

theorem optional?_bound {found : Option Instant} (h : ∀ t ∈ found, t.Legible) :
    optional? Instant.ofJson? (some (Json.ofOption Instant.toJson found)) = some found :=
  optional?_ofOption (fun t ht => Instant.ofJson?_toJson (h t ht)) fun t _ hnull => by cases hnull

theorem Rule.ofJson?_toJson (h : rule.Portable)
    (hread : ∀ pattern ∈ rule.query, ∀ filter ∈ pattern.filter, filter.value.ReadsBack) :
    ofJson? rule.toJson = some rule := by
  have hfields : Json.fields? ["query", "after", "until"] rule.toJson =
      some [some (Query.toJson rule.query), some (.ofOption Instant.toJson rule.opens),
        some (.ofOption Instant.toJson rule.closes)] :=
    fields?_record (by decide) rfl
  simp only [ofJson?, hfields, Option.bind_eq_bind, Option.bind_some,
    Query.ofJson?_toJson h.query hread, optional?_bound h.opens, optional?_bound h.closes]

/-- A rule equals itself unless a number in it is NaN. -/
theorem Rule.beq_self_of_portable (h : rule.Portable) : (rule == rule) = true :=
  Rule.beq_iff.mpr
    ⟨Query.beq_self_of_finite fun pattern hmem => (h.query pattern hmem).finite, rfl, rfl⟩

/-- **Rules are read back from data.**  Let a rule hold patterns that some texts stand for, finite
numbers, and bounds at whole minutes of years with four digits; its names, the names of its
properties and its texts may be any.  If the digits of its numbers are read as these numbers, the
rule is read back from its compact text, and it equals itself. -/
theorem Rule.ofJson?_toCompact (rule : Rule) (h : rule.Portable)
    (hread : ∀ pattern ∈ rule.query, ∀ filter ∈ pattern.filter, filter.value.ReadsBack) :
    (Json.parse? rule.toJson.toCompact.toList).bind ofJson? = some rule ∧
      (rule == rule) = true := by
  rw [Json.toCompact, String.toList_ofList, Json.parse?_compact rule.wellSpelled_toJson]
  exact ⟨Rule.ofJson?_toJson h hread, beq_self_of_portable h⟩

/-- What a number is read back as can be found out by evaluation. -/
theorem PropertyValue.readsBack_of_eval {bits : UInt64} {spelling : List Char}
    (hwrite : Number.serialized? (.ofBits bits) = some spelling)
    (hread : (Json.numberValue? spelling).map Float.toBits = some bits) :
    (PropertyValue.number (.ofBits bits)).ReadsBack := by
  rintro spelling' hspelling
  obtain rfl := Option.some.inj (hwrite.symm.trans hspelling)
  obtain ⟨x, hx, rfl⟩ := Option.map_eq_some_iff.mp hread
  rw [hx, Number.Binary64.ofBits_toBits]

/-- A rule that no text stands for: an empty name, a name with a slash, and a property with a quote.
Its number is two and a half. -/
def foreignRule : Rule where
  query := [⟨.ofText "", some ⟨"a\"b", .less, .number (.ofBits 0x4004000000000000)⟩⟩,
    ⟨.ofText "x/y*", some ⟨"", .equal, .null⟩⟩]
  opens := some ⟨⟨999, 12, 31, 23, 59, 0, 0⟩, by decide⟩
  closes := none

/-- It is read back all the same. -/
theorem foreignRule_read_back : foreignRule.Portable ∧
    (∀ pattern ∈ foreignRule.query, ∀ filter ∈ pattern.filter, filter.value.ReadsBack) ∧
    (Json.parse? foreignRule.toJson.toCompact.toList).bind Rule.ofJson? = some foreignRule := by
  have hfinite : (Float.ofBits 0x4004000000000000).isFinite = true := by decide
  have hnumber : (PropertyValue.number (.ofBits 0x4004000000000000)).ReadsBack :=
    PropertyValue.readsBack_of_eval (show _ = some ['2', '.', '5'] by decide) (by decide)
  have hportable : foreignRule.Portable := by
    refine ⟨List.forall_mem_cons.mpr ⟨⟨⟨"", rfl⟩, ?_⟩,
      List.forall_mem_singleton.mpr ⟨⟨"x/y*", rfl⟩, ?_⟩⟩, ?_, fun t ht => by cases ht⟩
    · rintro filter hf
      obtain rfl := Option.some.inj hf
      exact hfinite
    · rintro filter hf
      obtain rfl := Option.some.inj hf
      exact trivial
    · rintro t ht
      obtain rfl := Option.some.inj ht
      exact ⟨by decide, by decide, rfl, rfl⟩
  have hread : ∀ pattern ∈ foreignRule.query, ∀ filter ∈ pattern.filter,
      filter.value.ReadsBack := by
    refine List.forall_mem_cons.mpr ⟨?_, List.forall_mem_singleton.mpr ?_⟩
    · rintro filter hf
      obtain rfl := Option.some.inj hf
      exact hnumber
    · rintro filter hf
      obtain rfl := Option.some.inj hf
      exact trivial
  exact ⟨hportable, hread, (Rule.ofJson?_toCompact foreignRule hportable hread).1⟩

end CatalogGuard
