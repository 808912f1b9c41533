import CatalogGuard.Policy.OfKdl
import CatalogGuard.Proofs.Catalog.Places
import CatalogGuard.Proofs.Outcome

/-!
# What the properties of an entry come to

The items of an `entry` node are read one after the other, each changing what those before it have
left.  Three keys are fields of the entry and restrict the values they may be given; all others are
data and take any value.  Whether an item can be read does not depend on what has been read before,
so that the items of a node can be read exactly if each of them can be.

What they come to is said without an order of steps: of each key only the last value counts.
`Settles` says so relative to the entry at the beginning, so that items can be cut anywhere.

## Main definitions

* `Allowed` — a property may have a value
* `lastValue?` — the last value that items give a property
* `Settles` — items turn an entry into another

## Main results

* `exists_applyItems_iff` — items can be read exactly if their properties may have their values
* `settles_of_applyItems` — what they come to
-/

namespace CatalogGuard

theorem AccessLevel.ofText?_eq_some_iff {text : String} {level : AccessLevel} :
    AccessLevel.ofText? text = some level ↔ text = level.text := by
  constructor
  · intro h
    have hlevel : (level.text == text) = true :=
      List.find?_some (p := fun level : AccessLevel => level.text == text) h
    exact (beq_iff_eq.mp hlevel).symm
  · rintro rfl
    cases level <;> rfl

/-- A property that is taken out has no value, and all others have the value they had. -/
theorem Properties.lookup_filter_ne (properties : Properties) (name other : String) :
    (properties.filter fun property => property.1 != name).lookup other =
      if other = name then none else properties.lookup other := by
  induction properties with
  | nil => exact (ite_self _).symm
  | cons property properties ih =>
    by_cases hp : property.1 = name
    · rw [List.filter_cons_of_neg (by simpa using hp), ih, List.lookup_cons]
      by_cases ho : other = name
      · rw [if_pos ho, if_pos ho]
      · have hne : (other == property.1) = false := by simpa [hp] using ho
        rw [if_neg ho, if_neg ho, hne]
    · rw [List.filter_cons_of_pos (by simpa using hp), List.lookup_cons, List.lookup_cons, ih]
      by_cases ho : other = name
      · have hne : (other == property.1) = false := by simpa [ho] using Ne.symm hp
        rw [if_pos ho, if_pos ho, hne]
      · rw [if_neg ho, if_neg ho]

/-- A property that is set has its new value, and all others have the value they had. -/
theorem Properties.lookup_set (properties : Properties) (name : String) (value : PropertyValue)
    (other : String) :
    (properties.set name value).lookup other =
      if other = name then some value else properties.lookup other := by
  rw [Properties.set, List.lookup_append, lookup_filter_ne]
  by_cases ho : other = name
  · rw [if_pos ho, if_pos ho, ho, List.lookup_cons_self, Option.none_or]
  · have hne : (other == name) = false := by simpa using ho
    rw [if_neg ho, if_neg ho, List.lookup_cons, hne, List.lookup_nil, Option.or_none]

namespace Policy

open Catalog (IsPart)
open Kdl (Value)

variable {entry entry' : Entry} {items : List Kdl.Item} {key : String} {value : Value}

theorem isSegment_iff {text : String} : isSegment text = true ↔ IsPart text := by
  simp [isSegment, IsPart]

/-! ### Single properties -/

/-- The keys that stand for fields of an entry; what other keys are given is data. -/
def fieldKeys : List String := ["access", "draft", "link"]

theorem notMem_fieldKeys : key ∉ fieldKeys ↔ key ≠ "access" ∧ key ≠ "draft" ∧ key ≠ "link" := by
  simp [fieldKeys]

/-- A property of an entry may have a value. -/
structure Allowed (key : String) (value : Value) : Prop where
  /-- The access level is one of the four. -/
  access : key = "access" → ∃ level : AccessLevel, value = .string level.text
  /-- The draft mark is a truth value. -/
  draft : key = "draft" → ∃ draft, value = .bool draft
  /-- The link can stand between the slashes of a path. -/
  link : key = "link" → ∃ link, value = .string link ∧ IsPart link

/-- The last value that items give a property. -/
def lastValue? (items : List Kdl.Item) (key : String) : Option Value :=
  ((items.filter fun item => item.key? == some key).map Kdl.Item.value).getLast?

theorem lastValue?_append (items more : List Kdl.Item) (key : String) :
    lastValue? (items ++ more) key = (lastValue? more key).or (lastValue? items key) := by
  rw [lastValue?, List.filter_append, List.map_append, List.getLast?_append]
  rfl

theorem lastValue?_property (key : String) (value : Value) (other : String) :
    lastValue? [⟨some key, value⟩] other = if other = key then some value else none := by
  by_cases h : other = key
  · simp [lastValue?, h]
  · simp [lastValue?, h, Ne.symm h]

/-- Items turn an entry into another: of each property the last value counts, and what is given no
value stays as it is. -/
structure Settles (items : List Kdl.Item) (entry entry' : Entry) : Prop where
  /-- The name stays. -/
  name : entry'.name = entry.name
  /-- The authors stay. -/
  authors : entry'.authors = entry.authors
  /-- The access level is the last one given. -/
  access : (lastValue? items "access").getD (.string entry.access.text) =
    .string entry'.access.text
  /-- So is the draft mark. -/
  draft : (lastValue? items "draft").getD (.bool entry.draft) = .bool entry'.draft
  /-- So is the link. -/
  link : (lastValue? items "link").getD (.string entry.link) = .string entry'.link
  /-- All other properties are data. -/
  property : ∀ key, entry'.property key =
    if key ∈ fieldKeys then entry.property key
    else ((lastValue? items key).map propertyValue).or (entry.property key)

theorem Settles.refl (entry : Entry) : Settles [] entry entry where
  name := rfl
  authors := rfl
  access := rfl
  draft := rfl
  link := rfl
  property _ := (ite_self _).symm

theorem Settles.trans {more : List Kdl.Item} {entry'' : Entry} (h : Settles items entry entry')
    (h' : Settles more entry' entry'') : Settles (items ++ more) entry entry'' where
  name := h'.name.trans h.name
  authors := h'.authors.trans h.authors
  access := by rw [lastValue?_append, Option.getD_or, h.access, h'.access]
  draft := by rw [lastValue?_append, Option.getD_or, h.draft, h'.draft]
  link := by rw [lastValue?_append, Option.getD_or, h.link, h'.link]
  property key := by
    rw [h'.property, h.property, lastValue?_append]
    split
    · rfl
    · rw [Option.map_or, Option.or_assoc]

/-- What reading a property can do. -/
theorem applyProperty_eq_ok_iff : applyProperty entry key value = .ok entry' ↔
    (key = "access" ∧
      ∃ level : AccessLevel, value = .string level.text ∧ entry' = { entry with access := level }) ∨
    (key = "draft" ∧ ∃ draft, value = .bool draft ∧ entry' = { entry with draft }) ∨
    (key = "link" ∧ ∃ link, value = .string link ∧ IsPart link ∧ entry' = { entry with link }) ∨
    (key ∉ fieldKeys ∧
      entry' = { entry with data := entry.data.set key (propertyValue value) }) := by
  constructor
  · intro h
    unfold applyProperty at h
    split at h
    · next haccess =>
      split at h
      · split at h
        · next level hlevel =>
          obtain rfl := AccessLevel.ofText?_eq_some_iff.mp hlevel
          exact Or.inl ⟨haccess, level, rfl, (Except.ok.inj h).symm⟩
        · cases h
      · cases h
    split at h
    · next hdraft =>
      split at h
      · exact Or.inr (Or.inl ⟨hdraft, _, rfl, (Except.ok.inj h).symm⟩)
      · cases h
    split at h
    · next hlink =>
      split at h
      · split at h
        · next hsegment =>
          exact Or.inr (Or.inr (Or.inl ⟨hlink, _, rfl, isSegment_iff.mp hsegment,
            (Except.ok.inj h).symm⟩))
        · cases h
      · cases h
    · next haccess hdraft hlink =>
      exact Or.inr (Or.inr (Or.inr ⟨notMem_fieldKeys.mpr ⟨haccess, hdraft, hlink⟩,
        (Except.ok.inj h).symm⟩))
  · rintro (⟨rfl, level, rfl, rfl⟩ | ⟨rfl, draft, rfl, rfl⟩ | ⟨rfl, link, rfl, hlink, rfl⟩ |
      ⟨hkey, rfl⟩)
    · have hlevel := AccessLevel.ofText?_eq_some_iff.mpr (Eq.refl level.text)
      simp only [applyProperty, if_true, hlevel]
    · rfl
    · exact if_pos (isSegment_iff.mpr hlink)
    · obtain ⟨haccess, hdraft, hlink⟩ := notMem_fieldKeys.mp hkey
      unfold applyProperty
      rw [if_neg haccess, if_neg hdraft, if_neg hlink]

/-- A property can be read exactly if it may have its value. -/
theorem exists_applyProperty_iff :
    (∃ entry', applyProperty entry key value = .ok entry') ↔ Allowed key value := by
  simp only [applyProperty_eq_ok_iff]
  constructor
  · rintro ⟨entry', ⟨rfl, level, rfl, -⟩ | ⟨rfl, draft, rfl, -⟩ | ⟨rfl, link, rfl, hlink, -⟩ |
      ⟨hkey, -⟩⟩
    · exact ⟨fun _ => ⟨level, rfl⟩, by simp, by simp⟩
    · exact ⟨by simp, fun _ => ⟨draft, rfl⟩, by simp⟩
    · exact ⟨by simp, by simp, fun _ => ⟨link, rfl, hlink⟩⟩
    · obtain ⟨haccess, hdraft, hlink⟩ := notMem_fieldKeys.mp hkey
      exact ⟨fun h => absurd h haccess, fun h => absurd h hdraft, fun h => absurd h hlink⟩
  · intro h
    by_cases haccess : key = "access"
    · obtain ⟨level, hlevel⟩ := h.access haccess
      exact ⟨_, Or.inl ⟨haccess, level, hlevel, rfl⟩⟩
    by_cases hdraft : key = "draft"
    · obtain ⟨draft, hvalue⟩ := h.draft hdraft
      exact ⟨_, Or.inr (Or.inl ⟨hdraft, draft, hvalue, rfl⟩)⟩
    by_cases hlink : key = "link"
    · obtain ⟨link, hvalue, hpart⟩ := h.link hlink
      exact ⟨_, Or.inr (Or.inr (Or.inl ⟨hlink, link, hvalue, hpart, rfl⟩))⟩
    · exact ⟨_, Or.inr (Or.inr (Or.inr ⟨notMem_fieldKeys.mpr ⟨haccess, hdraft, hlink⟩, rfl⟩))⟩

/-- What is read of a property is its value. -/
theorem settles_of_applyProperty (h : applyProperty entry key value = .ok entry') :
    Settles [⟨some key, value⟩] entry entry' := by
  -- a field leaves the data alone
  have hfield : key ∈ fieldKeys → ∀ other, entry.property other =
      if other ∈ fieldKeys then entry.property other
      else ((lastValue? [⟨some key, value⟩] other).map propertyValue).or
        (entry.property other) := by
    intro hkey other
    split
    · rfl
    · next hother =>
      have hne : other ≠ key := fun he => hother (he ▸ hkey)
      rw [lastValue?_property, if_neg hne]
      rfl
  rcases applyProperty_eq_ok_iff.mp h with ⟨rfl, level, rfl, rfl⟩ | ⟨rfl, draft, rfl, rfl⟩ |
    ⟨rfl, link, rfl, hlink, rfl⟩ | ⟨hkey, rfl⟩
  · exact ⟨rfl, rfl, rfl, rfl, rfl, hfield (by simp [fieldKeys])⟩
  · exact ⟨rfl, rfl, rfl, rfl, rfl, hfield (by simp [fieldKeys])⟩
  · exact ⟨rfl, rfl, rfl, rfl, rfl, hfield (by simp [fieldKeys])⟩
  · -- and data leave the fields alone
    have hne : ∀ field ∈ fieldKeys, lastValue? [⟨some key, value⟩] field = none := by
      intro field hmem
      rw [lastValue?_property, if_neg fun he : field = key => hkey (he ▸ hmem)]
    refine ⟨rfl, rfl, ?_, ?_, ?_, fun other => ?_⟩
    · rw [hne "access" (by simp [fieldKeys])]
      rfl
    · rw [hne "draft" (by simp [fieldKeys])]
      rfl
    · rw [hne "link" (by simp [fieldKeys])]
      rfl
    · rw [lastValue?_property, Entry.property, Properties.lookup_set]
      by_cases ho : other = key
      · rw [if_pos ho, if_neg (ho ▸ hkey), if_pos ho]
        rfl
      · rw [if_neg ho, if_neg ho]
        exact (ite_self _).symm

/-! ### All items of an entry -/

theorem exists_applyItem_iff {item : Kdl.Item} :
    (∃ entry', applyItem entry item = .ok entry') ↔
      ∀ key, item.key? = some key → Allowed key item.value := by
  rw [applyItem]
  cases item.key? with
  | none => simp
  | some key => simp [exists_applyProperty_iff]

theorem settles_of_applyItem {item : Kdl.Item} (h : applyItem entry item = .ok entry') :
    Settles [item] entry entry' := by
  rcases item with ⟨_ | key, value⟩
  · -- an argument
    obtain rfl := Except.ok.inj h
    exact ⟨rfl, rfl, rfl, rfl, rfl, fun _ => (ite_self _).symm⟩
  · exact settles_of_applyProperty h

/-- **Items can be read exactly if their properties may have their values.** -/
theorem exists_applyItems_iff :
    (∃ entry', items.foldlM applyItem entry = .ok entry') ↔
      ∀ item ∈ items, ∀ key, item.key? = some key → Allowed key item.value := by
  refine exists_foldlM_eq_ok_iff ?_
  intro entry item
  exact exists_applyItem_iff

/-- **What items come to**: of each property, its last value. -/
theorem settles_of_applyItems (h : items.foldlM applyItem entry = .ok entry') :
    Settles items entry entry' := by
  induction items generalizing entry with
  | nil => exact Except.ok.inj h ▸ .refl entry
  | cons item items ih =>
    obtain ⟨next, hnext, hrest⟩ := bind_eq_ok_iff.mp h
    exact (settles_of_applyItem hnext).trans (ih hrest)

end Policy

end CatalogGuard
