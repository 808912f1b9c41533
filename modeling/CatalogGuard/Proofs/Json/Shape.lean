import CatalogGuard.Json.Shape
import CatalogGuard.Proofs.Json.RoundTrip

/-!
# Texts and records in JSON

A text is escaped character by character, so that its spelling is one of the grammar and decodes to
the text.  The names of a record's fields are such texts; as they are different, each field is found
under its name, and no other is.

## Main results

* `wellSpelled_ofText`, `wellSpelled_record` — what is made of texts is well spelled
* `text?_ofText`, `variant?_ofText` — a text is read back
* `fields?_record` — so are the fields of a record
-/

namespace CatalogGuard.Json

open Text.Quoted (Spelled decode_of_spelled escapeAll spelled_escapeAll)

variable {spelling decoded : List Char} {name : String} {content : Json}
  {fields : List (String × Json)}

/-! ### Texts -/

theorem decoded?_of_spelled (h : Spelled spelling decoded) :
    decoded? spelling = some (String.ofList decoded) := by
  have hbody : Text.Quoted.decodeBody (spelling ++ ['\x22']) = .ok (decoded, []) :=
    decode_of_spelled h []
  rw [decoded?, hbody]

theorem decoded?_escapeAll (text : String) : decoded? (escapeAll text.toList) = some text := by
  rw [decoded?_of_spelled (spelled_escapeAll _), String.ofList_toList]

theorem wellSpelled_ofText (text : String) : (ofText text).WellSpelled :=
  .string (spelled_escapeAll text.toList)

/-- A text is read back. -/
@[simp] theorem text?_ofText (text : String) : (ofText text).text? = some text :=
  decoded?_escapeAll text

/-- So is the name of a variant. -/
@[simp] theorem variant?_ofText (text : String) : variant? (ofText text) = some text :=
  decoded?_escapeAll text

/-! ### Records -/

theorem wellSpelled_record (h : ∀ field ∈ fields, field.2.WellSpelled) :
    (record fields).WellSpelled := by
  refine .object (List.forall_mem_map.mpr fun field _ => ?_) (List.forall_mem_map.mpr h)
  exact ⟨field.1.toList, spelled_escapeAll _⟩

/-- Under a name that is not repeated stands one value. -/
theorem valuesOf_of_mem (hdistinct : (fields.map Prod.fst).Nodup) (h : (name, content) ∈ fields) :
    valuesOf name fields = [content] := by
  obtain ⟨before, after, rfl⟩ := List.append_of_mem h
  rw [List.map_append, List.map_cons, List.nodup_append, List.nodup_cons] at hdistinct
  obtain ⟨-, ⟨hafter, -⟩, hbefore⟩ := hdistinct
  have hnone : ∀ {others : List (String × Json)}, name ∉ others.map Prod.fst →
      others.filter (fun field => field.1 == name) = [] := by
    intro others hfresh
    refine List.filter_eq_nil_iff.mpr fun field hmem heq => hfresh ?_
    exact eq_of_beq heq ▸ List.mem_map_of_mem hmem
  have hfresh : name ∉ before.map Prod.fst := fun hmem =>
    hbefore name hmem name List.mem_cons_self rfl
  simp [valuesOf, List.filter_append, hnone hfresh, hnone hafter]

/-- **The fields of a record are read back** if no two of them share a name. -/
theorem fields?_record {names : List String} (hdistinct : names.Nodup)
    (hnames : fields.map Prod.fst = names) :
    fields? names (record fields) = some (fields.map fun field => some field.2) := by
  obtain rfl := hnames
  refine Option.bind_eq_some_iff.mpr ⟨fields.map id, mapM_map_eq_some fun field _ => ?_,
    mapM_map_eq_some fun field hmem => ?_⟩
  · simp only [decoded?_escapeAll, Option.map_some, id_eq]
  · rw [List.map_id, valuesOf_of_mem hdistinct hmem]

end CatalogGuard.Json
