/-!
# Named values in their order

A table is a list of names with values.  A name gets a value in its old place if it has one, and
behind the others if it has none, so that no name is given twice.
-/

namespace CatalogGuard

/-- Gives a field a value, in its old place if there is one. -/
def setField {α : Type} (fields : List (String × α)) (name : String) (value : α) :
    List (String × α) :=
  match fields with
  | [] => [(name, value)]
  | field :: rest =>
    if field.1 = name then (name, value) :: rest else field :: setField rest name value

theorem lookup_setField_self {α : Type} (fields : List (String × α)) (name : String) (value : α) :
    (setField fields name value).lookup name = some value := by
  induction fields with
  | nil => simp [setField]
  | cons field rest ih =>
    by_cases h : field.1 = name
    · simp [setField, h]
    · have h' : (name == field.1) = false := by simpa using Ne.symm h
      simp only [setField, h, if_false]
      rw [List.lookup_cons, h']
      exact ih

theorem lookup_setField_of_ne {α : Type} {name other : String} (h : other ≠ name)
    (fields : List (String × α)) (value : α) :
    (setField fields name value).lookup other = fields.lookup other := by
  have h' : (other == name) = false := by simpa using h
  induction fields with
  | nil => simp [setField, List.lookup_cons, h']
  | cons field rest ih =>
    obtain ⟨n, v⟩ := field
    by_cases hf : n = name
    · subst hf
      simp [setField, List.lookup_cons, h']
    · simp only [setField, hf, if_false, List.lookup_cons, ih]

end CatalogGuard
