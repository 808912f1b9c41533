import CatalogGuard.Catalog.Position
import Mathlib.Data.List.Nodup

/-!
# Locating entries by name

A path names one entry after the other, and each name picks the first child it fits.  The catalog
itself matters only for the first of these steps: the branch picked there holds all that the others
look at.  So a catalog with more branches locates the same entries as long as no two of its branches
share a name.

The position of the root holds the whole catalog.  Positions in two catalogs are therefore compared
by the entries on the way, which is all that checks, rules and links ask about.

## Main results

* `find?_name_eq_some_iff` — among branches of distinct names, a name picks the one that has it
* `Catalog.locate?_of_subset` — more branches move no entry
-/

namespace CatalogGuard

variable {catalog catalog' : Catalog} {branches : List Branch} {branch : Branch}
  {name path : String} {position : Position}

/-- Among branches of distinct names, a name picks the one that has it. -/
theorem Branch.find?_name_eq_some_iff (h : (branches.map Branch.name).Nodup) :
    branches.find? (fun branch => branch.name == name) = some branch ↔
      branch ∈ branches ∧ branch.name = name := by
  constructor
  · intro hf
    exact ⟨List.mem_of_find?_eq_some hf, by simpa using List.find?_some hf⟩
  · rintro ⟨hmem, rfl⟩
    cases hf : branches.find? (fun other => other.name == branch.name) with
    | none =>
      exact absurd (beq_self_eq_true branch.name) (List.find?_eq_none.mp hf branch hmem)
    | some other =>
      have hname : other.name = branch.name := by simpa using List.find?_some hf
      rw [List.inj_on_of_nodup_map h (List.mem_of_find?_eq_some hf) hmem hname]

namespace Catalog

/-- The first name on a path picks a branch of the catalog. -/
theorem child?_top (catalog : Catalog) (name : String) :
    catalog.top.child? name =
      (catalog.branches.find? fun branch => branch.name == name).map fun branch =>
        ⟨[.root], branch⟩ := rfl

/-- **More branches move no entry.**  Where a catalog has all branches of another one and no two of
the same name, a path that leads somewhere in the other leads along the same entries. -/
theorem locate?_of_subset (hsub : ∀ branch ∈ catalog.branches, branch ∈ catalog'.branches)
    (hnodup : (catalog'.branches.map Branch.name).Nodup)
    (h : catalog.locate? path = some position) :
    ∃ position', catalog'.locate? path = some position' ∧ position'.path = position.path := by
  rw [locate?, Position.descend?] at h
  rw [locate?, Position.descend?]
  cases hnames : namesIn path with
  | nil =>
    rw [hnames] at h
    obtain rfl := Option.some.inj h
    exact ⟨catalog'.top, rfl, rfl⟩
  | cons name names =>
    rw [hnames, List.foldlM_cons, Option.bind_eq_bind, child?_top] at h
    obtain ⟨_, hfirst, hrest⟩ := Option.bind_eq_some_iff.mp h
    obtain ⟨branch, hf, rfl⟩ := Option.map_eq_some_iff.mp hfirst
    have hname : branch.name = name := by simpa using List.find?_some hf
    have hmem := hsub branch (List.mem_of_find?_eq_some hf)
    have hf' := (Branch.find?_name_eq_some_iff hnodup).mpr ⟨hmem, hname⟩
    refine ⟨position, ?_, rfl⟩
    rw [List.foldlM_cons, child?_top, hf']
    exact hrest

end Catalog

end CatalogGuard
