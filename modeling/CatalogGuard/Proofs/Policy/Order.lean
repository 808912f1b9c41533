import CatalogGuard.Proofs.Policy.Growth
import CatalogGuard.Proofs.Policy.Listing

/-!
# The order of fragments

The fragments of a policy may be put together in any order.  What changes with the order is the
order of things: that of the branches below the root, of the claims of a login, whose automaton gets
other states in consequence, and of the rules.

None of it shows.  Either order is a growth of the other one, so that reasons carry over in both
directions, and a list of branches with distinct names is searched by name.  Only a listing follows
the order of the branches, as it has to.

## Main results

* `Catalog.positions_perm` — branches in another order have the same positions in another order
* `admits_of_perm` — at the same entries, checks agree
* `ofFragments_perm` — fragments in another order make the same policy, or none
-/

namespace CatalogGuard

/-- Branches in another order have the same positions in another order. -/
theorem Catalog.positions_perm {catalog catalog' : Catalog}
    (h : catalog.branches.Perm catalog'.branches) : catalog.positions.Perm catalog'.positions := by
  have hroot : ∀ c : Catalog, c.positions = c.branches.flatMap (Branch.positions [.root]) :=
    fun c => Branch.positionsAll_eq_flatMap _ _
  rw [hroot, hroot]
  exact h.flatMap_right _

namespace Policy

variable {fragments fragments' : List Fragment} {policy policy' : Policy}
  {position position' : Position} {path : String}

/-- Whether some name is repeated does not depend on the order. -/
theorem exists_ofFragments_of_perm (h : fragments.Perm fragments')
    (hp : ofFragments fragments = .ok policy) :
    ∃ policy', ofFragments fragments' = .ok policy' := by
  obtain ⟨hnone, -⟩ := ofFragments_eq_ok_iff.mp hp
  rw [firstRepeated?_eq_none_iff] at hnone
  have hnodup : ((fragments'.flatMap Fragment.entries).map Branch.name).Nodup :=
    ((h.flatMap_right _).map _).nodup_iff.mp hnone
  exact ⟨_, ofFragments_eq_ok_iff.mpr ⟨firstRepeated?_eq_none_iff.mpr hnodup, rfl⟩⟩

/-- The branches of two such policies are the same ones. -/
theorem branches_perm (h : fragments.Perm fragments') (hp : ofFragments fragments = .ok policy)
    (hp' : ofFragments fragments' = .ok policy') :
    policy.catalog.branches.Perm policy'.catalog.branches := by
  obtain ⟨-, rfl⟩ := ofFragments_eq_ok_iff.mp hp
  obtain ⟨-, rfl⟩ := ofFragments_eq_ok_iff.mp hp'
  exact h.flatMap_right _

/-- A path that leads somewhere leads along the same entries. -/
theorem locate?_of_perm (h : fragments.Perm fragments') (hp : ofFragments fragments = .ok policy)
    (hp' : ofFragments fragments' = .ok policy')
    (hl : policy.catalog.locate? path = some position) :
    ∃ position', policy'.catalog.locate? path = some position' ∧
      position'.path = position.path := by
  have hsub : policy.catalog.branches ⊆ policy'.catalog.branches :=
    (branches_perm h hp hp').subset
  refine Catalog.locate?_of_subset (fun branch hmem => hsub hmem) ?_ hl
  obtain ⟨hnone, rfl⟩ := ofFragments_eq_ok_iff.mp hp'
  exact firstRepeated?_eq_none_iff.mp hnone

/-- At positions with the same entries on the way, checks agree. -/
theorem admits_of_perm (h : fragments.Perm fragments') (hp : ofFragments fragments = .ok policy)
    (hp' : ofFragments fragments' = .ok policy') (hpath : position'.path = position.path)
    (login : Option String) (now : Instant) (coverage : Coverage) :
    policy'.admits (policy'.caller login) now coverage position' =
      policy.admits (policy.caller login) now coverage position :=
  Bool.eq_iff_iff.mpr
    ⟨(Supports.of_subset hp' hp h.symm.subset login).admits hpath.symm,
      (Supports.of_subset hp hp' h.subset login).admits hpath⟩

/-- What is listed for a login is the same, in another order. -/
theorem visible_perm (h : fragments.Perm fragments') (hp : ofFragments fragments = .ok policy)
    (hp' : ofFragments fragments' = .ok policy') (login : Option String) (now : Instant)
    (coverage : Coverage) :
    (policy.visible (policy.caller login) now coverage).Perm
      (policy'.visible (policy'.caller login) now coverage) := by
  have hadmits : policy'.admits (policy'.caller login) now coverage =
      policy.admits (policy.caller login) now coverage :=
    funext fun position => admits_of_perm h hp hp' rfl login now coverage
  rw [visible_eq_filter_positions, visible_eq_filter_positions, hadmits]
  exact ((Catalog.positions_perm (branches_perm h hp hp')).filter _).map _

/-- **The order of fragments does not matter.**  Fragments in another order make a policy exactly if
they do in the first one.  The same paths then lead somewhere and show the same links, every check
of a login comes out the same there, and the listings for a login hold the same links as often. -/
theorem ofFragments_perm (h : fragments.Perm fragments') :
    ((∃ policy, ofFragments fragments = .ok policy) ↔
        ∃ policy', ofFragments fragments' = .ok policy') ∧
      ∀ policy policy', ofFragments fragments = .ok policy →
        ofFragments fragments' = .ok policy' →
        (∀ path, (∃ position, policy.catalog.locate? path = some position) ↔
          ∃ position', policy'.catalog.locate? path = some position') ∧
        (∀ path position position', policy.catalog.locate? path = some position →
          policy'.catalog.locate? path = some position' →
          position'.linkPath = position.linkPath ∧ ∀ login now coverage,
            policy'.admits (policy'.caller login) now coverage position' =
              policy.admits (policy.caller login) now coverage position) ∧
        ∀ login now coverage, (policy.visible (policy.caller login) now coverage).Perm
          (policy'.visible (policy'.caller login) now coverage) := by
  refine ⟨⟨?_, ?_⟩, fun policy policy' hp hp' => ⟨fun path => ⟨?_, ?_⟩, ?_, ?_⟩⟩
  · exact fun ⟨_, hp⟩ => exists_ofFragments_of_perm h hp
  · exact fun ⟨_, hp'⟩ => exists_ofFragments_of_perm h.symm hp'
  · rintro ⟨position, hl⟩
    obtain ⟨position', hl', -⟩ := locate?_of_perm h hp hp' hl
    exact ⟨position', hl'⟩
  · rintro ⟨position', hl'⟩
    obtain ⟨position, hl, -⟩ := locate?_of_perm h.symm hp' hp hl'
    exact ⟨position, hl⟩
  · intro path position position' hl hl'
    obtain ⟨other, hother, hpath⟩ := locate?_of_perm h hp hp' hl
    obtain rfl := Option.some.inj (hl'.symm.trans hother)
    exact ⟨Position.linkPath_eq_of_path_eq hpath, admits_of_perm h hp hp' hpath⟩
  · exact visible_perm h hp hp'

/-- News, which stand beside the course of the sample fragments. -/
def sampleNews : Fragment := ⟨[.node (.named "news") []], [], [], []⟩

/-- The listing with the news at the end is that with the news in front, in another order. -/
theorem visible_perm_sampleNews :
    (sampleNews :: sampleFragments).Perm (sampleFragments ++ [sampleNews]) ∧
      ∃ policy policy', ofFragments (sampleNews :: sampleFragments) = .ok policy ∧
        ofFragments (sampleFragments ++ [sampleNews]) = .ok policy' ∧ ∀ now coverage,
          policy'.visible (policy'.caller (some "ann")) now coverage =
            ["/courses", "/courses/web", "/news"] ∧
          (policy.visible (policy.caller (some "ann")) now coverage).Perm
            ["/courses", "/courses/web", "/news"] := by
  have h : (sampleNews :: sampleFragments).Perm (sampleFragments ++ [sampleNews]) :=
    (List.perm_append_singleton _ _).symm
  refine ⟨h, _, _, rfl, rfl, fun now coverage => ⟨rfl, ?_⟩⟩
  exact ((ofFragments_perm h).2 _ _ rfl rfl).2.2 (some "ann") now coverage

end Policy

end CatalogGuard
