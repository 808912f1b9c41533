import CatalogGuard.Catalog.Position

/-!
# The positions of a catalog in order

All positions below a position, each before those below it and siblings in their order.  The list
is made by recursion on branches, but what it is can be said without them: `below_eq` enumerates
the children and what is below each of them.

Positions are not told apart by names or links.  Two siblings of one name stand in the list twice,
although only the first of them can be located by its name.

## Main definitions

* `Position.below`, `Catalog.positions` — the positions below a position, and below the root

## Main results

* `Position.below_eq` — what is below a position is what its children and those below them are
* `Branch.prefix_path_of_mem_positions` — every path within a branch leads through its top
-/

namespace CatalogGuard

namespace Branch

mutual

/-- The positions of a branch, given the entries above. -/
def positions (above : List Entry) : Branch → List Position
  | .node entry children =>
    ⟨above, .node entry children⟩ :: positionsAll (above ++ [entry]) children

/-- The positions of several branches, given the entries above. -/
def positionsAll (above : List Entry) : List Branch → List Position
  | [] => []
  | branch :: rest => positions above branch ++ positionsAll above rest

end

theorem positionsAll_eq_flatMap (above : List Entry) (branches : List Branch) :
    positionsAll above branches = branches.flatMap (positions above) := by
  induction branches with
  | nil => rfl
  | cons branch rest ih => rw [positionsAll, List.flatMap_cons, ih]

end Branch

/-- The positions below a position, in order. -/
def Position.below (position : Position) : List Position :=
  Branch.positionsAll position.path position.here.children

/-- The positions below the root, in order. -/
def Catalog.positions (catalog : Catalog) : List Position := catalog.top.below

theorem Branch.positions_eq_cons (above : List Entry) (branch : Branch) :
    branch.positions above = ⟨above, branch⟩ :: Position.below ⟨above, branch⟩ := by
  cases branch
  rfl

/-- **In order.**  Below a position are its children, each with what is below it. -/
theorem Position.below_eq (position : Position) :
    position.below = position.children.flatMap fun child => child :: child.below := by
  rw [below, Branch.positionsAll_eq_flatMap, children, List.flatMap_map]
  exact congrArg (List.flatMap · _) (funext fun branch => Branch.positions_eq_cons _ branch)

namespace Branch

/-! ### Paths within a branch -/

mutual

/-- Every path within a branch leads through its top. -/
theorem prefix_path_of_mem_positions (above : List Entry) : ∀ (branch : Branch) (p : Position),
    p ∈ branch.positions above → above ++ [branch.entry] <+: p.path
  | .node entry children, p, hp => by
    rcases List.mem_cons.mp hp with rfl | hp
    · exact List.prefix_rfl
    · exact prefix_path_of_mem_positionsAll (above ++ [entry]) children p hp

theorem prefix_path_of_mem_positionsAll (above : List Entry) :
    ∀ (branches : List Branch) (p : Position), p ∈ positionsAll above branches → above <+: p.path
  | [], p, hp => absurd hp List.not_mem_nil
  | branch :: rest, p, hp => by
    rcases List.mem_append.mp hp with hp | hp
    · exact (List.prefix_append _ _).trans (prefix_path_of_mem_positions above branch p hp)
    · exact prefix_path_of_mem_positionsAll above rest p hp

end

end Branch

end CatalogGuard
