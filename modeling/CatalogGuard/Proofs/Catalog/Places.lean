import CatalogGuard.Proofs.Catalog.Location
import CatalogGuard.Proofs.Text.Pieces

/-!
# Places in a catalog

A position can be given by the places of the branches on the way down, each within the list of its
siblings, and that tells all positions apart whatever their names are.  Giving it by names works as
well if the catalog is orderly: no two siblings share a name, and all names can stand between the
slashes of a path.

The conditions are on the branches below a branch, not on its own entry, so that they make sense of
the unnamed root too.

## Main definitions

* `Catalog.IsPart` — what can stand between the slashes of a path
* `Branch.Orderly` — no two siblings share a name, and names and links are parts of paths
* `Position.follow?` — going down by places

## Main results

* `Position.descend?_of_follow?` — the names on the way lead where the places lead
* `Position.follow?_injective` — different places have different names on the way
* `Catalog.locate?_of_follow?` — locating by the path of names, with any further slashes
-/

namespace CatalogGuard

/-- Whether a text can stand between the slashes of a path: it is not empty and has no slash. -/
def Catalog.IsPart (text : String) : Prop := text ≠ "" ∧ '/' ∉ text.toList

open Catalog (IsPart)

/-- No two siblings below a branch share a name, and all names and links there are parts of paths. -/
inductive Branch.Orderly : Branch → Prop where
  /-- The children are told apart by name, and are orderly themselves. -/
  | node {entry : Entry} {children : List Branch} (distinct : (children.map Branch.name).Nodup)
      (parts : ∀ child ∈ children, IsPart child.name ∧ IsPart child.entry.link)
      (below : ∀ child ∈ children, Branch.Orderly child) : Branch.Orderly (.node entry children)

namespace Branch.Orderly

variable {branch child : Branch}

theorem nodup (h : branch.Orderly) : (branch.children.map Branch.name).Nodup := by
  cases h with
  | node distinct => exact distinct

theorem isPart (h : branch.Orderly) (hmem : child ∈ branch.children) :
    IsPart child.name ∧ IsPart child.entry.link := by
  cases h with
  | node _ parts => exact parts child hmem

theorem of_mem (h : branch.Orderly) (hmem : child ∈ branch.children) : child.Orderly := by
  cases h with
  | node _ _ below => exact below child hmem

end Branch.Orderly

namespace Position

/-- The names on the way from the root down to a position. -/
def names (position : Position) : List String := position.belowRoot.map Entry.name

/-- The position reached by following places downwards, each within the list of siblings. -/
def follow? (position : Position) (places : List Nat) : Option Position :=
  places.foldlM (fun position place => position.children[place]?) position

variable {position other other' : Position} {place : Nat} {places places' : List Nat}

theorem follow?_cons_eq_some_iff : position.follow? (place :: places) = some other ↔
    ∃ branch, position.here.children[place]? = some branch ∧
      (position.enter branch).follow? places = some other := by
  rw [follow?, List.foldlM_cons, Option.bind_eq_bind, children, List.getElem?_map,
    Option.bind_eq_some_iff]
  simp only [Option.map_eq_some_iff]
  constructor
  · rintro ⟨_, ⟨branch, hb, rfl⟩, hrest⟩
    exact ⟨branch, hb, hrest⟩
  · rintro ⟨branch, hb, hrest⟩
    exact ⟨_, ⟨branch, hb, rfl⟩, hrest⟩

theorem path_enter (position : Position) (branch : Branch) :
    (position.enter branch).path = position.path ++ [branch.entry] := rfl

/-- **Names lead where places lead.**  From an orderly branch, following places passes entries whose
names lead to the same position. -/
theorem descend?_of_follow? (h : position.here.Orderly)
    (hf : position.follow? places = some other) :
    ∃ entries, other.path = position.path ++ entries ∧
      position.descend? (entries.map Entry.name) = some other ∧ other.here.Orderly ∧
      ∀ entry ∈ entries, IsPart entry.name ∧ IsPart entry.link := by
  induction places generalizing position with
  | nil =>
    obtain rfl := Option.some.inj hf
    exact ⟨[], (List.append_nil _).symm, rfl, h, fun _ hmem => absurd hmem List.not_mem_nil⟩
  | cons place places ih =>
    obtain ⟨branch, hb, hrest⟩ := follow?_cons_eq_some_iff.mp hf
    have hmem : branch ∈ position.here.children := List.mem_of_getElem? hb
    obtain ⟨entries, hpath, hdescend, horderly, hparts⟩ := ih (h.of_mem hmem) hrest
    refine ⟨branch.entry :: entries, ?_, ?_, horderly, List.forall_mem_cons.mpr
      ⟨h.isPart hmem, hparts⟩⟩
    · rw [hpath, path_enter, List.append_assoc, List.singleton_append]
    · have hfirst : position.here.child? branch.entry.name = some branch :=
        (Branch.find?_name_eq_some_iff h.nodup).mpr ⟨hmem, rfl⟩
      rw [descend?, List.map_cons, List.foldlM_cons, child?, hfirst]
      exact hdescend

/-- Each place is a step down. -/
theorem length_path_of_follow? (hf : position.follow? places = some other) :
    other.path.length = position.path.length + places.length := by
  induction places generalizing position with
  | nil =>
    obtain rfl := Option.some.inj hf
    rfl
  | cons place places ih =>
    obtain ⟨branch, -, hrest⟩ := follow?_cons_eq_some_iff.mp hf
    rw [ih hrest, path_enter, List.length_append, List.length_cons, List.length_cons,
      List.length_nil]
    omega

theorem length_eq_of_names_eq (hf : position.follow? places = some other)
    (hf' : position.follow? places' = some other')
    (hnames : other'.path.map Entry.name = other.path.map Entry.name) :
    places'.length = places.length := by
  have hlen := congrArg List.length hnames
  rw [List.length_map, List.length_map, length_path_of_follow? hf, length_path_of_follow? hf']
    at hlen
  exact Nat.add_left_cancel hlen

/-- **Different places have different names.**  Where the names on the way are the same, so are the
places. -/
theorem follow?_injective (h : position.here.Orderly)
    (hf : position.follow? places = some other) (hf' : position.follow? places' = some other')
    (hnames : other'.path.map Entry.name = other.path.map Entry.name) : places' = places := by
  have hlen := length_eq_of_names_eq hf hf' hnames
  induction places generalizing position places' with
  | nil => exact List.length_eq_zero_iff.mp hlen
  | cons place places ih =>
    obtain ⟨place', places', rfl⟩ := List.exists_cons_of_length_eq_add_one hlen
    obtain ⟨branch, hb, hrest⟩ := follow?_cons_eq_some_iff.mp hf
    obtain ⟨branch', hb', hrest'⟩ := follow?_cons_eq_some_iff.mp hf'
    have hmem := List.mem_of_getElem? hb
    obtain ⟨entries, hpath, -⟩ := descend?_of_follow? (h.of_mem hmem) hrest
    obtain ⟨entries', hpath', -⟩ :=
      descend?_of_follow? (h.of_mem (List.mem_of_getElem? hb')) hrest'
    -- the first names behind the position are those of the branches entered
    have hname : branch'.name = branch.name := by
      rw [hpath, hpath', path_enter, path_enter] at hnames
      simp only [List.map_append, List.append_assoc, List.append_cancel_left_eq] at hnames
      exact (List.cons.inj hnames).1
    have hplace : place' = place := by
      have hlt : place' < (position.here.children.map Branch.name).length := by
        rw [List.length_map]
        exact (List.getElem?_eq_some_iff.mp hb').1
      refine (List.getElem?_inj hlt h.nodup).mp ?_
      rw [List.getElem?_map, List.getElem?_map, hb, hb', Option.map_some, Option.map_some, hname]
    subst hplace
    obtain rfl := Option.some.inj (hb'.symm.trans hb)
    rw [ih (h.of_mem hmem) hrest hrest' (Nat.succ.inj hlen)]

end Position

/-! ### Paths of names -/

namespace Catalog

variable {catalog : Catalog} {position other : Position} {places places' : List Nat}
  {names : List String} {path : String}

theorem isPart_iff_toList {text : String} : IsPart text ↔ text.toList ≠ [] ∧ '/' ∉ text.toList := by
  rw [IsPart, ne_eq, ne_eq, String.toList_eq_nil_iff]

/-- Names with slashes between them are found again, whatever further slashes there are. -/
theorem namesIn_of_moreSlashes (h : ∀ name ∈ names, IsPart name)
    (hpath : Text.MoreSlashes ("/".intercalate names).toList path.toList) :
    namesIn path = names := by
  have hpieces : ∀ piece ∈ names.map String.toList, piece ≠ [] ∧ '/' ∉ piece := by
    rw [List.forall_mem_map]
    exact fun name hmem => isPart_iff_toList.mp (h name hmem)
  have hslash : "/".toList = ['/'] := by decide
  rw [namesIn, hpath.parts_eq, String.toList_intercalate, hslash, Text.parts_intercalate hpieces,
    List.map_map]
  exact List.map_id'' (fun _ => String.ofList_toList) names

/-- Every way down starts at the root. -/
theorem path_of_follow? (h : catalog.root.Orderly)
    (hf : catalog.top.follow? places = some position) :
    position.path = .root :: position.belowRoot := by
  obtain ⟨entries, hpath, -⟩ := Position.descend?_of_follow? h hf
  rw [Position.belowRoot, hpath]
  rfl

/-- **Locating by the path of names.**  In an orderly catalog the names on the way to a position,
with slashes between them and possibly more around them, locate this very position. -/
theorem locate?_of_follow? (h : catalog.root.Orderly)
    (hf : catalog.top.follow? places = some position)
    (hpath : Text.MoreSlashes ("/".intercalate position.names).toList path.toList) :
    catalog.locate? path = some position := by
  obtain ⟨entries, heq, hdescend, -, hparts⟩ := Position.descend?_of_follow? h hf
  have hnames : position.names = entries.map Entry.name := by
    rw [Position.names, Position.belowRoot, heq]
    rfl
  have hall : ∀ name ∈ position.names, IsPart name := by
    rw [hnames, List.forall_mem_map]
    exact fun entry hmem => (hparts entry hmem).1
  rw [locate?, namesIn_of_moreSlashes hall hpath, hnames, hdescend]

/-- In an orderly catalog a position has its own names on the way. -/
theorem places_eq_of_names_eq (h : catalog.root.Orderly)
    (hf : catalog.top.follow? places = some position)
    (hf' : catalog.top.follow? places' = some other) (hnames : other.names = position.names) :
    places' = places := by
  refine Position.follow?_injective h hf hf' ?_
  rw [path_of_follow? h hf, path_of_follow? h hf', List.map_cons, List.map_cons]
  exact congrArg _ hnames

end Catalog

end CatalogGuard
