import CatalogGuard.Policy.Folder
import CatalogGuard.Proofs.Outcome
import CatalogGuard.Proofs.Policy.Merge
import CatalogGuard.Proofs.Text.Bytes

/-!
# What a folder is read as

A folder lists its items in some order, and not all of them are policies.  The policy files among
them are read in the order of the bytes of their names.  Since no two items of a folder share a
name, there is one such order: it depends on which policy files there are and on nothing else, and
so does the outcome.

Reading stops at the first file that fails.  In the order of the names, that is the least of those
that fail, whatever else is wrong with the others.

## Main definitions

* `IsPolicyName` — the names with the extension of policy files
* `InOrder` — the policy files of a listing in the order of their names
* `IsFirstFault` — the file that decides about the error

## Main results

* `inOrder_policyItems`, `InOrder.unique` — the files that are read are the only ones in order
* `mapM_read_eq_error_iff` — the first fault decides
* `ofFolder_eq_of_perm` — what the outcome depends on, and what it is when it is an error
-/

namespace CatalogGuard.Policy

open Text (bytes bytes_lt_iff bytes_le_iff)

variable {directory name : String} {item : Item} {items items' files files' : List Item}
  {error : Error}

/-! ### Policy files -/

/-- The names of policy files: something, and behind it the extension `kdl`. -/
def IsPolicyName (name : String) : Prop := ∃ stem, stem ≠ "" ∧ name = stem ++ ".kdl"

theorem hasExtension_iff : FileName.hasExtension "kdl" name = true ↔ IsPolicyName name := by
  have hending : '.' :: "kdl".toList = ".kdl".toList := rfl
  simp only [FileName.hasExtension, hending, Bool.and_eq_true, List.isSuffixOf_iff_suffix,
    decide_eq_true_eq]
  constructor
  · rintro ⟨⟨stem, hstem⟩, hlength⟩
    refine ⟨String.ofList stem, ?_, ?_⟩
    · rintro hempty
      have hnil : stem = [] := by simpa using congrArg String.toList hempty
      rw [← hstem, hnil] at hlength
      exact absurd hlength (Nat.lt_irrefl _)
    · rw [← String.toList_inj, String.toList_append, String.toList_ofList, hstem]
  · rintro ⟨stem, hstem, rfl⟩
    rw [String.toList_append]
    refine ⟨List.suffix_append _ _, ?_⟩
    have hpos : 0 < stem.toList.length := by
      rw [List.length_pos_iff]
      exact fun hnil => hstem (String.toList_inj.mp hnil)
    rw [List.length_append]
    omega

/-- The policy files of a listing in the order of the bytes of their names. -/
structure InOrder (items files : List Item) : Prop where
  /-- They are the items with the extension of policy files. -/
  mem : ∀ item, item ∈ files ↔ item ∈ items ∧ IsPolicyName item.name
  /-- Each name is less than those that follow. -/
  sorted : files.Pairwise fun a b => bytes a.name < bytes b.name

theorem InOrder.nodup (h : InOrder items files) : files.Nodup := by
  refine h.sorted.imp ?_
  rintro item _ hlt rfl
  exact List.lt_irrefl _ hlt

/-- **There is one order**: listings with the same policy files have the same files in order. -/
theorem InOrder.unique (h : InOrder items files) (h' : InOrder items' files')
    (hsame : ∀ item, IsPolicyName item.name → (item ∈ items' ↔ item ∈ items)) :
    files' = files := by
  have hmem : ∀ item, item ∈ files' ↔ item ∈ files := by
    intro item
    rw [h.mem, h'.mem]
    exact and_congr_left (hsame item)
  have hperm : files'.Perm files := (List.perm_ext_iff_of_nodup h'.nodup h.nodup).mpr hmem
  exact hperm.eq_of_pairwise (fun a b _ _ hlt hgt => absurd hlt (List.lt_asymm hgt)) h'.sorted
    h.sorted

theorem mem_policyItems_iff :
    item ∈ policyItems items ↔ item ∈ items ∧ IsPolicyName item.name := by
  rw [policyItems, List.mem_mergeSort, List.mem_filter, hasExtension_iff]

/-- **The files that are read** are the policy files in order. -/
theorem inOrder_policyItems (hdistinct : (items.map Item.name).Nodup) :
    InOrder items (policyItems items) := by
  refine ⟨fun item => mem_policyItems_iff, ?_⟩
  have hsorted : (policyItems items).Pairwise fun a b => decide (a.name ≤ b.name) = true :=
    List.pairwise_mergeSort (fun a b c => by simpa using String.le_trans)
      (fun a b => by simpa using String.le_total a.name b.name) _
  have hdiffer : (policyItems items).Pairwise fun a b => a.name ≠ b.name := by
    have hfilter := (List.pairwise_map.mp hdistinct).filter fun item =>
      FileName.hasExtension "kdl" item.name
    exact (List.mergeSort_perm _ _).symm.pairwise hfilter fun h heq => h heq.symm
  refine hsorted.imp₂ (fun a b hle hne => ?_) hdiffer
  rw [bytes_lt_iff]
  exact lt_of_le_of_ne (of_decide_eq_true hle) hne

/-! ### The first fault -/

/-- The policy file that decides about the error: no other that fails has a lesser name. -/
structure IsFirstFault (directory : String) (items : List Item) (item : Item) (error : Error) :
    Prop where
  /-- It is listed. -/
  mem : item ∈ items
  /-- It is a policy file. -/
  isPolicy : IsPolicyName item.name
  /-- It cannot be read, or its document is refused. -/
  fault : item.read directory = .error error
  /-- Its name is the least of those that fail. -/
  least : ∀ other ∈ items, IsPolicyName other.name →
    (∃ error', other.read directory = .error error') → bytes item.name ≤ bytes other.name

/-- **The first fault decides.** -/
theorem mapM_read_eq_error_iff (h : InOrder items files) :
    files.mapM (Item.read directory) = .error error ↔
      ∃ item, IsFirstFault directory items item error := by
  rw [mapM_eq_error_iff]
  constructor
  · rintro ⟨before, item, after, rfl, hbefore, hfault⟩
    obtain ⟨hmem, hpolicy⟩ := (h.mem item).mp (List.mem_append_right _ List.mem_cons_self)
    refine ⟨item, hmem, hpolicy, hfault, ?_⟩
    rintro other hother hpolicy' ⟨error', herror⟩
    obtain hbef | hrest := List.mem_append.mp ((h.mem other).mpr ⟨hother, hpolicy'⟩)
    · obtain ⟨fragment, hread⟩ := hbefore other hbef
      rw [hread] at herror
      cases herror
    · obtain rfl | hafter := List.mem_cons.mp hrest
      · exact List.le_refl _
      · have hsorted := (List.pairwise_append.mp h.sorted).2.1
        exact List.le_of_lt ((List.pairwise_cons.mp hsorted).1 other hafter)
  · rintro ⟨item, hfirst⟩
    have hitem := (h.mem item).mpr ⟨hfirst.mem, hfirst.isPolicy⟩
    obtain ⟨before, after, rfl⟩ := List.append_of_mem hitem
    refine ⟨before, item, after, rfl, fun other hbefore => ?_, hfirst.fault⟩
    have hlt : bytes other.name < bytes item.name :=
      (List.pairwise_append.mp h.sorted).2.2 other hbefore item List.mem_cons_self
    obtain ⟨hother, hpolicy⟩ := (h.mem other).mp (List.mem_append_left _ hbefore)
    cases hread : other.read directory with
    | ok fragment => exact ⟨fragment, rfl⟩
    | error error' =>
      have hle := hfirst.least other hother hpolicy ⟨error', hread⟩
      exact absurd hlt (List.not_lt.mpr hle)

/-! ### Folders -/

theorem ofFolder_eq_error_iff (h : InOrder items (policyItems items)) :
    ofFolder directory (some items) = .error error ↔
      (∃ item, IsFirstFault directory items item error) ∨
      ∃ files fragments name, InOrder items files ∧
        files.mapM (Item.read directory) = .ok fragments ∧
        IsFirstRepeated ((fragments.flatMap Fragment.entries).map Branch.name) name ∧
        error = .entry (.repeated name) := by
  rw [ofFolder, bind_eq_error_iff, mapM_read_eq_error_iff h]
  simp only [ofFragments_eq_error_iff]
  refine or_congr_right ⟨?_, ?_⟩
  · rintro ⟨fragments, hread, name, hrepeated, rfl⟩
    exact ⟨policyItems items, fragments, name, h, hread, hrepeated, rfl⟩
  · rintro ⟨files, fragments, name, horder, hread, hrepeated, rfl⟩
    obtain rfl := h.unique horder fun _ _ => Iff.rfl
    exact ⟨fragments, hread, name, hrepeated, rfl⟩

theorem ofFolder_eq_of_same (h : InOrder items (policyItems items))
    (h' : InOrder items' (policyItems items'))
    (hsame : ∀ item, IsPolicyName item.name → (item ∈ items' ↔ item ∈ items)) :
    ofFolder directory (some items') = ofFolder directory (some items) := by
  have hfiles : policyItems items' = policyItems items := h.unique h' hsame
  simp only [ofFolder, hfiles]

/-- **What the outcome of a folder depends on.**  No two of its items share a name.  Then the order
in which they are listed is of no effect, and neither are the items that are no policy files: they
may come, go and change.  If the folder is refused, then for what is wrong with the policy file of
the least name that cannot be read or whose document is refused; only if there is no such file, it
is for the first name that is repeated at the top of the catalog. -/
theorem ofFolder_eq_of_perm (directory : String) (items : List Item)
    (hdistinct : (items.map Item.name).Nodup) :
    (∀ items', items.Perm items' →
      ofFolder directory (some items') = ofFolder directory (some items)) ∧
    (∀ items', (items'.map Item.name).Nodup →
      (∀ item, IsPolicyName item.name → (item ∈ items' ↔ item ∈ items)) →
      ofFolder directory (some items') = ofFolder directory (some items)) ∧
    ∀ error, ofFolder directory (some items) = .error error ↔
      (∃ item, IsFirstFault directory items item error) ∨
      ∃ files fragments name, InOrder items files ∧
        files.mapM (Item.read directory) = .ok fragments ∧
        IsFirstRepeated ((fragments.flatMap Fragment.entries).map Branch.name) name ∧
        error = .entry (.repeated name) := by
  have horder := inOrder_policyItems hdistinct
  refine ⟨fun items' hperm => ?_, fun items' hdistinct' hsame => ?_, fun error => ?_⟩
  · have hdistinct' : (items'.map Item.name).Nodup := (hperm.map Item.name).nodup_iff.mp hdistinct
    exact ofFolder_eq_of_same horder (inOrder_policyItems hdistinct') fun _ _ => hperm.symm.mem_iff
  · exact ofFolder_eq_of_same horder (inOrder_policyItems hdistinct') hsame
  · exact ofFolder_eq_error_iff horder

/-- A folder in which two policy files cannot be read, behind a directory of another name. -/
def strayItems : List Item :=
  [⟨"notes.md", .directory⟩, ⟨"b.kdl", .directory⟩, ⟨"a.kdl", .binary "claims"⟩]

/-- The folder is refused for the file that comes last in the listing. -/
theorem ofFolder_strayItems : (strayItems.map Item.name).Nodup ∧
    ofFolder "p" (some strayItems.reverse) = ofFolder "p" (some strayItems) ∧
    ofFolder "p" (some strayItems.tail) = ofFolder "p" (some strayItems) ∧
    ofFolder "p" (some strayItems) = .error (.unreadable "p/a.kdl" .invalidData) := by
  have hdistinct : (strayItems.map Item.name).Nodup := by decide
  obtain ⟨horder, hother, herror⟩ := ofFolder_eq_of_perm "p" strayItems hdistinct
  have hnotes : ¬ IsPolicyName "notes.md" := by
    rw [← hasExtension_iff]
    decide
  have hfirst : IsFirstFault "p" strayItems ⟨"a.kdl", .binary "claims"⟩
      (.unreadable "p/a.kdl" .invalidData) := by
    have hleast : ∀ other ∈ strayItems, "a.kdl" ≤ other.name := by decide
    exact ⟨by decide, ⟨"a", by decide, rfl⟩, rfl,
      fun other hmem _ _ => bytes_le_iff.mpr (hleast other hmem)⟩
  refine ⟨hdistinct, horder _ (List.reverse_perm _).symm, hother _ (by decide) ?_,
    (herror _).mpr (Or.inl ⟨_, hfirst⟩)⟩
  intro item hpolicy
  refine ⟨List.mem_of_mem_tail, fun hmem => (List.mem_cons.mp hmem).resolve_left ?_⟩
  rintro rfl
  exact hnotes hpolicy

end CatalogGuard.Policy
