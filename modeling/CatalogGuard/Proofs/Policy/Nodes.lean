import CatalogGuard.Proofs.Policy.Items
import CatalogGuard.Proofs.Policy.Merge
import Mathlib.Data.List.Nodup
import Mathlib.Data.Option.Basic
import Mathlib.Logic.Relation

/-!
# Which documents are policies

A document is refused at the first thing that is wrong with it, and reading goes on while entries
are made.  Neither the order nor the entries made so far have a part in whether a document is
refused: it is read exactly if each of its nodes is in order by itself, and with each node of a
catalog all entry nodes below it.

An entry node is below another one only through entry nodes.  What stands below an `authors` node is
looked at for its `-` nodes alone, so that an `entry` node there may be anything.

## Main definitions

* `IsEntryNode`, `IsPolicyNode` — a node is in order, as an entry or at the top of a document
* `Depicts` — a branch has the shape of a tree of nodes, and the data that its nodes are given
* `Tells` — a fragment holds what the nodes of a document say

## Main results

* `readEntry_eq_ok_iff`, `readNode_eq_ok_iff` — what reading a node can do
* `exists_readEntry_iff` — an entry node is read exactly if all from it down are in order
* `depicts_of_readEntry` — what is read of it
* `exists_ofNodes_iff_and_tells` — which documents are policies, and what they say
-/

namespace CatalogGuard

/-- What holds of a node if it holds of the nodes right below it holds of all nodes. -/
theorem Kdl.Node.induction_below {motive : Kdl.Node → Prop}
    (step : ∀ node, (∀ child ∈ node.children, motive child) → motive node) :
    ∀ node, motive node
  | .mk name items children => step _ fun child _ => induction_below step child
termination_by node => sizeOf node
decreasing_by
  next hmem =>
    have := List.sizeOf_lt_of_mem hmem
    simp only [Kdl.Node.children] at this
    simp only [Kdl.Node.mk.sizeOf_spec]
    omega

namespace Policy

open Catalog (IsPart)
open Kdl (Node)

variable {node : Node} {nodes : List Node} {name : String} {authors : List String}
  {branch : Branch} {children : List Branch} {fragment : Fragment}

/-- The nodes of a name. -/
def nodesNamed (name : String) (nodes : List Node) : List Node :=
  nodes.filter fun node => node.name == name

theorem mem_nodesNamed : node ∈ nodesNamed name nodes ↔ node ∈ nodes ∧ node.name = name := by
  simp [nodesNamed]

theorem nodesNamed_cons_self (h : node.name = name) :
    nodesNamed name (node :: nodes) = node :: nodesNamed name nodes :=
  List.filter_cons_of_pos (beq_iff_eq.mpr h)

theorem nodesNamed_cons_of_ne (h : node.name ≠ name) :
    nodesNamed name (node :: nodes) = nodesNamed name nodes :=
  List.filter_cons_of_neg (by simpa using h)

theorem nodesNamed_singleton :
    nodesNamed name [node] = if node.name = name then [node] else [] := by
  by_cases h : node.name = name <;> simp [nodesNamed, h]

/-! ### Nodes in order -/

/-- A node stands below another as an entry. -/
def IsEntryOf (parent child : Node) : Prop := child ∈ parent.children ∧ child.name = "entry"

/-- A node can be read as an entry, but for what is below the entries below it. -/
structure IsEntryNode (node : Node) : Prop where
  /-- It has a name, which can stand between the slashes of a path. -/
  name : ∃ name, node.firstText? = some name ∧ IsPart name
  /-- All its properties may have their values, also those that are given several times. -/
  properties : ∀ item ∈ node.items, ∀ key, item.key? = some key → Allowed key item.value
  /-- Below it are entries and authors only. -/
  children : ∀ child ∈ node.children, child.name = "entry" ∨ child.name = "authors"
  /-- No two entries below it have the same name. -/
  distinct : ((nodesNamed "entry" node.children).map Node.firstText?).Nodup

/-- A node can stand at the top of a document. -/
structure IsPolicyNode (node : Node) : Prop where
  /-- A catalog holds entries only, and all entry nodes below it are in order. -/
  catalog : node.name = "catalog" → (∀ child ∈ node.children, child.name = "entry") ∧
    ∀ entry, Relation.TransGen IsEntryOf node entry → IsEntryNode entry
  /-- Claims have a login, and each of them can be a claim. -/
  claims : node.name = "claims" → (∃ login, node.firstText? = some login) ∧
    ∀ claim ∈ node.dashTexts, validateClaim claim = .ok ()
  /-- A rule has a text that reads as one. -/
  rule : node.name = "rule" → ∃ text rule, node.firstText? = some text ∧
    Rule.parse text = .ok rule

/-! ### What reading a node can do -/

/-- The texts that the last list of authors holds, if there is any. -/
def lastAuthors (authors : List String) (nodes : List Node) : List String :=
  ((nodesNamed "authors" nodes).getLast?.map Node.dashTexts).getD authors

theorem lastAuthors_cons_of_ne (h : node.name ≠ "authors") :
    lastAuthors authors (node :: nodes) = lastAuthors authors nodes := by
  rw [lastAuthors, nodesNamed_cons_of_ne h, lastAuthors]

theorem lastAuthors_cons_self (h : node.name = "authors") :
    lastAuthors authors (node :: nodes) = lastAuthors node.dashTexts nodes := by
  rw [lastAuthors, nodesNamed_cons_self h, List.getLast?_cons, lastAuthors]
  cases (nodesNamed "authors" nodes).getLast? <;> rfl

/-- What reading the nodes below an entry can do, behind branches that differ in their names. -/
theorem readBelow_eq_ok_iff {read : List String × List Branch}
    (hdistinct : (children.map Branch.name).Nodup) :
    readBelow name authors children nodes = .ok read ↔
      (∀ node ∈ nodes, node.name = "entry" ∨ node.name = "authors") ∧
        ∃ more, (nodesNamed "entry" nodes).mapM readEntry = .ok more ∧
          ((children ++ more).map Branch.name).Nodup ∧
          read = (lastAuthors authors nodes, children ++ more) := by
  induction nodes generalizing authors children with
  | nil =>
    rw [readBelow]
    constructor
    · intro h
      refine ⟨fun _ hmem => absurd hmem List.not_mem_nil, [], rfl, ?_, ?_⟩
      · rwa [List.append_nil]
      · rw [List.append_nil]
        exact (Except.ok.inj h).symm
    · rintro ⟨-, more, hmore, -, rfl⟩
      obtain rfl : [] = more := Except.ok.inj hmore
      rw [List.append_nil]
      rfl
  | cons node nodes ih =>
    rw [readBelow, List.forall_mem_cons]
    by_cases hentry : node.name = "entry"
    · have hnot : node.name ≠ "authors" := by rw [hentry]; decide
      rw [if_pos hentry, nodesNamed_cons_self hentry, lastAuthors_cons_of_ne hnot, bind_eq_ok_iff]
      constructor
      · rintro ⟨child, hchild, h⟩
        split at h
        · cases h
        · next hnew =>
          have hfirst : ((children ++ [child]).map Branch.name).Nodup := by
            rw [List.map_append, List.map_singleton, List.nodup_append_comm]
            exact List.nodup_cons.mpr ⟨by simpa using hnew, hdistinct⟩
          obtain ⟨hall, more, hmore, hmoreDistinct, rfl⟩ := (ih hfirst).mp h
          refine ⟨⟨Or.inl hentry, hall⟩, child :: more, ?_, ?_, ?_⟩
          · exact mapM_eq_ok_iff.mpr (.cons hchild (mapM_eq_ok_iff.mp hmore))
          · simpa using hmoreDistinct
          · simp
      · rintro ⟨⟨-, hall⟩, read, hread, hmoreDistinct, rfl⟩
        obtain ⟨child, more, hchild, hmore, rfl⟩ :=
          List.forall₂_cons_left_iff.mp (mapM_eq_ok_iff.mp hread)
        have hsplit : children ++ child :: more = children ++ [child] ++ more := by simp
        rw [hsplit] at hmoreDistinct
        have hfirst : ((children ++ [child]).map Branch.name).Nodup := by
          rw [List.map_append] at hmoreDistinct
          exact (List.nodup_append.mp hmoreDistinct).1
        have hnew : ¬(children.any fun sibling => sibling.name == child.name) = true := by
          rw [List.map_append, List.map_singleton, List.nodup_append_comm] at hfirst
          simpa using (List.nodup_cons.mp hfirst).1
        refine ⟨child, hchild, ?_⟩
        rw [if_neg hnew]
        exact (ih hfirst).mpr ⟨hall, more, mapM_eq_ok_iff.mpr hmore, hmoreDistinct, by rw [hsplit]⟩
    by_cases hauthors : node.name = "authors"
    · rw [if_neg hentry, if_pos hauthors, nodesNamed_cons_of_ne hentry,
        lastAuthors_cons_self hauthors, ih hdistinct]
      simp only [hauthors, or_true, true_and]
    · rw [if_neg hentry, if_neg hauthors]
      constructor
      · intro h
        cases h
      · rintro ⟨⟨h | h, -⟩, -⟩
        · exact absurd h hentry
        · exact absurd h hauthors

/-- What reading an entry node can do. -/
theorem readEntry_eq_ok_iff : readEntry node = .ok branch ↔
    ∃ name entry children, node.firstText? = some name ∧ IsPart name ∧
      node.items.foldlM applyItem (.named name) = .ok entry ∧
      (∀ child ∈ node.children, child.name = "entry" ∨ child.name = "authors") ∧
      (nodesNamed "entry" node.children).mapM readEntry = .ok children ∧
      (children.map Branch.name).Nodup ∧
      branch = .node { entry with authors := lastAuthors [] node.children } children := by
  rcases node with ⟨key, items, below⟩
  have hnone : (([] : List Branch).map Branch.name).Nodup := List.nodup_nil
  rw [readEntry]
  constructor
  · intro h
    split at h
    · cases h
    · next name hname =>
      split at h
      · next hsegment =>
        obtain ⟨entry, hentry, h⟩ := bind_eq_ok_iff.mp h
        obtain ⟨read, hbelow, h⟩ := bind_eq_ok_iff.mp h
        obtain ⟨hall, children, hchildren, hdistinct, rfl⟩ :=
          (readBelow_eq_ok_iff hnone).mp hbelow
        exact ⟨name, entry, children, hname, isSegment_iff.mp hsegment, hentry, hall, hchildren,
          hdistinct, (Except.ok.inj h).symm⟩
      · cases h
  · rintro ⟨name, entry, children, hname, hpart, hentry, hall, hchildren, hdistinct, rfl⟩
    have hbelow : readBelow name [] [] below = .ok (lastAuthors [] below, children) :=
      (readBelow_eq_ok_iff hnone).mpr ⟨hall, children, hchildren, hdistinct, rfl⟩
    rw [hname]
    show (if isSegment name then _ else _) = _
    rw [if_pos (isSegment_iff.mpr hpart)]
    exact bind_eq_ok_iff.mpr ⟨entry, hentry, bind_eq_ok_iff.mpr ⟨_, hbelow, rfl⟩⟩

/-- An entry is named by the text of its node. -/
theorem firstText?_of_readEntry (h : readEntry node = .ok branch) :
    node.firstText? = some branch.name := by
  obtain ⟨name, entry, children, hname, -, hentry, -, -, -, rfl⟩ := readEntry_eq_ok_iff.mp h
  rw [hname]
  exact congrArg some (settles_of_applyItems hentry).name.symm

theorem map_firstText?_of_mapM_readEntry (h : nodes.mapM readEntry = .ok children) :
    nodes.map Node.firstText? = (children.map Branch.name).map some := by
  have hall : List.Forall₂ (· = ·) (nodes.map Node.firstText?)
      ((children.map Branch.name).map some) := by
    simp only [List.forall₂_map_left_iff, List.forall₂_map_right_iff]
    exact (mapM_eq_ok_iff.mp h).imp fun _ _ => firstText?_of_readEntry
  rwa [List.forall₂_eq_eq_eq] at hall

/-! ### Trees of entry nodes -/

/-- All entry nodes below a node can be read if this is known of each right below it. -/
theorem exists_mapM_readEntry_iff
    (h : ∀ child ∈ node.children, (∃ branch, readEntry child = .ok branch) ↔
      ∀ entry, Relation.ReflTransGen IsEntryOf child entry → IsEntryNode entry) :
    (∃ children, (nodesNamed "entry" node.children).mapM readEntry = .ok children) ↔
      ∀ entry, Relation.TransGen IsEntryOf node entry → IsEntryNode entry := by
  rw [exists_mapM_eq_ok_iff]
  constructor
  · intro hread entry hway
    obtain ⟨child, hchild, hway⟩ := Relation.TransGen.head'_iff.mp hway
    exact (h child hchild.1).mp (hread child (mem_nodesNamed.mpr hchild)) entry hway
  · intro hnodes child hmem
    have hchild : IsEntryOf node child := mem_nodesNamed.mp hmem
    exact (h child hchild.1).mpr fun entry hway => hnodes entry (.head' hchild hway)

/-- **An entry node can be read exactly if all entry nodes from it down are in order.** -/
theorem exists_readEntry_iff : (∃ branch, readEntry node = .ok branch) ↔
    ∀ entry, Relation.ReflTransGen IsEntryOf node entry → IsEntryNode entry := by
  induction node using Kdl.Node.induction_below with
  | _ node ih =>
    have hbelow := exists_mapM_readEntry_iff ih
    constructor
    · rintro ⟨branch, h⟩ entry hway
      obtain ⟨name, read, children, hname, hpart, hread, hall, hchildren, hdistinct, -⟩ :=
        readEntry_eq_ok_iff.mp h
      rcases Relation.reflTransGen_iff_eq_or_transGen.mp hway with rfl | hway
      · refine ⟨⟨name, hname, hpart⟩, exists_applyItems_iff.mp ⟨read, hread⟩, hall, ?_⟩
        rw [map_firstText?_of_mapM_readEntry hchildren]
        exact hdistinct.map (Option.some_injective _)
      · exact hbelow.mp ⟨children, hchildren⟩ entry hway
    · intro h
      have hnode : IsEntryNode node := h node .refl
      obtain ⟨name, hname, hpart⟩ := hnode.name
      obtain ⟨read, hread⟩ := exists_applyItems_iff.mpr hnode.properties
      obtain ⟨children, hchildren⟩ := hbelow.mpr fun entry hway => h entry hway.to_reflTransGen
      have hdistinct := hnode.distinct
      rw [map_firstText?_of_mapM_readEntry hchildren] at hdistinct
      exact ⟨_, readEntry_eq_ok_iff.mpr ⟨name, read, children, hname, hpart, hread,
        hnode.children, hchildren, hdistinct.of_map some, rfl⟩⟩

/-- An entry holds what its node is given. -/
structure Holds (node : Node) (entry : Entry) : Prop where
  /-- Its name is the first argument. -/
  name : node.firstText? = some entry.name
  /-- Its link is the last one given, or else its name. -/
  link : (lastValue? node.items "link").getD (.string entry.name) = .string entry.link
  /-- Its access level is the last one given; otherwise it is for everyone. -/
  access : (lastValue? node.items "access").getD (.string AccessLevel.everyone.text) =
    .string entry.access.text
  /-- It is a draft if the last mark says so. -/
  draft : (lastValue? node.items "draft").getD (.bool false) = .bool entry.draft
  /-- All other properties are data, each with the last value given. -/
  property : ∀ key, entry.property key =
    if key ∈ fieldKeys then none else (lastValue? node.items key).map propertyValue
  /-- Its authors are those of the last list. -/
  authors : entry.authors = lastAuthors [] node.children

/-- A branch has the shape of a tree of nodes, and its entries hold what the nodes are given. -/
inductive Depicts : Node → Branch → Prop where
  /-- For each entry node below, in order, there is a child. -/
  | node {node : Node} {entry : Entry} {children : List Branch} (top : Holds node entry)
      (below : List.Forall₂ Depicts (nodesNamed "entry" node.children) children) :
      Depicts node (.node entry children)

theorem holds_of_applyItems {entry : Entry} (hname : node.firstText? = some name)
    (h : node.items.foldlM applyItem (.named name) = .ok entry) :
    Holds node { entry with authors := lastAuthors [] node.children } := by
  have hsettles := settles_of_applyItems h
  refine ⟨?_, ?_, hsettles.access, hsettles.draft, fun key => ?_, rfl⟩
  · rw [hname]
    exact congrArg some hsettles.name.symm
  · have hlink := hsettles.link
    rwa [show (Entry.named name).link = entry.name from hsettles.name.symm] at hlink
  · refine (hsettles.property key).trans ?_
    rw [show (Entry.named name).property key = none from rfl, Option.or_none]

/-- **What is read of an entry node depicts it.** -/
theorem depicts_of_readEntry (h : readEntry node = .ok branch) : Depicts node branch := by
  induction node using Kdl.Node.induction_below generalizing branch with
  | _ node ih =>
    obtain ⟨name, entry, children, hname, -, hentry, -, hchildren, -, rfl⟩ :=
      readEntry_eq_ok_iff.mp h
    have hbelow : ∀ child ∈ nodesNamed "entry" node.children,
        ∀ branch, readEntry child = .ok branch → Depicts child branch :=
      fun child hmem _ => ih child (mem_nodesNamed.mp hmem).1
    exact .node (holds_of_applyItems hname hentry) <|
      ((List.forall₂_and_left _ _).mpr ⟨hbelow, mapM_eq_ok_iff.mp hchildren⟩).imp
        fun child branch hchild => hchild.1 branch hchild.2

/-! ### Documents -/

theorem readCatalogChild_eq_ok_iff :
    readCatalogChild node = .ok branch ↔ node.name = "entry" ∧ readEntry node = .ok branch := by
  rw [readCatalogChild]
  by_cases h : node.name = "entry" <;> simp [h]

theorem mapM_readCatalogChild_eq_ok_iff :
    nodes.mapM readCatalogChild = .ok children ↔
      (∀ node ∈ nodes, node.name = "entry") ∧ nodes.mapM readEntry = .ok children := by
  simp only [mapM_eq_ok_iff, readCatalogChild_eq_ok_iff, List.forall₂_and_left]

theorem nodesNamed_eq_self (h : ∀ node ∈ nodes, node.name = name) :
    nodesNamed name nodes = nodes :=
  List.filter_eq_self.mpr fun node hmem => beq_iff_eq.mpr (h node hmem)

/-- A catalog can be read exactly if there are only entries in it, and all entry nodes below it are
in order. -/
theorem exists_mapM_readCatalogChild_iff :
    (∃ children, node.children.mapM readCatalogChild = .ok children) ↔
      (∀ child ∈ node.children, child.name = "entry") ∧
        ∀ entry, Relation.TransGen IsEntryOf node entry → IsEntryNode entry := by
  rw [← exists_mapM_readEntry_iff fun _ _ => exists_readEntry_iff]
  simp only [mapM_readCatalogChild_eq_ok_iff]
  constructor
  · rintro ⟨children, hall, hchildren⟩
    exact ⟨hall, children, by rwa [nodesNamed_eq_self hall]⟩
  · rintro ⟨hall, children, hchildren⟩
    exact ⟨children, hall, by rwa [nodesNamed_eq_self hall] at hchildren⟩

/-- The names of the nodes that say something at the top of a document. -/
def topNames : List String := ["catalog", "claims", "registered", "rule"]

theorem notMem_topNames : name ∉ topNames ↔
    name ≠ "catalog" ∧ name ≠ "claims" ∧ name ≠ "registered" ∧ name ≠ "rule" := by
  simp [topNames]

/-- What reading a node of a document can do. -/
theorem readNode_eq_ok_iff : readNode node = .ok fragment ↔
    (node.name = "catalog" ∧ ∃ entries, node.children.mapM readCatalogChild = .ok entries ∧
      fragment = { Fragment.empty with entries }) ∨
    (node.name = "claims" ∧ ∃ login, node.firstText? = some login ∧
      (∀ claim ∈ node.dashTexts, validateClaim claim = .ok ()) ∧
      fragment = { Fragment.empty with claims := [(login, node.dashTexts)] }) ∨
    (node.name = "registered" ∧ fragment = { Fragment.empty with registered := node.dashTexts }) ∨
    (node.name = "rule" ∧ ∃ text rule, node.firstText? = some text ∧ Rule.parse text = .ok rule ∧
      fragment = { Fragment.empty with rules := [rule] }) ∨
    (node.name ∉ topNames ∧ fragment = .empty) := by
  constructor
  · intro h
    unfold readNode at h
    split at h
    · next hname =>
      obtain ⟨entries, hentries, h⟩ := bind_eq_ok_iff.mp h
      exact Or.inl ⟨hname, entries, hentries, (Except.ok.inj h).symm⟩
    split at h
    · next hname =>
      split at h
      · cases h
      · next login hlogin =>
        obtain ⟨⟨⟩, hclaims, h⟩ := bind_eq_ok_iff.mp h
        exact Or.inr (Or.inl ⟨hname, login, hlogin, forM_eq_ok_iff.mp hclaims,
          (Except.ok.inj h).symm⟩)
    split at h
    · next hname => exact Or.inr (Or.inr (Or.inl ⟨hname, (Except.ok.inj h).symm⟩))
    split at h
    · next hname =>
      split at h
      · cases h
      · next text htext =>
        split at h
        · cases h
        · next rule hrule =>
          exact Or.inr (Or.inr (Or.inr (Or.inl ⟨hname, text, rule, htext, hrule,
            (Except.ok.inj h).symm⟩)))
    · next hcatalog hclaims hregistered hrule =>
      exact Or.inr (Or.inr (Or.inr (Or.inr ⟨notMem_topNames.mpr
        ⟨hcatalog, hclaims, hregistered, hrule⟩, (Except.ok.inj h).symm⟩)))
  · rintro (⟨hname, entries, hentries, rfl⟩ | ⟨hname, login, hlogin, hclaims, rfl⟩ | ⟨hname, rfl⟩ |
      ⟨hname, text, rule, htext, hrule, rfl⟩ | ⟨hname, rfl⟩)
    · rw [readNode, if_pos hname]
      exact bind_eq_ok_iff.mpr ⟨entries, hentries, rfl⟩
    · simp only [readNode, hname, hlogin]
      exact bind_eq_ok_iff.mpr ⟨(), forM_eq_ok_iff.mpr hclaims, rfl⟩
    · simp only [readNode, hname]
      rfl
    · simp only [readNode, hname, htext, hrule]
      rfl
    · obtain ⟨hcatalog, hclaims, hregistered, hrule⟩ := notMem_topNames.mp hname
      rw [readNode, if_neg hcatalog, if_neg hclaims, if_neg hregistered, if_neg hrule]

/-- A node of a document can be read exactly if it can stand there. -/
theorem exists_readNode_iff : (∃ fragment, readNode node = .ok fragment) ↔ IsPolicyNode node := by
  simp only [readNode_eq_ok_iff]
  constructor
  · rintro ⟨fragment, ⟨hname, entries, hentries, -⟩ | ⟨hname, login, hlogin, hclaims, -⟩ |
      ⟨hname, -⟩ | ⟨hname, text, rule, htext, hrule, -⟩ | ⟨hname, -⟩⟩
    · exact ⟨fun _ => exists_mapM_readCatalogChild_iff.mp ⟨entries, hentries⟩, by simp [hname],
        by simp [hname]⟩
    · exact ⟨by simp [hname], fun _ => ⟨⟨login, hlogin⟩, hclaims⟩, by simp [hname]⟩
    · exact ⟨by simp [hname], by simp [hname], by simp [hname]⟩
    · exact ⟨by simp [hname], by simp [hname], fun _ => ⟨text, rule, htext, hrule⟩⟩
    · obtain ⟨hcatalog, hclaims, -, hrule⟩ := notMem_topNames.mp hname
      exact ⟨fun h => absurd h hcatalog, fun h => absurd h hclaims, fun h => absurd h hrule⟩
  · intro h
    by_cases hcatalog : node.name = "catalog"
    · obtain ⟨entries, hentries⟩ := exists_mapM_readCatalogChild_iff.mpr (h.catalog hcatalog)
      exact ⟨_, Or.inl ⟨hcatalog, entries, hentries, rfl⟩⟩
    by_cases hclaims : node.name = "claims"
    · obtain ⟨⟨login, hlogin⟩, hvalid⟩ := h.claims hclaims
      exact ⟨_, Or.inr (Or.inl ⟨hclaims, login, hlogin, hvalid, rfl⟩)⟩
    by_cases hregistered : node.name = "registered"
    · exact ⟨_, Or.inr (Or.inr (Or.inl ⟨hregistered, rfl⟩))⟩
    by_cases hrule : node.name = "rule"
    · obtain ⟨text, rule, htext, hread⟩ := h.rule hrule
      exact ⟨_, Or.inr (Or.inr (Or.inr (Or.inl ⟨hrule, text, rule, htext, hread, rfl⟩)))⟩
    · exact ⟨_, Or.inr (Or.inr (Or.inr (Or.inr
        ⟨notMem_topNames.mpr ⟨hcatalog, hclaims, hregistered, hrule⟩, rfl⟩)))⟩

/-- A fragment holds what the nodes of a document say, in the order of the document. -/
structure Tells (nodes : List Node) (fragment : Fragment) : Prop where
  /-- The branches depict the nodes of the catalogs. -/
  entries : List.Forall₂ Depicts ((nodesNamed "catalog" nodes).flatMap Node.children)
    fragment.entries
  /-- Each list of claims goes with its login. -/
  claims : List.Forall₂
    (fun node claims => node.firstText? = some claims.1 ∧ node.dashTexts = claims.2)
    (nodesNamed "claims" nodes) fragment.claims
  /-- All lists of registered logins are put together. -/
  registered : fragment.registered = (nodesNamed "registered" nodes).flatMap Node.dashTexts
  /-- The rules are those that the texts are read as. -/
  rules : List.Forall₂
    (fun node rule => ∃ text, node.firstText? = some text ∧ Rule.parse text = .ok rule)
    (nodesNamed "rule" nodes) fragment.rules

theorem tells_nil : Tells [] .empty := ⟨.nil, .nil, rfl, .nil⟩

theorem Tells.append {more : List Node} {fragment' : Fragment} (h : Tells nodes fragment)
    (h' : Tells more fragment') : Tells (nodes ++ more) (fragment ++ fragment') := by
  have hnamed : ∀ name, nodesNamed name (nodes ++ more) =
      nodesNamed name nodes ++ nodesNamed name more := fun name => List.filter_append ..
  refine ⟨?_, ?_, ?_, ?_⟩
  · rw [hnamed, List.flatMap_append]
    exact List.rel_append h.entries h'.entries
  · rw [hnamed]
    exact List.rel_append h.claims h'.claims
  · rw [hnamed, List.flatMap_append, ← h.registered, ← h'.registered]
    rfl
  · rw [hnamed]
    exact List.rel_append h.rules h'.rules

theorem tells_of_readNode (h : readNode node = .ok fragment) : Tells [node] fragment := by
  rcases readNode_eq_ok_iff.mp h with ⟨hname, entries, hentries, rfl⟩ |
    ⟨hname, login, hlogin, -, rfl⟩ | ⟨hname, rfl⟩ | ⟨hname, text, rule, htext, hrule, rfl⟩ |
    ⟨hname, rfl⟩
  · have hall := mapM_eq_ok_iff.mp (mapM_readCatalogChild_eq_ok_iff.mp hentries).2
    refine ⟨?_, ?_, ?_, ?_⟩
    · simpa [nodesNamed_singleton, hname] using hall.imp fun _ _ => depicts_of_readEntry
    · simp [nodesNamed_singleton, hname, Fragment.empty]
    · simp [nodesNamed_singleton, hname, Fragment.empty]
    · simp [nodesNamed_singleton, hname, Fragment.empty]
  · constructor <;> simp [nodesNamed_singleton, hname, hlogin, Fragment.empty]
  · constructor <;> simp [nodesNamed_singleton, hname, Fragment.empty]
  · constructor <;> simp [nodesNamed_singleton, hname, htext, hrule, Fragment.empty]
  · obtain ⟨hcatalog, hclaims, hregistered, hrule⟩ := notMem_topNames.mp hname
    constructor <;>
      simp [nodesNamed_singleton, hcatalog, hclaims, hregistered, hrule, Fragment.empty]

/-- What the nodes say one by one, they say together. -/
theorem tells_concat {fragments : List Fragment} (h : nodes.mapM readNode = .ok fragments) :
    Tells nodes (.concat fragments) := by
  have hall := mapM_eq_ok_iff.mp h
  clear h
  induction hall with
  | nil => exact tells_nil
  | cons hnode _ ih => exact (tells_of_readNode hnode).append ih

theorem ofNodes_eq_ok_iff : Fragment.ofNodes nodes = .ok fragment ↔
    ∃ fragments, nodes.mapM readNode = .ok fragments ∧ fragment = .concat fragments := by
  rw [Fragment.ofNodes, bind_eq_ok_iff]
  simp only [Except.ok.injEq, eq_comm]

/-- **Which documents are policies, and what they say.**  The nodes of a document are read exactly
if each of them can stand at the top of a document.  The fragment then holds what they say, in the
order of the document: a branch for each entry node of a catalog, of the shape of the entry nodes
below it and with the data given there; the claims, each list with its login; the registered logins;
and the rules. -/
theorem exists_ofNodes_iff_and_tells (nodes : List Node) :
    ((∃ fragment, Fragment.ofNodes nodes = .ok fragment) ↔ ∀ node ∈ nodes, IsPolicyNode node) ∧
      ∀ fragment, Fragment.ofNodes nodes = .ok fragment → Tells nodes fragment := by
  simp only [ofNodes_eq_ok_iff]
  constructor
  · simp only [← exists_readNode_iff, ← exists_mapM_eq_ok_iff]
    constructor
    · rintro ⟨_, fragments, hfragments, -⟩
      exact ⟨fragments, hfragments⟩
    · rintro ⟨fragments, hfragments⟩
      exact ⟨_, fragments, hfragments, rfl⟩
  · rintro _ ⟨fragments, hfragments, rfl⟩
    exact tells_concat hfragments

/-- A catalog with a draft of a course, and a claim, a login and a rule. -/
def sampleNodes : List Node :=
  [.mk "catalog" []
      [.mk "entry" [⟨none, .string "courses"⟩]
        [.mk "entry" [⟨none, .string "web"⟩, ⟨some "draft", .bool true⟩] []]],
    .mk "claims" [⟨none, .string "bob"⟩] [.mk "-" [⟨none, .string "/courses"⟩] []],
    .mk "registered" [] [.mk "-" [⟨none, .string "bob"⟩] []],
    .mk "rule" [⟨none, .string "/courses"⟩] []]

/-- All of this is told. -/
theorem tells_sampleNodes :
    ∃ fragment, Fragment.ofNodes sampleNodes = .ok fragment ∧ Tells sampleNodes fragment := by
  have hread : ((Fragment.ofNodes sampleNodes).toOption).isSome = true := by
    decide +kernel
  obtain ⟨fragment, hfragment⟩ := Option.isSome_iff_exists.mp hread
  have h := toOption_eq_some_iff.mp hfragment
  exact ⟨fragment, h, (exists_ofNodes_iff_and_tells sampleNodes).2 fragment h⟩

/-- A catalog whose only entry has, below its authors, a node that has the name of entries. -/
def sampleAuthors : List Node :=
  [.mk "catalog" [] [.mk "entry" [⟨none, .string "a"⟩]
    [.mk "authors" [] [.mk "entry" [⟨none, .integer 5⟩] []]]]]

/-- Below an `authors` node, a node with the name of entries need not be in order. -/
theorem ofNodes_sampleAuthors :
    (∃ fragment, Fragment.ofNodes sampleAuthors = .ok fragment) ∧
      ∃ catalog ∈ sampleAuthors, catalog.name = "catalog" ∧
        ∃ node, Relation.TransGen (fun parent child => child ∈ parent.children) catalog node ∧
          node.name = "entry" ∧ node.firstText? = none := by
  refine ⟨⟨_, rfl⟩, _, List.mem_singleton_self _, rfl, .mk "entry" [⟨none, .integer 5⟩] [], ?_, rfl,
    rfl⟩
  exact ((Relation.TransGen.single (List.mem_singleton_self _)).tail
    (List.mem_singleton_self _)).tail (List.mem_singleton_self _)

end Policy

end CatalogGuard
