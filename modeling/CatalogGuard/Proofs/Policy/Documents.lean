import CatalogGuard.Proofs.Policy.Nodes

/-!
# Catalogs from documents

That no two siblings share a name is seen to in two places.  Within an entry it is the reader of a
document that refuses a second child of a name; below the root, where the entries may come from many
nodes of many documents, it is the merge of the fragments.  The two together leave no level out, so
that every entry of a policy from documents can be located by its names.

## Main results

* `isOrderlyChild_of_readEntry` — an entry that is read is orderly, and named by a part of a path
* `orderly_of_documents` — the catalog of documents is orderly
* `locate?_of_documents` — every position is located by the path of its names, and by no other's
-/

namespace CatalogGuard.Policy

open Catalog (IsPart)
open Kdl (Node Value)

variable {name text : String} {entry entry' : Entry} {branch : Branch} {children : List Branch}
  {fragment : Fragment} {fragments : List Fragment} {policy : Policy} {node : Node}
  {nodes : List Node} {texts : List String}

/-- A branch that can stand below an orderly one. -/
structure IsOrderlyChild (branch : Branch) : Prop where
  /-- Its name can stand between the slashes of a path. -/
  name : IsPart branch.name
  /-- So can its link. -/
  link : IsPart branch.entry.link
  /-- No two siblings below it share a name. -/
  orderly : branch.Orderly

theorem orderly_node (hdistinct : (children.map Branch.name).Nodup)
    (hchildren : ∀ child ∈ children, IsOrderlyChild child) :
    Branch.Orderly (.node entry children) :=
  .node hdistinct (fun child hmem => ⟨(hchildren child hmem).name, (hchildren child hmem).link⟩)
    fun child hmem => (hchildren child hmem).orderly

/-! ### Single entries -/

/-- Reading a property leaves the name, and makes no link but of a part of a path. -/
theorem isPart_of_applyProperty {key : String} {value : Value}
    (h : applyProperty entry key value = .ok entry') (hlink : IsPart entry.link) :
    entry'.name = entry.name ∧ IsPart entry'.link := by
  rcases applyProperty_eq_ok_iff.mp h with ⟨-, level, -, rfl⟩ | ⟨-, draft, -, rfl⟩ |
    ⟨-, link, -, hpart, rfl⟩ | ⟨-, rfl⟩
  · exact ⟨rfl, hlink⟩
  · exact ⟨rfl, hlink⟩
  · exact ⟨rfl, hpart⟩
  · exact ⟨rfl, hlink⟩

/-- Reading the arguments and properties of an entry leaves its name, too. -/
theorem isPart_of_applyItems {items : List Kdl.Item}
    (h : items.foldlM applyItem (.named name) = .ok entry) (hname : IsPart name) :
    entry.name = name ∧ IsPart entry.link := by
  refine foldlM_induction (motive := fun entry => entry.name = name ∧ IsPart entry.link)
    (fun entry item entry' hitem hentry => ?_) h ⟨rfl, hname⟩
  rw [applyItem] at hitem
  split at hitem
  · obtain rfl := Except.ok.inj hitem
    exact hentry
  · obtain ⟨heq, hlink⟩ := isPart_of_applyProperty hitem hentry.2
    exact ⟨heq.trans hentry.1, hlink⟩

/-- **An entry that is read is orderly**, and can stand below another one. -/
theorem isOrderlyChild_of_readEntry (h : readEntry node = .ok branch) : IsOrderlyChild branch := by
  induction node using Kdl.Node.induction_below generalizing branch with
  | _ node ih =>
    obtain ⟨name, entry, children, -, hname, hentry, -, hchildren, hdistinct, rfl⟩ :=
      readEntry_eq_ok_iff.mp h
    obtain ⟨heq, hlink⟩ := isPart_of_applyItems hentry hname
    refine ⟨heq ▸ hname, hlink, orderly_node hdistinct fun child hmem => ?_⟩
    obtain ⟨below, hbelow, hchild⟩ := exists_of_mem_mapM hchildren hmem
    exact ih below (mem_nodesNamed.mp hbelow).1 hchild

/-! ### Documents -/

/-- Only the nodes of a catalog contribute entries. -/
theorem isOrderlyChild_of_readNode (h : readNode node = .ok fragment) :
    ∀ branch ∈ fragment.entries, IsOrderlyChild branch := by
  have hnone : ∀ branch ∈ Fragment.empty.entries, IsOrderlyChild branch :=
    fun _ hmem => absurd hmem List.not_mem_nil
  rcases readNode_eq_ok_iff.mp h with ⟨-, entries, hentries, rfl⟩ | ⟨-, login, -, -, rfl⟩ |
    ⟨-, rfl⟩ | ⟨-, text, rule, -, -, rfl⟩ | ⟨-, rfl⟩
  · intro branch hmem
    obtain ⟨child, -, hchild⟩ := exists_of_mem_mapM hentries hmem
    exact isOrderlyChild_of_readEntry (readCatalogChild_eq_ok_iff.mp hchild).2
  · exact hnone
  · exact hnone
  · exact hnone
  · exact hnone

theorem isOrderlyChild_of_ofNodes (h : Fragment.ofNodes nodes = .ok fragment) :
    ∀ branch ∈ fragment.entries, IsOrderlyChild branch := by
  obtain ⟨fragments, hfragments, rfl⟩ := ofNodes_eq_ok_iff.mp h
  rw [Fragment.concat_eq]
  intro branch hmem
  obtain ⟨fragment, hf, hbranch⟩ := List.mem_flatMap.mp hmem
  obtain ⟨node, -, hnode⟩ := exists_of_mem_mapM hfragments hf
  exact isOrderlyChild_of_readNode hnode branch hbranch

theorem isOrderlyChild_of_parse (h : Fragment.parse text = .ok fragment) :
    ∀ branch ∈ fragment.entries, IsOrderlyChild branch := by
  unfold Fragment.parse at h
  split at h
  · cases h
  · exact isOrderlyChild_of_ofNodes h

/-- **The catalog of documents is orderly**, at the level below the root and at all others. -/
theorem orderly_of_documents (htexts : texts.mapM Fragment.parse = .ok fragments)
    (h : ofFragments fragments = .ok policy) : policy.catalog.root.Orderly := by
  obtain ⟨hnone, rfl⟩ := ofFragments_eq_ok_iff.mp h
  refine orderly_node (firstRepeated?_eq_none_iff.mp hnone) fun branch hmem => ?_
  obtain ⟨fragment, hf, hbranch⟩ := List.mem_flatMap.mp hmem
  obtain ⟨text, -, htext⟩ := exists_of_mem_mapM htexts hf
  exact isOrderlyChild_of_parse htext branch hbranch

/-- **Every position has a path of names of its own.**  Of a catalog from documents, take any
position, given by the places of the branches on the way down.  The names of its children are
distinct; the names and links on the way to it are not empty and have no slash; the names on the
way, with slashes between them, locate this very position, and go on to do so with further slashes;
and the names on the way to other places do not make the same path. -/
theorem locate?_of_documents (htexts : texts.mapM Fragment.parse = .ok fragments)
    (h : ofFragments fragments = .ok policy) {places : List Nat} {position : Position}
    (hf : policy.catalog.top.follow? places = some position) :
    (position.here.children.map Branch.name).Nodup ∧
      (∀ entry ∈ position.belowRoot, (entry.name ≠ "" ∧ '/' ∉ entry.name.toList) ∧
        entry.link ≠ "" ∧ '/' ∉ entry.link.toList) ∧
      policy.catalog.locate? ("/".intercalate position.names) = some position ∧
      (∀ path : String,
        Text.MoreSlashes ("/".intercalate position.names).toList path.toList →
          policy.catalog.locate? path = some position) ∧
      ∀ (places' : List Nat) (position' : Position),
        policy.catalog.top.follow? places' = some position' →
          "/".intercalate position'.names = "/".intercalate position.names → places' = places := by
  have horderly := orderly_of_documents htexts h
  obtain ⟨entries, hpath, -, hhere, hparts⟩ := Position.descend?_of_follow? horderly hf
  have hbelow : position.belowRoot = entries := congrArg List.tail hpath
  have hlocate := Catalog.locate?_of_follow? horderly hf .refl
  refine ⟨hhere.nodup, hbelow ▸ hparts, hlocate,
    fun path => Catalog.locate?_of_follow? horderly hf, fun places' position' hf' hjoined => ?_⟩
  have hlocate' := Catalog.locate?_of_follow? horderly hf' .refl
  rw [hjoined, hlocate] at hlocate'
  obtain rfl := Option.some.inj hlocate'
  exact Catalog.places_eq_of_names_eq horderly hf hf' rfl

/-- The names on the way to a position of a catalog from documents. -/
def namesAt? (texts : List String) (places : List Nat) : Option (List String) := do
  let fragments ← (texts.mapM Fragment.parse).toOption
  let policy ← (ofFragments fragments).toOption
  let position ← policy.catalog.top.follow? places
  some position.names

theorem exists_of_namesAt?_eq_some {places : List Nat} {names : List String}
    (h : namesAt? texts places = some names) : ∃ fragments policy position,
      texts.mapM Fragment.parse = .ok fragments ∧ ofFragments fragments = .ok policy ∧
        policy.catalog.top.follow? places = some position ∧ position.names = names := by
  obtain ⟨fragments, hfragments, h⟩ := Option.bind_eq_some_iff.mp h
  obtain ⟨policy, hpolicy, h⟩ := Option.bind_eq_some_iff.mp h
  obtain ⟨position, hposition, h⟩ := Option.bind_eq_some_iff.mp h
  exact ⟨fragments, policy, position, toOption_eq_some_iff.mp hfragments,
    toOption_eq_some_iff.mp hpolicy, hposition, Option.some.inj h⟩

/-- Two documents with a catalog each. -/
def sampleTexts : List String :=
  ["catalog { entry courses { entry web; entry db } }", "catalog { entry news link=n }"]

/-- The second child of the first branch is located by its names, with slashes to spare. -/
theorem locate?_sampleTexts : ∃ fragments policy position,
    sampleTexts.mapM Fragment.parse = .ok fragments ∧ ofFragments fragments = .ok policy ∧
      policy.catalog.top.follow? [0, 1] = some position ∧
      policy.catalog.locate? "//courses///db/" = some position := by
  have hread : namesAt? sampleTexts [0, 1] = some ["courses", "db"] := by decide +kernel
  obtain ⟨fragments, policy, position, hfragments, hpolicy, hposition, hnames⟩ :=
    exists_of_namesAt?_eq_some hread
  have hmore : Text.MoreSlashes ("/".intercalate position.names).toList
      "//courses///db/".toList := by
    have hdb := @Text.MoreSlashes.refl "courses/db".toList
    have hdb := @Text.MoreSlashes.beside _ "courses".toList "db".toList hdb
    have hdb := @Text.MoreSlashes.beside _ "courses".toList ('/' :: "db".toList) hdb
    rw [hnames]
    exact hdb.start.start.stop
  have hlocated := (locate?_of_documents hfragments hpolicy hposition).2.2.2.1 _ hmore
  exact ⟨fragments, policy, position, hfragments, hpolicy, hposition, hlocated⟩

end CatalogGuard.Policy
