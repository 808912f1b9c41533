import CatalogGuard.Proofs.Policy.Documents

/-!
# Where documents are cut

A document is a sequence of nodes, and a policy is made of several documents.  Reading takes the
nodes one after the other and looks at nothing but the node; merging appends what was read.  So it
makes no difference where a sequence of nodes is cut into documents: the reader and the merge both
turn a concatenation into a concatenation.

What is wrong with a node is found before the fragments are merged, and so before an entry is found
to be defined twice, on whichever side of a cut the two are.

## Main definitions

* `ofDocuments`, `ofTexts` — the policy of documents that are read one by one and then merged

## Main results

* `Fragment.ofNodes_append`, `Fragment.ofNodes_flatten` — reading respects concatenation
* `ofFragments_concat` — so does merging
* `ofDocuments_eq_error_iff` — the first node that is refused decides, and only then a repeated name
* `ofDocuments_eq_flatten` — cuts do not matter
-/

namespace CatalogGuard.Policy

open Kdl (Node)

variable {nodes : List Node} {documents : List (List Node)} {text : String} {texts : List String}
  {error : Error}

/-- The policy of documents, which are read in order and then merged. -/
def ofDocuments (documents : List (List Node)) : Except Error Policy := do
  ofFragments (← documents.mapM Fragment.ofNodes)

/-- The policy of the texts of documents. -/
def ofTexts (texts : List String) : Except Error Policy := do
  ofFragments (← texts.mapM Fragment.parse)

/-! ### Merging -/

theorem Fragment.append_empty (fragment : Fragment) : fragment ++ Fragment.empty = fragment := by
  show Fragment.mk _ _ _ _ = fragment
  simp only [Fragment.empty, List.append_nil]

theorem Fragment.concat_singleton (fragment : Fragment) : Fragment.concat [fragment] = fragment :=
  fragment.append_empty

theorem Fragment.concat_append (fragments more : List Fragment) :
    Fragment.concat (fragments ++ more) = Fragment.concat fragments ++ Fragment.concat more := by
  simp only [Fragment.concat_eq, List.flatMap_append]
  rfl

/-- **Merging respects concatenation**: fragments may be put together before they are merged. -/
theorem ofFragments_concat (fragments : List Fragment) :
    ofFragments [Fragment.concat fragments] = ofFragments fragments := by
  rw [ofFragments, Fragment.concat_singleton, ofFragments]

/-! ### Reading -/

/-- **Reading respects concatenation.** -/
theorem Fragment.ofNodes_append (nodes more : List Node) :
    Fragment.ofNodes (nodes ++ more) = (do
      let fragment ← Fragment.ofNodes nodes
      let fragment' ← Fragment.ofNodes more
      .ok (fragment ++ fragment')) := by
  simp only [Fragment.ofNodes, List.mapM_append]
  cases nodes.mapM readNode with
  | error fault => rfl
  | ok read =>
    cases more.mapM readNode with
    | error fault => rfl
    | ok read' => exact congrArg Except.ok (Fragment.concat_append read read')

/-- Documents that are read one by one hold together what their nodes hold. -/
theorem Fragment.ofNodes_flatten (documents : List (List Node)) :
    Fragment.ofNodes documents.flatten = (do
      .ok (Fragment.concat (← documents.mapM Fragment.ofNodes))) := by
  induction documents with
  | nil => rfl
  | cons nodes documents ih =>
    rw [List.flatten_cons, Fragment.ofNodes_append, ih, List.mapM_cons]
    cases Fragment.ofNodes nodes with
    | error fault => rfl
    | ok fragment =>
      cases documents.mapM Fragment.ofNodes with
      | error fault => rfl
      | ok fragments => rfl

/-- The policy of documents is that of their nodes, read one by one. -/
theorem ofDocuments_eq (documents : List (List Node)) :
    ofDocuments documents = (do ofFragments (← documents.flatten.mapM readNode)) := by
  have hmerge : ofDocuments documents =
      (do ofFragments [← Fragment.ofNodes documents.flatten]) := by
    rw [ofDocuments, Fragment.ofNodes_flatten]
    cases documents.mapM Fragment.ofNodes with
    | error fault => rfl
    | ok fragments => exact (ofFragments_concat fragments).symm
  rw [hmerge, Fragment.ofNodes]
  cases documents.flatten.mapM readNode with
  | error fault => rfl
  | ok fragments => exact ofFragments_concat fragments

/-- **What is wrong with documents**: the first node that is refused, in whichever document it
stands, and only if there is none, the first name that is repeated at the top of the catalog. -/
theorem ofDocuments_eq_error_iff :
    ofDocuments documents = .error error ↔
      (∃ before node after, documents.flatten = before ++ node :: after ∧
        (∀ earlier ∈ before, ∃ read, readNode earlier = .ok read) ∧
        readNode node = .error error) ∨
      ∃ fragments name, documents.flatten.mapM readNode = .ok fragments ∧
        IsFirstRepeated ((fragments.flatMap Fragment.entries).map Branch.name) name ∧
        error = .entry (.repeated name) := by
  rw [ofDocuments_eq, bind_eq_error_iff, mapM_eq_error_iff]
  simp only [ofFragments_eq_error_iff, exists_and_left]

/-! ### Texts -/

theorem parse_of_nodes (h : Kdl.parse? text = some nodes) :
    Fragment.parse text = Fragment.ofNodes nodes := by
  unfold Fragment.parse
  rw [h]

theorem ofTexts_eq_ofDocuments (h : texts.mapM Kdl.parse? = some documents) :
    ofTexts texts = ofDocuments documents := by
  have hread : texts.mapM Fragment.parse = documents.mapM Fragment.ofNodes := by
    induction texts generalizing documents with
    | nil =>
      obtain rfl := Option.some.inj h
      rfl
    | cons text texts ih =>
      rw [List.mapM_cons] at h
      obtain ⟨nodes, hnodes, h⟩ := Option.bind_eq_some_iff.mp h
      obtain ⟨documents, hdocuments, h⟩ := Option.bind_eq_some_iff.mp h
      obtain rfl := Option.some.inj h
      rw [List.mapM_cons, List.mapM_cons, parse_of_nodes hnodes, ih hdocuments]
  rw [ofTexts, ofDocuments, hread]

/-- **Cuts do not matter.**  A sequence of nodes makes the same policy, or is refused for the same
reason, whether it is read as one document or cut into any number of consecutive ones, of which some
may be empty.  The reason is the first node that is refused, wherever the cuts are; only if all
nodes are read it is the first name that is repeated.  The texts of such documents likewise make the
same policy as a text of all nodes. -/
theorem ofDocuments_eq_flatten (documents : List (List Node)) :
    ofDocuments documents = ofDocuments [documents.flatten] ∧
      (∀ error, ofDocuments documents = .error error ↔
        (∃ before node after, documents.flatten = before ++ node :: after ∧
          (∀ earlier ∈ before, ∃ read, readNode earlier = .ok read) ∧
          readNode node = .error error) ∨
        ∃ fragments name, documents.flatten.mapM readNode = .ok fragments ∧
          IsFirstRepeated ((fragments.flatMap Fragment.entries).map Branch.name) name ∧
          error = .entry (.repeated name)) ∧
      ∀ texts whole, texts.mapM Kdl.parse? = some documents →
        Kdl.parse? whole = some documents.flatten → ofTexts texts = ofTexts [whole] := by
  have hcut : ofDocuments documents = ofDocuments [documents.flatten] := by
    rw [ofDocuments_eq, ofDocuments_eq, List.flatten_singleton]
  refine ⟨hcut, fun error => ofDocuments_eq_error_iff, fun texts whole htexts hwhole => ?_⟩
  have hone : [whole].mapM Kdl.parse? = some [documents.flatten] := by
    rw [List.mapM_cons, hwhole]
    rfl
  rw [ofTexts_eq_ofDocuments htexts, ofTexts_eq_ofDocuments hone, hcut]

/-- Three documents; a login has claims in the first and the last, which also registers it, and the
one between is empty. -/
def cutTexts : List String :=
  ["claims bob \x7b - \"/courses/web\" \x7d\nrule \"/courses\"", "",
    "registered \x7b - bob \x7d; claims bob \x7b - \"/news\" \x7d"]

/-- The same nodes in one document. -/
def uncutText : String :=
  "claims bob \x7b - \"/courses/web\" \x7d\nrule \"/courses\"\n" ++
    "registered \x7b - bob \x7d; claims bob \x7b - \"/news\" \x7d"

/-- The two make the same policy, and they do make one, with the claims of both documents. -/
theorem ofTexts_cutTexts : ∃ documents, cutTexts.mapM Kdl.parse? = some documents ∧
    Kdl.parse? uncutText = some documents.flatten ∧ ofTexts cutTexts = ofTexts [uncutText] ∧
      ∃ policy, ofTexts cutTexts = .ok policy ∧
        policy.claimsOf "bob" = ["/courses/web", "/news"] ∧ policy.registered = ["bob"] := by
  have hread : (Kdl.parse? uncutText).isSome = true ∧
      (cutTexts.mapM Kdl.parse?).map List.flatten = Kdl.parse? uncutText ∧
      (ofTexts cutTexts).toOption.map (fun policy => (policy.claimsOf "bob", policy.registered)) =
        some (["/courses/web", "/news"], ["bob"]) := by decide +kernel
  obtain ⟨hsome, hsame, hheld⟩ := hread
  obtain ⟨nodes, hnodes⟩ := Option.isSome_iff_exists.mp hsome
  obtain ⟨documents, htexts, rfl⟩ := Option.map_eq_some_iff.mp (hsame.trans hnodes)
  obtain ⟨policy, hpolicy, hparts⟩ := Option.map_eq_some_iff.mp hheld
  obtain ⟨hclaims, hregistered⟩ := Prod.mk.inj hparts
  exact ⟨documents, htexts, hnodes, (ofDocuments_eq_flatten documents).2.2 _ _ htexts hnodes,
    policy, toOption_eq_some_iff.mp hpolicy, hclaims, hregistered⟩

end CatalogGuard.Policy
