import CatalogGuard.Proofs.Claim.Admission
import Mathlib.Data.List.GetD
import Mathlib.Data.List.Infix
import Mathlib.Data.List.Nodup

/-!
# The states of an automaton of claims

What the labels of a list of claims are, and when a state is alive, said without the steps by which
graphs are made and followed.

The labels are the beginnings of what the claims spell out, each where it first appears.  A state is
alive behind links if these can be divided along its label: each pattern of the label takes one
link, and the links before, between and behind those are passed over, which is allowed only where
some claim has its `**`.  `Leads` says the same one link at a time.

That no state has two arcs with the same pattern does not follow from the description of the arcs by
labels, since that says which arcs there are and not how often they are listed.  It is an invariant
of its own, and needs no labels.

## Main definitions

* `beginnings` — the beginnings of what claims spell out, each of them once
* `Graph.Distinct` — no state has two arcs with the same pattern
* `Divides` — links are divided along a label

## Main results

* `labelsOf_eq_beginnings` — the labels of claims are the empty one and the beginnings
* `Graph.distinct_ofClaims` — in the graph of a list of claims, arcs differ in their patterns
* `leads_iff_divides` — links lead to a label exactly if they can be divided along it
* `states_ofClaims` — the states of an automaton of claims, and those that are alive
-/

namespace CatalogGuard.Claim

variable {claims : List String} {label : Label} {links : List String}

/-! ### Beginnings -/

/-- The beginnings of what claims spell out, but for the empty one: those of earlier claims first,
shorter ones first within a claim, and each where it first appears.  Parts of claims are the same
pattern only if they are the same text (`NamePattern.text_ofText`). -/
def beginnings (claims : List String) : List Label :=
  (claims.flatMap fun claim => (spelled claim).inits.tail).eraseDups

theorem labelsAlong_eq (label : Label) (patterns : List NamePattern) :
    labelsAlong label patterns = patterns.inits.tail.map (label ++ ·) := by
  induction patterns generalizing label with
  | nil => rfl
  | cons pattern patterns ih =>
    rw [labelsAlong, ih]
    cases patterns <;> simp [Function.comp_def]

/-- Labels that are added one by one are those of the whole list, each where it first appears. -/
theorem foldl_addLabel_eq (labels more : List Label) :
    more.foldl addLabel labels.eraseDups = (labels ++ more).eraseDups := by
  induction more using List.reverseRecOn with
  | nil => simp
  | append_singleton more label ih =>
    have hlast : (labels ++ more ++ [label]).eraseDups =
        (labels ++ more).eraseDups ++ ([label].removeAll (labels ++ more)).eraseDups :=
      List.eraseDups_append
    rw [List.foldl_append, ih, List.foldl_cons, List.foldl_nil, ← List.append_assoc, hlast]
    by_cases hmem : label ∈ labels ++ more
    · have hdrop : [label].removeAll (labels ++ more) = [] := by
        rw [List.removeAll, List.filter_eq_nil_iff]
        simpa [or_iff_not_imp_left] using hmem
      rw [addLabel_of_mem (List.mem_eraseDups.mpr hmem), hdrop, List.eraseDups_nil, List.append_nil]
    · have hkeep : [label].removeAll (labels ++ more) = [label] := by
        rw [List.removeAll, List.filter_eq_self]
        simpa using hmem
      rw [addLabel_of_notMem fun h => hmem (List.mem_eraseDups.mp h), hkeep]
      rfl

/-- **The labels of claims** are the empty one, for the start, and the beginnings. -/
theorem labelsOf_eq_beginnings (claims : List String) :
    labelsOf claims = [] :: beginnings claims := by
  have hall : claims.flatMap (fun claim => labelsAlong [] (spelled claim)) =
      claims.flatMap fun claim => (spelled claim).inits.tail := by
    simp [labelsAlong_eq]
  have hne : ∀ label ∈ claims.flatMap fun claim => (spelled claim).inits.tail,
      (!label == []) = true := by
    intro label hmem
    obtain ⟨claim, -, hlabel⟩ := List.mem_flatMap.mp hmem
    cases hs : spelled claim with
    | nil => simp [hs] at hlabel
    | cons pattern patterns =>
      rw [hs] at hlabel
      simp only [List.inits_cons, List.tail_cons, List.mem_map] at hlabel
      obtain ⟨more, -, rfl⟩ := hlabel
      rfl
  rw [labelsOf, hall]
  refine (foldl_addLabel_eq [[]] _).trans ?_
  rw [List.singleton_append, List.eraseDups_cons, List.filter_eq_self.mpr hne, beginnings]

/-! ### Arcs differ in their patterns -/

namespace Graph

variable {graph : Graph} {state : Nat}

/-- No state has two arcs with the same pattern. -/
def Distinct (graph : Graph) : Prop :=
  ∀ state, ((graph.arcs state).map Arc.pattern).Nodup

theorem distinct_start : start.Distinct := by
  intro state
  rcases state with _ | state <;> exact List.nodup_nil

/-- A new arc may be added where none has its pattern. -/
theorem Distinct.addArc (h : graph.Distinct) {arc : Arc}
    (hnew : ∀ other ∈ graph.arcs state, other.pattern ≠ arc.pattern) :
    (graph.addArc state arc).Distinct := by
  by_cases hlt : state < graph.states.length
  · intro other
    rw [arcs_addArc hlt]
    split
    · rw [List.map_append, List.map_singleton, List.nodup_append]
      refine ⟨h state, List.nodup_singleton _, ?_⟩
      intro pattern hold new hmem
      obtain ⟨old, hmemold, rfl⟩ := List.mem_map.mp hold
      exact List.mem_singleton.mp hmem ▸ hnew old hmemold
    · exact h other
  · rw [Graph.addArc, List.modify_eq_self (Nat.not_lt.mp hlt)]
    exact h

theorem Distinct.addLoop (h : graph.Distinct) (state : Nat) : (graph.addLoop state).Distinct := by
  rw [Graph.addLoop]
  split
  · exact h
  · next hany =>
    refine h.addArc fun other hmem hp => hany (List.any_eq_true.mpr ⟨other, hmem, ?_⟩)
    exact beq_iff_eq.mpr hp

theorem Distinct.grow (h : graph.Distinct) {pattern : NamePattern}
    (hnew : ∀ other ∈ graph.arcs state, other.pattern ≠ pattern) :
    (graph.grow state pattern).Distinct := by
  intro other
  rw [arcs_grow_eq]
  exact h.addArc hnew other

/-- Adding a claim looks for an arc before it makes one. -/
theorem Distinct.extend (h : graph.Distinct) (state : Nat) (patterns : List NamePattern) :
    (graph.extend state patterns).Distinct := by
  induction patterns generalizing graph state with
  | nil => exact h
  | cons pattern patterns ih =>
    by_cases hp : pattern = .anySequence
    · subst hp
      exact h.addLoop state
    · cases hf : (graph.arcs state).find? fun arc => arc.pattern == pattern with
      | some arc =>
        rw [extend_cons_of_some hp hf]
        exact ih h arc.target
      | none =>
        rw [extend_cons_of_none hp hf]
        refine ih (h.grow fun other hmem he => ?_) graph.states.length
        exact List.find?_eq_none.mp hf other hmem (beq_iff_eq.mpr he)

/-- **In the graph of a list of claims no state has two arcs with the same pattern**, however often
the claims repeat each other. -/
theorem distinct_ofClaims (claims : List String) : (ofClaims claims).Distinct :=
  List.foldlRecOn claims _ distinct_start fun _ h claim _ => h.extend 0 (patternsOf claim)

/-- Every arc leads to a state that is there. -/
theorem Spells.target_lt {labels : List Label} {loops : Label → Prop}
    (h : graph.Spells labels loops) {arc : Arc} (harc : arc ∈ graph.arcs state) :
    arc.target < graph.states.length := by
  by_cases hlt : state < labels.length
  · have hs : labels[state]? = some labels[state] := List.getElem?_eq_getElem hlt
    rcases (h.mem_arcs_iff hs arc).mp harc with ⟨rfl, -⟩ | ht
    · exact h.lt_length hs
    · exact h.lt_length ht
  · rw [arcs, List.getD_eq_default _ _ (h.length_eq ▸ Nat.not_lt.mp hlt)] at harc
    exact absurd harc List.not_mem_nil

end Graph

/-! ### Dividing links along a label -/

/-- Links are divided along a label: some come first, and then for each pattern of the label a link
that it takes, with the links that follow up to the next such link.  Where some links are passed
over, a claim has its `**` behind the part of the label that has been used up there. -/
def Divides (claims : List String) (label : Label) (links : List String) : Prop :=
  ∃ (first : List String) (taken : List (String × List String)),
    links = first ++ taken.flatMap (fun piece => piece.1 :: piece.2) ∧
      List.Forall₂ (fun pattern piece => pattern.accepts piece.1 = true) label taken ∧
      (first ≠ [] → Looped claims []) ∧
      ∀ place piece, taken[place]? = some piece → piece.2 ≠ [] →
        Looped claims (label.take (place + 1))

/-- Links may be passed over where a claim has its `**`; if there are none, anywhere. -/
theorem Leads.pass (h : Leads claims label links) {more : List String}
    (loop : more ≠ [] → Looped claims label) : Leads claims label (links ++ more) := by
  by_cases hm : more = []
  · rwa [hm, List.append_nil]
  · exact h.append (loop hm) more

/-- The links of a division lead along its label. -/
theorem Divides.leads (h : Divides claims label links) : Leads claims label links := by
  obtain ⟨first, taken, rfl, htaken, hfirst, hmore⟩ := h
  induction taken using List.reverseRecOn generalizing label with
  | nil =>
    obtain rfl := List.forall₂_nil_right_iff.mp htaken
    simpa using Leads.start.pass hfirst
  | append_singleton taken piece ih =>
    obtain ⟨before, pattern, rfl, hbefore, hpiece⟩ := forall₂_append_singleton_right.mp htaken
    have hlen : before.length = taken.length := hbefore.length_eq
    have hway : Leads claims before (first ++ taken.flatMap fun piece => piece.1 :: piece.2) := by
      refine ih hbefore fun place other ho hne => ?_
      have hlt : place < taken.length := (List.getElem?_eq_some_iff.mp ho).1
      have hloop := hmore place other (by rwa [List.getElem?_append_left hlt]) hne
      rwa [List.take_append_of_le_length (by omega)] at hloop
    have hlast : piece.2 ≠ [] → Looped claims (before ++ [pattern]) := by
      intro hne
      have hloop := hmore taken.length piece List.getElem?_concat_length hne
      rwa [List.take_of_length_le (by simp [hlen])] at hloop
    simpa using (hway.go hpiece).pass hlast

/-- Links that lead to a label are divided along it: a link that is passed over comes to the last
piece, and one that is taken begins a piece. -/
theorem Leads.divides (h : Leads claims label links) : Divides claims label links := by
  induction h with
  | start => exact ⟨[], [], rfl, .nil, fun hne => absurd rfl hne, by simp⟩
  | @stay label links link loop way ih =>
    obtain ⟨first, taken, rfl, htaken, hfirst, hmore⟩ := ih
    rcases List.eq_nil_or_concat taken with rfl | ⟨taken, piece, rfl⟩
    · obtain rfl := List.forall₂_nil_right_iff.mp htaken
      exact ⟨first ++ [link], [], by simp, .nil, fun _ => loop, by simp⟩
    · rw [List.concat_eq_append] at htaken hmore
      obtain ⟨before, pattern, rfl, hbefore, hpiece⟩ := forall₂_append_singleton_right.mp htaken
      refine ⟨first, taken ++ [(piece.1, piece.2 ++ [link])], by simp,
        forall₂_append_singleton_right.mpr ⟨before, pattern, rfl, hbefore, hpiece⟩, hfirst, ?_⟩
      intro place other ho hne
      rcases Graph.getElem?_append_singleton_eq_some.mp ho with ho | ⟨rfl, -⟩
      · exact hmore place other (Graph.getElem?_append_singleton_eq_some.mpr (Or.inl ho)) hne
      · rwa [List.take_of_length_le (by simp [hbefore.length_eq])]
  | @go label links pattern link taken way ih =>
    obtain ⟨first, pieces, rfl, hpieces, hfirst, hmore⟩ := ih
    refine ⟨first, pieces ++ [(link, [])], by simp,
      forall₂_append_singleton_right.mpr ⟨label, pattern, rfl, hpieces, taken⟩, hfirst, ?_⟩
    intro place other ho hne
    rcases Graph.getElem?_append_singleton_eq_some.mp ho with ho | ⟨-, rfl⟩
    · have hlt : place < pieces.length := (List.getElem?_eq_some_iff.mp ho).1
      rw [List.take_append_of_le_length (by rw [hpieces.length_eq]; omega)]
      exact hmore place other ho hne
    · exact absurd rfl hne

/-- **Links lead to a label exactly if they can be divided along it.** -/
theorem leads_iff_divides : Leads claims label links ↔ Divides claims label links :=
  ⟨Leads.divides, Divides.leads⟩

/-! ### The live states as a list -/

namespace Automaton

theorem live_ofLive (graph : Graph) (live : List Nat) : (ofLive graph live).live = live := by
  cases live <;> rfl

theorem ofLive_eq_rejecting_iff {graph : Graph} {live : List Nat} :
    ofLive graph live = .rejecting ↔ live = [] := by
  cases live <;> simp [ofLive]

theorem live_run_ofClaims (claims links : List String) :
    ((ofClaims claims).run links).live = links.foldl (successors (.ofClaims claims)) [0] := by
  rw [ofClaims_eq, run_ofLive, live_ofLive]

/-- Successors are picked from the numbers of all states, so that they stay in order. -/
theorem pairwise_foldl_successors (graph : Graph) {live : List Nat} (h : live.Pairwise (· < ·))
    (links : List String) : (links.foldl (successors graph) live).Pairwise (· < ·) := by
  induction links generalizing live with
  | nil => exact h
  | cons link links ih => exact ih (List.pairwise_lt_range.filter _)

/-- Once no state is left, none is left behind any further links. -/
theorem live_run_eq_nil_iff (claims links : List String) :
    ((ofClaims claims).run links).live = [] ↔
      ∀ more, (ofClaims claims).run (links ++ more) = .rejecting := by
  have hrejecting : ((ofClaims claims).run links).live = [] ↔
      (ofClaims claims).run links = .rejecting := by
    rw [ofClaims_eq, run_ofLive, live_ofLive, ofLive_eq_rejecting_iff]
  rw [hrejecting]
  constructor
  · intro h more
    rw [run, List.foldl_append]
    exact h ▸ run_rejecting more
  · intro h
    simpa using h []

end Automaton

/-- **The states of an automaton of claims.**  Beside the start there is one state for each
beginning of the claims, and the states are numbered in the order of the beginnings.  Arcs lead to
longer beginnings, or from a state to itself where some claim has its `**`; those of one state
differ in their patterns, and none leads nowhere.  Behind links, the live states stand in ascending
order, and they are those whose beginnings the links can be divided along; if there are none, the
automaton rejects whatever follows. -/
theorem states_ofClaims (claims : List String) :
    (Automaton.ofClaims claims).stateCount = 1 + (beginnings claims).length ∧
      (∀ state label, ([] :: beginnings claims)[state]? = some label → ∀ arc,
        arc ∈ (Graph.ofClaims claims).arcs state ↔
          arc = ⟨.anySequence, state⟩ ∧ Looped claims label ∨
            ([] :: beginnings claims)[arc.target]? = some (label ++ [arc.pattern])) ∧
      (∀ state, (((Graph.ofClaims claims).arcs state).map Arc.pattern).Nodup ∧
        ∀ arc ∈ (Graph.ofClaims claims).arcs state,
          arc.target < (Automaton.ofClaims claims).stateCount) ∧
      ∀ links,
        ((Automaton.ofClaims claims).run links).live.Pairwise (· < ·) ∧
          (∀ state, state ∈ ((Automaton.ofClaims claims).run links).live ↔
            ∃ label, ([] :: beginnings claims)[state]? = some label ∧
              Divides claims label links) ∧
          (((Automaton.ofClaims claims).run links).live = [] ↔
            ∀ more, (Automaton.ofClaims claims).run (links ++ more) = .rejecting) := by
  have hspells : (Graph.ofClaims claims).Spells ([] :: beginnings claims) (Looped claims) :=
    labelsOf_eq_beginnings claims ▸ Graph.spells_ofClaims claims
  refine ⟨hspells.length_eq.trans (Nat.add_comm _ _), fun state label hs => hspells.mem_arcs_iff hs,
    fun state => ⟨Graph.distinct_ofClaims claims state, fun arc => hspells.target_lt⟩, ?_⟩
  intro links
  refine ⟨?_, ?_, Automaton.live_run_eq_nil_iff claims links⟩
  · rw [Automaton.live_run_ofClaims]
    exact Automaton.pairwise_foldl_successors _ (List.pairwise_singleton _ _) links
  · intro state
    simp only [Automaton.live_run_ofClaims, mem_live_iff, labelsOf_eq_beginnings, leads_iff_divides]

example : (Automaton.ofClaims ["/a/**/c", "/a/b", "/a/b"]).stateCount = 3 ∧
    ((Automaton.ofClaims ["/a/**/c", "/a/b", "/a/b"]).run ["a", "b"]).live = [1, 2] := by decide

end CatalogGuard.Claim
