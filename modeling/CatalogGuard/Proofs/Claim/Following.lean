import CatalogGuard.Claim.Automaton
import CatalogGuard.Proofs.Claim.Trie
import Mathlib.Data.List.Induction

/-!
# Where links lead

The automaton of a list of claims keeps the states that the links followed so far may have led to.
In terms of labels: a link either lengthens a label by a pattern that takes it, or leaves a looped
label as it is.  `Leads` is that relation, and says nothing of graphs and numbers of states.

A state that is alive may well belong to a claim that has been left: a `**` of one claim keeps a
state alive that other claims pass through too.  `Leads` allows the same, so that the two agree
without exception; that no path is admitted by mistake is then a matter of labels alone.

## Main definitions

* `Automaton.ofLive` — the automaton of a set of live states, rejecting if there are none
* `Leads` — the labels that links may lead to

## Main results

* `Automaton.run_ofLive` — following links is a fold over live states
* `mem_live_iff` — the live states are those whose label the links may lead to
-/

namespace CatalogGuard.Claim

namespace Automaton

variable {graph : Graph} {live : List Nat} {link : String}

/-! ### Live states -/

/-- The automaton with the given live states. -/
def ofLive (graph : Graph) : List Nat → Automaton
  | [] => .rejecting
  | state :: more => .running graph (state :: more)

theorem ofClaims_eq (claims : List String) : ofClaims claims = ofLive (.ofClaims claims) [0] := rfl

theorem accepts_ofLive : (ofLive graph live).accepts = true ↔ ∃ state, state ∈ live := by
  cases live with
  | nil => simp [ofLive, accepts]
  | cons state more => exact ⟨fun _ => ⟨state, List.mem_cons_self⟩, fun _ => rfl⟩

theorem mem_successors {target : Nat} :
    target ∈ successors graph live link ↔
      target < graph.states.length ∧ ∃ state ∈ live, ∃ arc ∈ graph.arcs state,
        arc.target = target ∧ arc.pattern.accepts link = true := by
  simp [successors, reaches, NamePattern.accepts_toGlob]

theorem step_ofLive (graph : Graph) (live : List Nat) (link : String) :
    (ofLive graph live).step link = ofLive graph (successors graph live link) := by
  cases live with
  | nil =>
    have : successors graph [] link = [] := by simp [successors, reaches]
    rw [this]
    rfl
  | cons state more =>
    rw [ofLive, step]
    cases successors graph (state :: more) link <;> rfl

/-- Following links is a fold over live states. -/
theorem run_ofLive (graph : Graph) (live : List Nat) (links : List String) :
    (ofLive graph live).run links = ofLive graph (links.foldl (successors graph) live) := by
  induction links generalizing live with
  | nil => rfl
  | cons link links ih =>
    rw [run, List.foldl_cons, step_ofLive, List.foldl_cons]
    exact ih (successors graph live link)

/-- No link revives the rejecting automaton. -/
theorem run_rejecting (links : List String) : rejecting.run links = .rejecting := by
  induction links with
  | nil => rfl
  | cons link links ih => exact ih

end Automaton

/-! ### Labels -/

variable {claims : List String} {label : Label} {links : List String}

/-- Links may lead to a label. -/
inductive Leads (claims : List String) : Label → List String → Prop where
  /-- No link leads to the start. -/
  | start : Leads claims [] []
  /-- Where some claim has its `**`, a link may be passed over. -/
  | stay {label : Label} {links : List String} (link : String) (loop : Looped claims label)
      (before : Leads claims label links) : Leads claims label (links ++ [link])
  /-- A link may be taken by a pattern. -/
  | go {label : Label} {links : List String} {pattern : NamePattern} {link : String}
      (taken : pattern.accepts link = true) (before : Leads claims label links) :
      Leads claims (label ++ [pattern]) (links ++ [link])

/-- The last link that leads to a label is passed over or taken. -/
theorem leads_append_singleton {link : String} :
    Leads claims label (links ++ [link]) ↔
      Leads claims label links ∧ Looped claims label ∨
        ∃ before pattern, label = before ++ [pattern] ∧ Leads claims before links ∧
          pattern.accepts link = true := by
  constructor
  · generalize hl : links ++ [link] = all
    rintro (_ | ⟨_, loop, before⟩ | ⟨taken, before⟩)
    · simp at hl
    · obtain ⟨rfl, rfl⟩ := List.append_singleton_inj.mp hl
      exact Or.inl ⟨before, loop⟩
    · obtain ⟨rfl, rfl⟩ := List.append_singleton_inj.mp hl
      exact Or.inr ⟨_, _, rfl, before, taken⟩
  · rintro (⟨before, loop⟩ | ⟨before, pattern, rfl, hb, taken⟩)
    · exact .stay link loop before
    · exact .go taken hb

theorem leads_nil : Leads claims label [] ↔ label = [] := by
  constructor
  · generalize hl : ([] : List String) = all
    rintro (_ | _ | _)
    · rfl
    · simp at hl
    · simp at hl
  · rintro rfl
    exact .start

/-- **What is alive.**  Behind links, the live states of an automaton of claims are those with a
label that the links may lead to. -/
theorem mem_live_iff {state : Nat} :
    state ∈ links.foldl (Automaton.successors (.ofClaims claims)) [0] ↔
      ∃ label, (labelsOf claims)[state]? = some label ∧ Leads claims label links := by
  have hg := Graph.spells_ofClaims claims
  induction links using List.reverseRecOn generalizing state with
  | nil =>
    rw [List.foldl_nil, List.mem_singleton]
    constructor
    · rintro rfl
      exact ⟨[], hg.start, .start⟩
    · rintro ⟨label, hs, hl⟩
      exact hg.eq_of_label hs (leads_nil.mp hl ▸ hg.start)
  | append_singleton links link ih =>
    rw [List.foldl_append, List.foldl_cons, List.foldl_nil, Automaton.mem_successors]
    simp only [ih, leads_append_singleton]
    constructor
    · rintro ⟨-, before, ⟨label, hs, hl⟩, arc, harc, rfl, taken⟩
      rcases (hg.mem_arcs_iff hs arc).mp harc with ⟨rfl, loop⟩ | ht
      · exact ⟨label, hs, Or.inl ⟨hl, loop⟩⟩
      · exact ⟨_, ht, Or.inr ⟨label, arc.pattern, rfl, hl, taken⟩⟩
    · rintro ⟨label, hs, ⟨hl, loop⟩ | ⟨before, pattern, rfl, hl, taken⟩⟩
      · exact ⟨hg.lt_length hs, state, ⟨label, hs, hl⟩, ⟨.anySequence, state⟩,
          (hg.mem_arcs_iff hs _).mpr (Or.inl ⟨rfl, loop⟩), rfl, rfl⟩
      · obtain ⟨source, hb⟩ :=
          List.getElem?_of_mem (hg.mem_of_append (List.mem_of_getElem? hs))
        exact ⟨hg.lt_length hs, source, ⟨before, hb, hl⟩, ⟨pattern, state⟩,
          (hg.mem_arcs_iff hb _).mpr (Or.inr hs), rfl, taken⟩

/-- An automaton of claims accepts links exactly if they may lead to one of its labels. -/
theorem accepts_run_iff_leads :
    ((Automaton.ofClaims claims).run links).accepts = true ↔
      ∃ label ∈ labelsOf claims, Leads claims label links := by
  rw [Automaton.ofClaims_eq, Automaton.run_ofLive, Automaton.accepts_ofLive]
  simp only [mem_live_iff]
  constructor
  · rintro ⟨state, label, hs, hl⟩
    exact ⟨label, List.mem_of_getElem? hs, hl⟩
  · rintro ⟨label, hmem, hl⟩
    obtain ⟨state, hs⟩ := List.getElem?_of_mem hmem
    exact ⟨state, label, hs, hl⟩

end CatalogGuard.Claim
