import CatalogGuard.Claim.Graph

/-!
# The states of a claim graph as labels

Adding claims to a graph changes it in place, along arcs that earlier claims have left there.  What
comes out is nevertheless easy to say: a state stands for the patterns that lead to it, its *label*,
and the labels are the beginnings of the claims, each of them once.

## The invariant

`Graph.Spells graph labels loops` says that the states of `graph` stand for `labels`, in order, and
that the states whose label satisfies `loops` have an arc to themselves.  The arcs of a state are
given by an equivalence, so that the invariant determines the graph up to the order of the arcs.
It is not a definition of well-formed graphs that later statements carry around: it is proved once,
of the graph of a list of claims.

## Main definitions

* `spelled`, `IsOpen` — what a claim spells out before its first `**`, and whether it has one
* `labelsOf` — the labels of a list of claims, in the order in which they first appear
* `Graph.Spells` — a graph stands for labels

## Main results

* `mem_labelsOf` — the labels are the beginnings of what the claims spell out
* `Graph.spells_ofClaims` — the graph of a list of claims stands for its labels
-/

namespace CatalogGuard.Claim

/-- The patterns on the way from the start to a state. -/
abbrev Label := List NamePattern

/-- The patterns a claim spells out: those before its first `**`. -/
def spelled (claim : String) : Label := (Graph.patternsOf claim).takeWhile (· != .anySequence)

/-- Whether a claim has a `**`, so that it goes on without end. -/
def IsOpen (claim : String) : Prop := .anySequence ∈ Graph.patternsOf claim

/-! ### Labels -/

/-- Adds a label unless it is there. -/
def addLabel (labels : List Label) (label : Label) : List Label :=
  if label ∈ labels then labels else labels ++ [label]

/-- The labels behind a label on the way along patterns. -/
def labelsAlong (label : Label) : List NamePattern → List Label
  | [] => []
  | pattern :: patterns =>
    (label ++ [pattern]) :: labelsAlong (label ++ [pattern]) patterns

/-- The labels of a list of claims, in the order in which they first appear. -/
def labelsOf (claims : List String) : List Label :=
  (claims.flatMap fun claim => labelsAlong [] (spelled claim)).foldl addLabel [[]]

theorem addLabel_of_mem {labels : List Label} {label : Label} (h : label ∈ labels) :
    addLabel labels label = labels := if_pos h

theorem addLabel_of_notMem {labels : List Label} {label : Label} (h : label ∉ labels) :
    addLabel labels label = labels ++ [label] := if_neg h

theorem mem_addLabel {labels : List Label} {label other : Label} :
    other ∈ addLabel labels label ↔ other ∈ labels ∨ other = label := by
  by_cases h : label ∈ labels
  · rw [addLabel_of_mem h]
    exact ⟨Or.inl, fun ho => ho.elim id fun he => he ▸ h⟩
  · rw [addLabel_of_notMem h, List.mem_append, List.mem_singleton]

theorem mem_foldl_addLabel {labels more : List Label} {label : Label} :
    label ∈ more.foldl addLabel labels ↔ label ∈ labels ∨ label ∈ more := by
  induction more generalizing labels with
  | nil => simp
  | cons next more ih => rw [List.foldl_cons, ih, mem_addLabel, List.mem_cons, or_assoc]

theorem mem_labelsAlong {label other : Label} {patterns : List NamePattern} :
    other ∈ labelsAlong label patterns ↔
      ∃ way, way ≠ [] ∧ way <+: patterns ∧ other = label ++ way := by
  induction patterns generalizing label with
  | nil =>
    refine ⟨fun h => absurd h List.not_mem_nil, ?_⟩
    rintro ⟨way, hne, hway, -⟩
    exact absurd (List.prefix_nil.mp hway) hne
  | cons pattern patterns ih =>
    rw [labelsAlong, List.mem_cons, ih]
    constructor
    · rintro (rfl | ⟨way, -, hway, rfl⟩)
      · exact ⟨[pattern], List.cons_ne_nil _ _, by simp, rfl⟩
      · exact ⟨pattern :: way, List.cons_ne_nil _ _, List.cons_prefix_cons.mpr ⟨rfl, hway⟩, by simp⟩
    · rintro ⟨way, hne, hway, rfl⟩
      cases way with
      | nil => exact absurd rfl hne
      | cons first way =>
        obtain ⟨rfl, hrest⟩ := List.cons_prefix_cons.mp hway
        cases way with
        | nil => exact Or.inl rfl
        | cons next way =>
          exact Or.inr ⟨next :: way, List.cons_ne_nil _ _, hrest, by simp⟩

/-- **The labels of claims are the beginnings of what the claims spell out.** -/
theorem mem_labelsOf {claims : List String} {label : Label} :
    label ∈ labelsOf claims ↔ label = [] ∨ ∃ claim ∈ claims, label <+: spelled claim := by
  rw [labelsOf, mem_foldl_addLabel, List.mem_singleton, List.mem_flatMap]
  simp only [mem_labelsAlong, List.nil_append]
  constructor
  · rintro (h | ⟨claim, hc, way, -, hway, rfl⟩)
    · exact Or.inl h
    · exact Or.inr ⟨claim, hc, hway⟩
  · rintro (h | ⟨claim, hc, hway⟩)
    · exact Or.inl h
    · by_cases hne : label = []
      · exact Or.inl hne
      · exact Or.inr ⟨claim, hc, label, hne, hway, rfl⟩

/-! ### The arcs of a graph that grows -/

namespace Graph

variable {graph : Graph} {state : Nat}

@[simp] theorem length_addArc (graph : Graph) (state : Nat) (arc : Arc) :
    (graph.addArc state arc).states.length = graph.states.length :=
  List.length_modify ..

@[simp] theorem length_grow (graph : Graph) (state : Nat) (pattern : NamePattern) :
    (graph.grow state pattern).states.length = graph.states.length + 1 := by
  simp [grow]

theorem arcs_addArc (h : state < graph.states.length) (arc : Arc) (other : Nat) :
    (graph.addArc state arc).arcs other =
      if other = state then graph.arcs state ++ [arc] else graph.arcs other := by
  rw [arcs, addArc, List.getD_eq_getElem?_getD, List.getElem?_modify]
  by_cases ho : other = state
  · subst ho
    simp [arcs, h]
  · simp [arcs, ho, Ne.symm ho]

/-- A new state has no arcs of its own. -/
theorem arcs_grow_eq (graph : Graph) (state : Nat) (pattern : NamePattern) (other : Nat) :
    (graph.grow state pattern).arcs other =
      (graph.addArc state ⟨pattern, graph.states.length⟩).arcs other := by
  rw [arcs, grow, arcs, List.getD_eq_getElem?_getD, List.getD_eq_getElem?_getD,
    List.getElem?_append]
  split
  · rfl
  · next hge =>
    rw [List.getElem?_eq_none (Nat.not_lt.mp hge)]
    cases other - (graph.addArc state ⟨pattern, graph.states.length⟩).states.length <;> rfl

/-- So only the state that a new one is reached from changes. -/
theorem arcs_grow (h : state < graph.states.length) (pattern : NamePattern) (other : Nat) :
    (graph.grow state pattern).arcs other =
      if other = state then graph.arcs state ++ [⟨pattern, graph.states.length⟩]
      else graph.arcs other := by
  rw [arcs_grow_eq, arcs_addArc h]

/-- Along an arc that is there, nothing is added. -/
theorem extend_cons_of_some {pattern : NamePattern} {patterns : List NamePattern} {arc : Arc}
    (hp : pattern ≠ .anySequence)
    (hf : (graph.arcs state).find? (fun arc => arc.pattern == pattern) = some arc) :
    graph.extend state (pattern :: patterns) = graph.extend arc.target patterns := by
  rw [extend, hf]
  exact hp

/-- Where no arc is, one is made to a new state. -/
theorem extend_cons_of_none {pattern : NamePattern} {patterns : List NamePattern}
    (hp : pattern ≠ .anySequence)
    (hf : (graph.arcs state).find? (fun arc => arc.pattern == pattern) = none) :
    graph.extend state (pattern :: patterns) =
      (graph.grow state pattern).extend graph.states.length patterns := by
  rw [extend, hf]
  exact hp

/-! ### The invariant -/

/-- The states of a graph stand for labels, in order; the states with a looped label are those with
an arc to themselves. -/
structure Spells (graph : Graph) (labels : List Label) (loops : Label → Prop) : Prop where
  /-- There is one label for each state. -/
  length_eq : graph.states.length = labels.length
  /-- The start stands for the empty label. -/
  start : labels[0]? = some []
  /-- Different states have different labels. -/
  nodup : labels.Nodup
  /-- With a label, all its beginnings are labels. -/
  mem_of_append : ∀ {label pattern}, label ++ [pattern] ∈ labels → label ∈ labels
  /-- No label holds a `**`. -/
  ne_anySequence : ∀ {label pattern}, label ++ [pattern] ∈ labels → pattern ≠ .anySequence
  /-- Only labels are looped. -/
  mem_of_loops : ∀ {label}, loops label → label ∈ labels
  /-- The arcs of a state lead to the labels that are longer by their pattern, apart from the arc
  to the state itself. -/
  mem_arcs_iff : ∀ {state label}, labels[state]? = some label → ∀ arc,
    arc ∈ graph.arcs state ↔
      arc = ⟨.anySequence, state⟩ ∧ loops label ∨
        labels[arc.target]? = some (label ++ [arc.pattern])

variable {labels : List Label} {loops : Label → Prop} {label : Label}

theorem Spells.lt_length (h : graph.Spells labels loops) (hs : labels[state]? = some label) :
    state < graph.states.length := by
  rw [h.length_eq]
  exact (List.getElem?_eq_some_iff.mp hs).1

theorem Spells.eq_of_label (h : graph.Spells labels loops) {other : Nat}
    (hs : labels[state]? = some label) (ho : labels[other]? = some label) : state = other :=
  (List.getElem?_inj (List.getElem?_eq_some_iff.mp hs).1 h.nodup).mp (hs.trans ho.symm)

theorem Spells.congr (h : graph.Spells labels loops) {loops' : Label → Prop}
    (hl : ∀ label, loops' label ↔ loops label) : graph.Spells labels loops' := by
  have : loops' = loops := funext fun label => propext (hl label)
  exact this ▸ h

/-- A state has an arc that takes everything exactly if its label is looped. -/
theorem Spells.any_anySequence_iff (h : graph.Spells labels loops)
    (hs : labels[state]? = some label) :
    ((graph.arcs state).any fun arc => arc.pattern == .anySequence) = true ↔ loops label := by
  rw [List.any_eq_true]
  constructor
  · rintro ⟨arc, harc, hp⟩
    rcases (h.mem_arcs_iff hs arc).mp harc with ⟨-, hl⟩ | ht
    · exact hl
    · exact absurd (beq_iff_eq.mp hp) (h.ne_anySequence (List.mem_of_getElem? ht))
  · intro hl
    exact ⟨⟨.anySequence, state⟩, (h.mem_arcs_iff hs _).mpr (Or.inl ⟨rfl, hl⟩), beq_self_eq_true _⟩

theorem spells_start : start.Spells [[]] fun _ => False where
  length_eq := rfl
  start := rfl
  nodup := by simp
  mem_of_append h := by simp at h
  ne_anySequence h := by simp at h
  mem_of_loops h := h.elim
  mem_arcs_iff := by
    intro state label hs arc
    obtain ⟨hlt, rfl⟩ := List.getElem?_eq_some_iff.mp hs
    obtain rfl : state = 0 := by simpa using hlt
    have harcs : start.arcs 0 = [] := rfl
    simp [harcs, List.getElem?_singleton]

/-- Letting a state keep itself alive adds its label to the looped ones. -/
theorem Spells.addLoop (h : graph.Spells labels loops) (hs : labels[state]? = some label) :
    (graph.addLoop state).Spells labels fun other => loops other ∨ other = label := by
  rw [Graph.addLoop]
  split
  · next hany =>
    have hl : loops label := (h.any_anySequence_iff hs).mp hany
    exact h.congr fun other => ⟨fun ho => ho.elim id fun he => he ▸ hl, Or.inl⟩
  · have hlt := h.lt_length hs
    refine ⟨by simpa using h.length_eq, h.start, h.nodup, h.mem_of_append, h.ne_anySequence, ?_, ?_⟩
    · rintro other (ho | rfl)
      · exact h.mem_of_loops ho
      · exact List.mem_of_getElem? hs
    · intro other olabel ho arc
      rw [arcs_addArc hlt]
      by_cases hos : other = state
      · subst hos
        obtain rfl : olabel = label := Option.some.inj (ho.symm.trans hs)
        rw [if_pos rfl, List.mem_append, List.mem_singleton, h.mem_arcs_iff ho]
        simp only [or_true, and_true]
        constructor
        · rintro ((⟨harc, -⟩ | ht) | harc)
          · exact Or.inl harc
          · exact Or.inr ht
          · exact Or.inl harc
        · rintro (harc | ht)
          · exact Or.inr harc
          · exact Or.inl (Or.inr ht)
      · have hne : olabel ≠ label := fun he => hos (h.eq_of_label ho (he ▸ hs))
        rw [if_neg hos, h.mem_arcs_iff ho]
        simp only [hne, or_false]

/-- What stands at the places of a list with one member more. -/
theorem getElem?_append_singleton_eq_some {α : Type} {xs : List α} {new x : α} {place : Nat} :
    (xs ++ [new])[place]? = some x ↔ xs[place]? = some x ∨ place = xs.length ∧ new = x := by
  rcases Nat.lt_trichotomy place xs.length with h | rfl | h
  · rw [List.getElem?_append_left h]
    exact ⟨Or.inl, fun ho => ho.elim id fun he => absurd he.1 (Nat.ne_of_lt h)⟩
  · simp
  · have hl : (xs ++ [new])[place]? = none := by simp; omega
    have hr : xs[place]? = none := by simp; omega
    rw [hl, hr]
    simp [Nat.ne_of_gt h]

/-- A new state stands for the label of the state it is reached from and its pattern. -/
theorem Spells.grow (h : graph.Spells labels loops) (hs : labels[state]? = some label)
    {pattern : NamePattern} (hp : pattern ≠ .anySequence) (hnew : label ++ [pattern] ∉ labels) :
    (graph.grow state pattern).Spells (labels ++ [label ++ [pattern]]) loops := by
  have hlt := h.lt_length hs
  have hmem : label ∈ labels := List.mem_of_getElem? hs
  have hstart : 0 < labels.length := (List.getElem?_eq_some_iff.mp h.start).1
  refine ⟨by simp [h.length_eq], by rw [List.getElem?_append_left hstart]; exact h.start, ?_, ?_,
    ?_, fun hl => List.mem_append_left _ (h.mem_of_loops hl), ?_⟩
  · refine List.nodup_append.mpr ⟨h.nodup, by simp, ?_⟩
    rintro old hold new hnew' rfl
    exact hnew (List.mem_singleton.mp hnew' ▸ hold)
  · intro other opattern ho
    rcases List.mem_append.mp ho with ho | ho
    · exact List.mem_append_left _ (h.mem_of_append ho)
    · obtain ⟨rfl, -⟩ := List.append_singleton_inj.mp (List.mem_singleton.mp ho)
      exact List.mem_append_left _ hmem
  · intro other opattern ho
    rcases List.mem_append.mp ho with ho | ho
    · exact h.ne_anySequence ho
    · obtain ⟨-, rfl⟩ := List.append_singleton_inj.mp (List.mem_singleton.mp ho)
      exact hp
  · intro other olabel ho arc
    rw [arcs_grow hlt, getElem?_append_singleton_eq_some]
    rcases getElem?_append_singleton_eq_some.mp ho with hold | ⟨rfl, rfl⟩
    · by_cases hos : other = state
      · subst hos
        obtain rfl : olabel = label := Option.some.inj (hold.symm.trans hs)
        rw [if_pos rfl, List.mem_append, List.mem_singleton, h.mem_arcs_iff hold, h.length_eq]
        cases arc
        simp only [Arc.mk.injEq, List.append_cancel_left_eq, List.cons.injEq, and_true]
        rw [or_assoc, and_comm (a := _ = labels.length), eq_comm (a := pattern)]
      · have hne : label ≠ olabel := fun he => hos (h.eq_of_label hold (he ▸ hs))
        rw [if_neg hos, h.mem_arcs_iff hold, List.append_singleton_inj]
        simp only [hne, false_and, and_false, or_false]
    · -- the new state: nothing is longer than its label
      have hnone : graph.arcs labels.length = [] := by
        simp [arcs, ← h.length_eq]
      have hns : labels.length ≠ state := h.length_eq ▸ Nat.ne_of_gt hlt
      rw [if_neg hns, hnone]
      refine ⟨fun harc => absurd harc List.not_mem_nil, ?_⟩
      rintro (⟨-, hl⟩ | hl | ⟨-, hl⟩)
      · exact absurd (h.mem_of_loops hl) hnew
      · exact absurd (h.mem_of_append (List.mem_of_getElem? hl)) hnew
      · simpa using congrArg List.length hl

/-- **Adding a claim.**  From a state on, the patterns of a claim add the labels along what they
spell out; if a `**` comes behind that, they loop the last of them. -/
theorem Spells.extend (patterns : List NamePattern) (h : graph.Spells labels loops)
    (hs : labels[state]? = some label) :
    (graph.extend state patterns).Spells
      ((labelsAlong label (patterns.takeWhile (· != .anySequence))).foldl addLabel labels)
      fun other => loops other ∨
        .anySequence ∈ patterns ∧ other = label ++ patterns.takeWhile (· != .anySequence) := by
  induction patterns generalizing graph labels state label with
  | nil => exact h.congr fun other => by simp
  | cons pattern patterns ih =>
    by_cases hp : pattern = .anySequence
    · subst hp
      refine (h.addLoop hs).congr fun other => ?_
      simp
    · have htake : (pattern :: patterns).takeWhile (· != .anySequence) =
          pattern :: patterns.takeWhile (· != .anySequence) := by simp [hp]
      rw [htake, labelsAlong, List.foldl_cons]
      cases hf : (graph.arcs state).find? fun arc => arc.pattern == pattern with
      | some arc =>
        obtain rfl : arc.pattern = pattern := by simpa using List.find?_some hf
        have ht : labels[arc.target]? = some (label ++ [arc.pattern]) := by
          refine ((h.mem_arcs_iff hs arc).mp (List.mem_of_find?_eq_some hf)).resolve_left ?_
          exact fun he => hp (he.1 ▸ rfl)
        rw [extend_cons_of_some hp hf, addLabel_of_mem (List.mem_of_getElem? ht)]
        refine (ih h ht).congr fun other => ?_
        simp [Ne.symm hp]
      | none =>
        have hnew : label ++ [pattern] ∉ labels := by
          intro hmem
          obtain ⟨target, ht⟩ := List.getElem?_of_mem hmem
          have harc := (h.mem_arcs_iff hs ⟨pattern, target⟩).mpr (Or.inr ht)
          exact absurd (beq_self_eq_true pattern) (List.find?_eq_none.mp hf _ harc)
        have ht : (labels ++ [label ++ [pattern]])[graph.states.length]? =
            some (label ++ [pattern]) := by
          rw [h.length_eq]
          exact List.getElem?_concat_length
        rw [extend_cons_of_none hp hf, addLabel_of_notMem hnew]
        refine (ih (h.grow hs hp hnew) ht).congr fun other => ?_
        simp [Ne.symm hp]

end Graph

/-! ### The graph of a list of claims -/

/-- Whether some claim goes on without end behind a label. -/
def Looped (claims : List String) (label : Label) : Prop :=
  ∃ claim ∈ claims, IsOpen claim ∧ label = spelled claim

/-- Adding the claims of a list one after the other. -/
theorem Graph.Spells.foldl_extend (claims : List String) {graph : Graph} {labels : List Label}
    {loops : Label → Prop} (h : graph.Spells labels loops) :
    (claims.foldl (fun graph claim => graph.extend 0 (patternsOf claim)) graph).Spells
      ((claims.flatMap fun claim => labelsAlong [] (spelled claim)).foldl addLabel labels)
      fun label => loops label ∨ Looped claims label := by
  induction claims generalizing graph labels loops with
  | nil => exact h.congr fun label => by simp [Looped]
  | cons claim claims ih =>
    rw [List.foldl_cons, List.flatMap_cons, List.foldl_append]
    refine (ih (h.extend (patternsOf claim) h.start)).congr fun label => ?_
    simp [Looped, spelled, IsOpen, or_assoc]

/-- **The graph of a list of claims stands for its labels**, and a state keeps itself alive exactly
where some claim has its `**`. -/
theorem Graph.spells_ofClaims (claims : List String) :
    (Graph.ofClaims claims).Spells (labelsOf claims) (Looped claims) :=
  (Spells.foldl_extend claims spells_start).congr fun label => by simp

end CatalogGuard.Claim
