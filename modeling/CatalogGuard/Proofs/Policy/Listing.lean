import CatalogGuard.Proofs.Catalog.Preorder
import CatalogGuard.Proofs.Policy.Admission

/-!
# Listing what may be seen

The listing of what a caller may see goes down the catalog once, with the verdict for the entries
above in hand, and does not look below an entry that is closed to the caller.  It lists the same as
checking every position on its own, from the root each time.

## The invariant

`Reached` says what holds on the way down: the verdict in hand is that of the path walked, and no
entry on it is closed.  Under it a check comes down to the next step and the rules; and where the
listing turns back, a check below would find the closed entry and refuse.  Both start with the same
automaton of the caller, whichever the policy has for it.

## Main results

* `visibleIn_eq`, `visibleInAll_eq` — what is listed within branches
* `visible_eq_filter_positions` — the listing is the positions that a check admits, in order
-/

namespace CatalogGuard.Policy

variable {policy : Policy} {caller : Caller} {now : Instant} {coverage : Coverage}
  {above : List Entry} {verdict : Verdict} {entry : Entry} {children : List Branch}

/-- What holds when the listing has come down along entries: the verdict is that for the path below
the root, and no entry on it is closed to the caller. -/
structure Reached (policy : Policy) (caller : Caller) (above : List Entry) (verdict : Verdict) :
    Prop where
  /-- The root is on the way. -/
  ne_nil : above ≠ []
  /-- The verdict is that for the path walked. -/
  verdict_eq : verdict = (Verdict.granted (policy.claimsFor caller)).along caller above.tail
  /-- No entry below the root is closed to the caller. -/
  blocks_eq : ∀ entry ∈ above.tail, entry.blocks caller = false

theorem Reached.start (policy : Policy) (caller : Caller) :
    Reached policy caller [.root] (.granted (policy.claimsFor caller)) where
  ne_nil := List.cons_ne_nil _ _
  verdict_eq := rfl
  blocks_eq _ h := absurd h List.not_mem_nil

/-- An entry that is not closed may be entered. -/
theorem Reached.step (h : Reached policy caller above verdict)
    (hb : entry.blocks caller = false) :
    Reached policy caller (above ++ [entry]) (verdict.step caller entry) := by
  refine ⟨by simp, ?_, ?_⟩
  · rw [List.tail_append_of_ne_nil h.ne_nil, Verdict.along_append, ← h.verdict_eq]
    rfl
  · rw [List.tail_append_of_ne_nil h.ne_nil]
    intro other hmem
    rcases List.mem_append.mp hmem with hmem | hmem
    · exact h.blocks_eq other hmem
    · rw [List.mem_singleton.mp hmem]
      exact hb

/-- At an entry that is not closed, a check looks at the next step and at the rules. -/
theorem Reached.admits_eq (h : Reached policy caller above verdict)
    (hb : entry.blocks caller = false) :
    policy.admits caller now coverage ⟨above, .node entry children⟩ =
      ((verdict.step caller entry).isGranted ||
        policy.rulesCover now coverage ⟨above, .node entry children⟩) := by
  have hnext := h.step hb
  have hnone : (above ++ [entry]).tail.any (fun entry => entry.blocks caller) = false := by
    rw [List.any_eq_false]
    intro other hmem
    rw [hnext.blocks_eq other hmem]
    exact Bool.false_ne_true
  have hpath : Position.belowRoot ⟨above, .node entry children⟩ = (above ++ [entry]).tail := rfl
  rw [admits, hpath, ← hnext.verdict_eq, hnone, Bool.not_false, Bool.true_and]

/-- Below an entry that is closed to the caller nothing is admitted. -/
theorem admits_eq_false_of_blocks (hne : above ≠ []) (hb : entry.blocks caller = true)
    {position : Position} (hp : above ++ [entry] <+: position.path) :
    policy.admits caller now coverage position = false := by
  rw [← Bool.not_eq_true, admits_iff]
  rintro ⟨hopen, -⟩
  have hmem : entry ∈ position.belowRoot := by
    obtain ⟨more, hmore⟩ := hp
    rw [Position.belowRoot, ← hmore, List.append_assoc, List.tail_append_of_ne_nil hne]
    exact List.mem_append_right _ List.mem_cons_self
  rw [hopen entry hmem] at hb
  exact Bool.false_ne_true hb

mutual

/-- What is listed within a branch: the positions of the branch that a check admits. -/
theorem visibleIn_eq (now : Instant) (coverage : Coverage) (above : List Entry)
    (verdict : Verdict) (h : Reached policy caller above verdict) :
    ∀ branch : Branch, visibleIn policy caller now coverage above verdict branch =
      ((branch.positions above).filter (policy.admits caller now coverage)).map Position.linkPath
  | .node entry children => by
    rw [visibleIn]
    by_cases hb : entry.blocks caller = true
    · have hnone : (Branch.positions above (.node entry children)).filter
          (policy.admits caller now coverage) = [] := by
        rw [List.filter_eq_nil_iff]
        intro position hmem
        rw [admits_eq_false_of_blocks h.ne_nil hb
          (Branch.prefix_path_of_mem_positions above _ position hmem)]
        exact Bool.false_ne_true
      rw [if_pos hb, hnone]
      rfl
    · have hopen : entry.blocks caller = false := Bool.not_eq_true _ ▸ hb
      rw [if_neg hb, Branch.positions, List.filter_cons, h.admits_eq hopen]
      dsimp only
      rw [visibleInAll_eq now coverage _ _ (h.step hopen) children]
      split <;> rfl

/-- What is listed within several branches. -/
theorem visibleInAll_eq (now : Instant) (coverage : Coverage) (above : List Entry)
    (verdict : Verdict) (h : Reached policy caller above verdict) :
    ∀ branches : List Branch, visibleInAll policy caller now coverage above verdict branches =
      ((Branch.positionsAll above branches).filter
        (policy.admits caller now coverage)).map Position.linkPath
  | [] => rfl
  | branch :: rest => by
    rw [visibleInAll, visibleIn_eq now coverage above verdict h branch,
      visibleInAll_eq now coverage above verdict h rest, Branch.positionsAll, List.filter_append,
      List.map_append]

end

/-- **The listing checks every position.**  What a caller is shown is the links of all positions
below the root that a check admits, each before those below it and siblings in their order. -/
theorem visible_eq_filter_positions (policy : Policy) (caller : Caller) (now : Instant)
    (coverage : Coverage) :
    policy.visible caller now coverage =
      (policy.catalog.positions.filter (policy.admits caller now coverage)).map
        Position.linkPath :=
  visibleInAll_eq now coverage _ _ (Reached.start policy caller) policy.catalog.branches

end CatalogGuard.Policy
