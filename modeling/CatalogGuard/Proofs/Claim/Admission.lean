import CatalogGuard.Proofs.Claim.Following
import Mathlib.Data.List.Forall2

/-!
# What claims admit

A claim by itself admits a path if the path is a beginning of what the claim spells out, or if the
claim has a `**` and the path begins with what it spells out.  Neither graphs nor other claims have
a part in this.

The automaton of several claims shares states among them, and a `**` keeps a state alive for all
claims that pass through it.  It still accepts a path only if a single claim admits it: the first
`**` that was used on the way to a live state belongs to a claim that has been followed up to there,
and that claim admits everything behind it.

## Main definitions

* `Agree` — links are taken by patterns, one by one
* `Admits` — a claim by itself admits links

## Main results

* `exists_leads_iff` — links lead to a label exactly if there are none or some claim admits them
* `accepts_run_ofClaims_iff` — the automaton of claims accepts exactly what some claim admits
-/

namespace CatalogGuard.Claim

variable {claims : List String} {label : Label} {links : List String}

/-- Patterns take links one by one, and there are as many of either. -/
def Agree (label : Label) (links : List String) : Prop :=
  List.Forall₂ (fun pattern link => pattern.accepts link = true) label links

/-- Whether a claim by itself admits links: they agree with the beginning of what the claim spells
out, or the claim has a `**` and all it spells out agrees with their beginning. -/
def Admits (claim : String) (links : List String) : Prop :=
  links.length ≤ (spelled claim).length ∧ Agree ((spelled claim).take links.length) links ∨
    IsOpen claim ∧ (spelled claim).length ≤ links.length ∧
      Agree (spelled claim) (links.take (spelled claim).length)

/-- The last member of a list is related to the last member of the other. -/
theorem forall₂_append_singleton_right {α β : Type} {R : α → β → Prop} {xs : List α} {ys : List β}
    {y : β} :
    List.Forall₂ R xs (ys ++ [y]) ↔
      ∃ before x, xs = before ++ [x] ∧ List.Forall₂ R before ys ∧ R x y := by
  constructor
  · intro h
    have hrev : List.Forall₂ R xs.reverse (y :: ys.reverse) := by
      simpa using List.forall₂_reverse_iff.mpr h
    obtain ⟨x, before, hlast, hbefore, hxs⟩ := List.forall₂_cons_right_iff.mp hrev
    refine ⟨before.reverse, x, ?_, ?_, hlast⟩
    · rw [← List.reverse_reverse xs, hxs, List.reverse_cons]
    · simpa using List.forall₂_reverse_iff.mpr hbefore
  · rintro ⟨before, x, rfl, hbefore, hlast⟩
    exact List.rel_append hbefore (List.Forall₂.cons hlast List.Forall₂.nil)

theorem Agree.append_singleton (h : Agree label links) {pattern : NamePattern} {link : String}
    (taken : pattern.accepts link = true) : Agree (label ++ [pattern]) (links ++ [link]) :=
  forall₂_append_singleton_right.mpr ⟨label, pattern, rfl, h, taken⟩

/-- Where a beginning is looked at, further links do not matter. -/
theorem Agree.take_append (h : Agree label (links.take label.length))
    (hlen : label.length ≤ links.length) (more : List String) :
    Agree label ((links ++ more).take label.length) := by
  rwa [List.take_append_of_le_length hlen]

/-! ### From agreement to labels and back -/

theorem Leads.of_agree (h : Agree label links) : Leads claims label links := by
  induction links using List.reverseRecOn generalizing label with
  | nil =>
    obtain rfl := List.forall₂_nil_right_iff.mp h
    exact .start
  | append_singleton links link ih =>
    obtain ⟨before, pattern, rfl, hbefore, taken⟩ := forall₂_append_singleton_right.mp h
    exact .go taken (ih hbefore)

/-- Behind its `**` a claim goes on whatever links come. -/
theorem Leads.append (h : Leads claims label links) (loop : Looped claims label)
    (more : List String) : Leads claims label (links ++ more) := by
  induction more using List.reverseRecOn with
  | nil => simpa using h
  | append_singleton more link ih =>
    rw [← List.append_assoc]
    exact .stay link loop ih

/-- **No path by mistake.**  Links that lead to a label agree with it, or else they begin with links
that agree with a looped label: the one where the first link was passed over. -/
theorem Leads.agree_or_looped (h : Leads claims label links) :
    Agree label links ∨ ∃ looped, Looped claims looped ∧ looped.length ≤ links.length ∧
      Agree looped (links.take looped.length) := by
  induction h with
  | start => exact Or.inl List.Forall₂.nil
  | @stay label links link loop before ih =>
    rcases ih with h | ⟨looped, hl, hlen, h⟩
    · have hlen : label.length ≤ links.length := Nat.le_of_eq h.length_eq
      have hall : Agree label (links.take label.length) := by
        rwa [h.length_eq, List.take_length]
      exact Or.inr ⟨label, loop, by simp; omega, hall.take_append hlen [link]⟩
    · exact Or.inr ⟨looped, hl, by simp; omega, h.take_append hlen [link]⟩
  | @go label links pattern link taken before ih =>
    rcases ih with h | ⟨looped, hl, hlen, h⟩
    · exact Or.inl (h.append_singleton taken)
    · exact Or.inr ⟨looped, hl, by simp; omega, h.take_append hlen [link]⟩

/-- Links lead to a label of claims exactly if there are none or some claim admits them. -/
theorem exists_leads_iff :
    (∃ label ∈ labelsOf claims, Leads claims label links) ↔
      links = [] ∨ ∃ claim ∈ claims, Admits claim links := by
  constructor
  · rintro ⟨label, hmem, h⟩
    rcases h.agree_or_looped with h | ⟨looped, ⟨claim, hc, hopen, rfl⟩, hlen, h⟩
    · rcases mem_labelsOf.mp hmem with rfl | ⟨claim, hc, hway⟩
      · exact Or.inl (List.forall₂_nil_left_iff.mp h)
      · have htake : label = (spelled claim).take links.length := by
          rw [← h.length_eq]
          exact List.prefix_iff_eq_take.mp hway
        exact Or.inr ⟨claim, hc, Or.inl ⟨h.length_eq ▸ hway.length_le, htake ▸ h⟩⟩
    · exact Or.inr ⟨claim, hc, Or.inr ⟨hopen, hlen, h⟩⟩
  · rintro (rfl | ⟨claim, hc, ⟨-, h⟩ | ⟨hopen, hlen, h⟩⟩)
    · exact ⟨[], mem_labelsOf.mpr (Or.inl rfl), .start⟩
    · exact ⟨_, mem_labelsOf.mpr (Or.inr ⟨claim, hc, List.take_prefix _ _⟩), .of_agree h⟩
    · refine ⟨spelled claim, mem_labelsOf.mpr (Or.inr ⟨claim, hc, List.prefix_rfl⟩), ?_⟩
      have hway : Leads claims (spelled claim) (links.take (spelled claim).length) := .of_agree h
      have hmore := hway.append ⟨claim, hc, hopen, rfl⟩ (links.drop (spelled claim).length)
      rwa [List.take_append_drop] at hmore

/-- **What an automaton of claims accepts.**  Behind no link it accepts; behind others exactly if
some claim admits them by itself. -/
theorem accepts_run_ofClaims_iff (claims links : List String) :
    ((Automaton.ofClaims claims).run links).accepts = true ↔
      links = [] ∨ ∃ claim ∈ claims, Admits claim links :=
  accepts_run_iff_leads.trans exists_leads_iff

end CatalogGuard.Claim
