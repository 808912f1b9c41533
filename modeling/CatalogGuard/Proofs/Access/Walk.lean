import CatalogGuard.Access.Verdict

/-!
# Walks that stay granted

The verdict at the end of a path is a fold: each entry looks only at the verdict for the one above
and at the claims followed so far.  A walk stays granted exactly if no entry on it is closed to the
caller and each of them is open for a reason of its own, so that the verdict can be read off the
path at once.

## Main definitions

* `Entry.Opens` — the reasons for which an entry that is not closed to a caller is open

## Main results

* `Verdict.step_granted` — what one entry does to a granted verdict
* `Verdict.isGranted_along_iff` — when a walk stays granted
-/

namespace CatalogGuard

open Claim (Automaton)

variable {caller : Caller} {entry : Entry} {claims : Automaton} {path : List Entry}

theorem Caller.isAuthorOf_iff :
    caller.isAuthorOf entry = true ↔ ∃ login ∈ caller.login?, login ∈ entry.authors := by
  cases hl : caller.login? <;> simp [Caller.isAuthorOf, hl]

/-- An entry is open to a caller unless it is denied or a draft of others. -/
theorem Entry.blocks_eq_false_iff :
    entry.blocks caller = false ↔
      entry.access ≠ .deny ∧ (entry.draft = true → caller.isAuthorOf entry = true) := by
  cases hd : entry.draft <;> simp [Entry.blocks, hd]

/-- Why an entry that is not closed to a caller is open: it is a draft of the caller's, or its level
lets the caller in, or a claim has been followed down to it. -/
def Entry.Opens (entry : Entry) (caller : Caller) (claimed : Prop) : Prop :=
  entry.draft = true ∨ entry.access = .everyone ∨
    entry.access = .loggedIn ∧ caller.isRegistered = true ∨ claimed

namespace Verdict

/-- A granted verdict stays granted at an entry that is open, with the claims a link further. -/
theorem step_granted (hb : entry.blocks caller = false)
    (ho : entry.Opens caller ((claims.step entry.link).accepts = true)) :
    step caller (.granted claims) entry = .granted (claims.step entry.link) := by
  obtain ⟨hdeny, hdraft⟩ := Entry.blocks_eq_false_iff.mp hb
  rw [step, if_neg hdeny]
  by_cases hd : entry.draft = true
  · rw [if_pos hd, if_pos (hdraft hd)]
  · rw [if_neg hd]
    rcases ho with ho | ho | ⟨ho, hr⟩ | ho
    · exact absurd ho hd
    · rw [ho]
    · simp [ho, hr]
    · cases ha : entry.access with
      | everyone => rfl
      | loggedIn => simp [ho]
      | claim => simp [ho]
      | deny => exact absurd ha hdeny

/-- A granted verdict ends at an entry that is closed to the caller, or open for no reason. -/
theorem step_eq_denied
    (h : ¬(entry.blocks caller = false ∧
      entry.Opens caller ((claims.step entry.link).accepts = true))) :
    step caller (.granted claims) entry = .denied := by
  rw [step]
  by_cases hdeny : entry.access = .deny
  · rw [if_pos hdeny]
  rw [if_neg hdeny]
  by_cases hd : entry.draft = true
  · rw [if_pos hd]
    by_cases ha : caller.isAuthorOf entry = true
    · exact absurd ⟨Entry.blocks_eq_false_iff.mpr ⟨hdeny, fun _ => ha⟩, Or.inl hd⟩ h
    · rw [if_neg ha]
  · rw [if_neg hd]
    have hb : entry.blocks caller = false :=
      Entry.blocks_eq_false_iff.mpr ⟨hdeny, fun he => absurd he hd⟩
    have ho : ¬entry.Opens caller ((claims.step entry.link).accepts = true) := fun ho => h ⟨hb, ho⟩
    simp only [Entry.Opens, not_or, not_and] at ho
    obtain ⟨-, heveryone, hlogged, hclaim⟩ := ho
    cases ha : entry.access with
    | everyone => exact absurd ha heveryone
    | loggedIn => simp [hlogged ha, hclaim]
    | claim => simp [hclaim]
    | deny => exact absurd ha hdeny

theorem along_denied (caller : Caller) (path : List Entry) :
    Verdict.denied.along caller path = .denied := by
  induction path with
  | nil => rfl
  | cons entry path ih => exact ih

theorem along_append (caller : Caller) (verdict : Verdict) (path more : List Entry) :
    verdict.along caller (path ++ more) = (verdict.along caller path).along caller more :=
  List.foldl_append

/-- **Walks that stay granted.**  No entry on the way is closed to the caller, and each is open for
a reason of its own; the claims are those followed along the links down to the entry. -/
theorem isGranted_along_iff :
    ((granted claims).along caller path).isGranted = true ↔
      ∀ before entry after, path = before ++ entry :: after →
        entry.blocks caller = false ∧
          entry.Opens caller
            ((claims.run ((before ++ [entry]).map Entry.link)).accepts = true) := by
  induction path generalizing claims with
  | nil => simp [along, isGranted]
  | cons first path ih =>
    rw [along, List.foldl_cons]
    by_cases hf : first.blocks caller = false ∧
        first.Opens caller ((claims.step first.link).accepts = true)
    · rw [step_granted hf.1 hf.2]
      refine ih.trans ⟨fun h before entry after hp => ?_, fun h before entry after hp => ?_⟩
      · rcases List.cons_eq_append_iff.mp hp with ⟨rfl, he⟩ | ⟨above, rfl, he⟩
        · obtain ⟨rfl, -⟩ := List.cons.inj he
          exact hf
        · exact h above entry after he
      · exact h (first :: before) entry after (congrArg (first :: ·) hp)
    · rw [step_eq_denied hf]
      refine ⟨fun h => ?_, fun h => absurd (h [] first path rfl) hf⟩
      have : (Verdict.denied.along caller path).isGranted = true := h
      rw [along_denied] at this
      exact absurd this (by decide)

end Verdict

end CatalogGuard
