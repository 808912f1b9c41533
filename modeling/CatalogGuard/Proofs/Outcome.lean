import CatalogGuard.Outcome
import Mathlib.Data.List.Forall2

/-!
# Many steps that may fail

A reading is a sequence of steps that all have to succeed.  From its success that of each step is
recovered, with what the step gave.

## Main results

* `mapM_eq_ok_iff`, `exists_mapM_eq_ok_iff`, `mapM_eq_error_iff`, `mapM_map_eq_some` — one step for
  each member of a list
* `foldlM_induction`, `exists_foldlM_eq_ok_iff` — many steps in a row
* `forM_eq_ok_iff` — a check of each member of a list
-/

namespace CatalogGuard

variable {ε α β : Type}

theorem toOption_eq_some_iff {outcome : Except ε α} {a : α} :
    outcome.toOption = some a ↔ outcome = .ok a := by
  cases outcome with
  | error fault =>
    constructor
    · intro h
      cases h
    · intro h
      cases h
  | ok a' =>
    constructor
    · intro h
      exact congrArg Except.ok (Option.some.inj h)
    · intro h
      exact congrArg some (Except.ok.inj h)

/-- A step for each member of a list succeeds if all do, and gives what they give. -/
theorem mapM_eq_ok_iff {step : α → Except ε β} {as : List α} {bs : List β} :
    as.mapM step = .ok bs ↔ List.Forall₂ (fun a b => step a = .ok b) as bs := by
  induction as generalizing bs with
  | nil =>
    rw [List.mapM_nil, List.forall₂_nil_left_iff]
    exact ⟨fun h => (Except.ok.inj h).symm, fun h => congrArg Except.ok h.symm⟩
  | cons a as ih =>
    rw [List.mapM_cons, bind_eq_ok_iff, List.forall₂_cons_left_iff]
    constructor
    · rintro ⟨b, hb, h⟩
      obtain ⟨bs, hbs, h⟩ := bind_eq_ok_iff.mp h
      exact ⟨b, bs, hb, ih.mp hbs, (Except.ok.inj h).symm⟩
    · rintro ⟨b, bs, hb, hbs, rfl⟩
      exact ⟨b, hb, bind_eq_ok_iff.mpr ⟨bs, ih.mpr hbs, rfl⟩⟩

theorem exists_mapM_eq_ok_iff {step : α → Except ε β} {as : List α} :
    (∃ bs, as.mapM step = .ok bs) ↔ ∀ a ∈ as, ∃ b, step a = .ok b := by
  induction as with
  | nil => exact ⟨fun _ a hmem => absurd hmem List.not_mem_nil, fun _ => ⟨[], rfl⟩⟩
  | cons a as ih =>
    rw [List.forall_mem_cons, ← ih]
    simp only [mapM_eq_ok_iff, List.forall₂_cons_left_iff]
    constructor
    · rintro ⟨_, b, bs, hb, hbs, rfl⟩
      exact ⟨⟨b, hb⟩, bs, hbs⟩
    · rintro ⟨⟨b, hb⟩, bs, hbs⟩
      exact ⟨b :: bs, b, bs, hb, hbs, rfl⟩

/-- A step for each member of a list fails as the first of them that fails. -/
theorem mapM_eq_error_iff {step : α → Except ε β} {as : List α} {fault : ε} :
    as.mapM step = .error fault ↔ ∃ before a after, as = before ++ a :: after ∧
      (∀ b ∈ before, ∃ read, step b = .ok read) ∧ step a = .error fault := by
  induction as with
  | nil =>
    rw [List.mapM_nil]
    constructor
    · intro h
      cases h
    · rintro ⟨before, a, after, hsplit, -⟩
      exact absurd hsplit.symm
        (List.append_ne_nil_of_right_ne_nil before (List.cons_ne_nil a after))
  | cons a as ih =>
    rw [List.mapM_cons, bind_eq_error_iff]
    constructor
    · rintro (hfirst | ⟨read, hfirst, h⟩)
      · exact ⟨[], a, as, rfl, fun b hmem => absurd hmem List.not_mem_nil, hfirst⟩
      · rcases bind_eq_error_iff.mp h with hrest | ⟨bs, -, h⟩
        · obtain ⟨before, a', after, rfl, hbefore, hfault⟩ := ih.mp hrest
          exact ⟨a :: before, a', after, rfl,
            List.forall_mem_cons.mpr ⟨⟨read, hfirst⟩, hbefore⟩, hfault⟩
        · cases h
    · rintro ⟨_ | ⟨b, before⟩, a', after, hsplit, hbefore, hfault⟩
      · obtain ⟨rfl, rfl⟩ := List.cons.inj hsplit
        exact Or.inl hfault
      · obtain ⟨rfl, rfl⟩ := List.cons.inj hsplit
        obtain ⟨⟨read, hfirst⟩, hbefore⟩ := List.forall_mem_cons.mp hbefore
        have hrest := ih.mpr ⟨before, a', after, rfl, hbefore, hfault⟩
        exact Or.inr ⟨read, hfirst, bind_eq_error_iff.mpr (Or.inl hrest)⟩

/-- Steps for what was made of the members of a list succeed if each does. -/
theorem mapM_map_eq_some {γ : Type} {step : β → Option γ} {make : α → β} {give : α → γ}
    {as : List α} (h : ∀ a ∈ as, step (make a) = some (give a)) :
    (as.map make).mapM step = some (as.map give) := by
  induction as with
  | nil => rfl
  | cons a as ih =>
    obtain ⟨hfirst, hrest⟩ := List.forall_mem_cons.mp h
    rw [List.map_cons, List.mapM_cons, hfirst, ih hrest]
    rfl

/-- Whatever steps over a list give, one of its members gives. -/
theorem exists_of_mem_mapM {step : α → Except ε β} {as : List α} {bs : List β}
    (h : as.mapM step = .ok bs) {b : β} (hb : b ∈ bs) : ∃ a ∈ as, step a = .ok b := by
  have hall := mapM_eq_ok_iff.mp h
  clear h
  induction hall with
  | nil => cases hb
  | @cons a other as bs hfirst _ ih =>
    rcases List.mem_cons.mp hb with rfl | hb
    · exact ⟨a, List.mem_cons_self, hfirst⟩
    · obtain ⟨a, hmem, ha⟩ := ih hb
      exact ⟨a, List.mem_cons_of_mem _ hmem, ha⟩

/-- What every step preserves, all of them together preserve. -/
theorem foldlM_induction {step : β → α → Except ε β} {motive : β → Prop}
    (hstep : ∀ b a b', step b a = .ok b' → motive b → motive b') {as : List α} {b b' : β}
    (h : as.foldlM step b = .ok b') (hb : motive b) : motive b' := by
  induction as generalizing b with
  | nil => exact Except.ok.inj h ▸ hb
  | cons a as ih =>
    obtain ⟨next, hnext, hrest⟩ := bind_eq_ok_iff.mp h
    exact ih hrest (hstep b a next hnext hb)

/-- If it does not depend on what has been reached whether a step succeeds, then steps in a row
succeed if each of them can. -/
theorem exists_foldlM_eq_ok_iff {step : β → α → Except ε β} {can : α → Prop}
    (hstep : ∀ b a, (∃ b', step b a = .ok b') ↔ can a) {as : List α} {b : β} :
    (∃ b', as.foldlM step b = .ok b') ↔ ∀ a ∈ as, can a := by
  induction as generalizing b with
  | nil => exact ⟨fun _ a hmem => absurd hmem List.not_mem_nil, fun _ => ⟨b, rfl⟩⟩
  | cons a as ih =>
    rw [List.forall_mem_cons, ← hstep b a]
    simp only [List.foldlM_cons, bind_eq_ok_iff]
    constructor
    · rintro ⟨b', next, hnext, hrest⟩
      exact ⟨⟨next, hnext⟩, ih.mp ⟨b', hrest⟩⟩
    · rintro ⟨⟨next, hnext⟩, hrest⟩
      obtain ⟨b', hb'⟩ := ih.mpr hrest
      exact ⟨b', next, hnext, hb'⟩

/-- A check of each member of a list succeeds if all members pass. -/
theorem forM_eq_ok_iff {check : α → Except ε Unit} {as : List α} :
    as.forM check = .ok () ↔ ∀ a ∈ as, check a = .ok () := by
  induction as with
  | nil => exact ⟨fun _ a hmem => absurd hmem List.not_mem_nil, fun _ => rfl⟩
  | cons a as ih =>
    have hcons : (a :: as).forM check = check a >>= fun _ => as.forM check := rfl
    rw [List.forall_mem_cons, ← ih, hcons, bind_eq_ok_iff]
    constructor
    · rintro ⟨⟨⟩, hfirst, hrest⟩
      exact ⟨hfirst, hrest⟩
    · rintro ⟨hfirst, hrest⟩
      exact ⟨(), hfirst, hrest⟩

end CatalogGuard
