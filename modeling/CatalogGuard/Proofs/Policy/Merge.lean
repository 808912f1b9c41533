import CatalogGuard.Policy.Merge
import Mathlib.Data.List.Basic

/-!
# What a merged policy holds

A policy is made of fragments by appending them part by part, so that everything in it stands in
some fragment.  The statements here say so for the parts that decide about a caller; nothing in them
depends on which fragment a claim, a registration or a rule comes from.

## Main definitions

* `IsFirstRepeated` — which of the names is the first that occurs again

## Main results

* `Fragment.concat_eq` — appending fragments appends their parts
* `ofFragments_eq_ok_iff`, `ofFragments_eq_error_iff` — when fragments make a policy, and which
* `firstRepeated?_eq_none_iff`, `firstRepeated?_eq_some_iff` — which name is found to be repeated
* `isRegistered_caller_iff`, `mem_claimsOf_iff` — registrations and claims of a login
* `lookup_automata` — the automaton of a login is that of its claims
-/

namespace CatalogGuard.Policy

variable {policy : Policy} {fragments : List Fragment}

/-- Appending fragments appends their parts. -/
theorem Fragment.concat_eq (fragments : List Fragment) :
    Fragment.concat fragments =
      ⟨fragments.flatMap Fragment.entries, fragments.flatMap Fragment.claims,
        fragments.flatMap Fragment.registered, fragments.flatMap Fragment.rules⟩ := by
  induction fragments with
  | nil => rfl
  | cons fragment fragments ih =>
    rw [Fragment.concat, List.foldr_cons]
    show fragment.append (Fragment.concat fragments) = _
    rw [ih]
    rfl

/-- No member stands in a list before exactly if the list has no repetitions. -/
theorem firstRepeated?_eq_none_iff {names : List String} :
    firstRepeated? names = none ↔ names.Nodup := by
  have hgo : ∀ seen, firstRepeated?.go seen names = none ↔
      names.Nodup ∧ ∀ name ∈ names, name ∉ seen := by
    induction names with
    | nil => simp [firstRepeated?.go]
    | cons name rest ih =>
      intro seen
      rw [firstRepeated?.go]
      by_cases hseen : name ∈ seen
      · simp [hseen]
      · rw [if_neg (by simpa using hseen), ih]
        simp only [List.nodup_cons, List.mem_cons, not_or, forall_eq_or_imp]
        constructor
        · rintro ⟨hrest, hnot⟩
          exact ⟨⟨fun hmem => (hnot name hmem).1 rfl, hrest⟩, hseen,
            fun other hmem => (hnot other hmem).2⟩
        · rintro ⟨⟨hname, hrest⟩, -, hnot⟩
          refine ⟨hrest, fun other hmem => ⟨?_, hnot other hmem⟩⟩
          rintro rfl
          exact hname hmem
  rw [firstRepeated?, hgo]
  simp

/-- A name that stands behind itself, and behind names that are all different. -/
def IsFirstRepeated (names : List String) (name : String) : Prop :=
  ∃ before after, names = before ++ name :: after ∧ before.Nodup ∧ name ∈ before

/-- The name that is found to be repeated is the first that is. -/
theorem firstRepeated?_eq_some_iff {names : List String} {name : String} :
    firstRepeated? names = some name ↔ IsFirstRepeated names name := by
  have hgo : ∀ seen, firstRepeated?.go seen names = some name ↔
      ∃ before after, names = before ++ name :: after ∧ before.Nodup ∧
        (∀ other ∈ before, other ∉ seen) ∧ (name ∈ before ∨ name ∈ seen) := by
    induction names with
    | nil => simp [firstRepeated?.go]
    | cons first rest ih =>
      intro seen
      rw [firstRepeated?.go]
      by_cases hseen : first ∈ seen
      · rw [if_pos (by simpa using hseen)]
        constructor
        · intro h
          obtain rfl := Option.some.inj h
          exact ⟨[], rest, rfl, List.nodup_nil, by simp, Or.inr hseen⟩
        · rintro ⟨_ | ⟨_, before⟩, after, hsplit, -, hfresh, -⟩
          · exact congrArg some (List.cons.inj hsplit).1
          · obtain ⟨rfl, -⟩ := List.cons.inj hsplit
            exact absurd hseen (hfresh first List.mem_cons_self)
      · rw [if_neg (by simpa using hseen), ih]
        constructor
        · rintro ⟨before, after, rfl, hnodup, hfresh, hname⟩
          refine ⟨first :: before, after, rfl, List.nodup_cons.mpr ⟨fun hmem => ?_, hnodup⟩,
            List.forall_mem_cons.mpr ⟨hseen, fun other hmem hbad => ?_⟩, ?_⟩
          · exact hfresh first hmem List.mem_cons_self
          · exact hfresh other hmem (List.mem_cons_of_mem _ hbad)
          · simpa [or_assoc, or_left_comm] using hname
        · rintro ⟨_ | ⟨_, before⟩, after, hsplit, hnodup, hfresh, hname⟩
          · obtain ⟨rfl, -⟩ := List.cons.inj hsplit
            exact absurd (hname.resolve_left List.not_mem_nil) hseen
          · obtain ⟨rfl, rfl⟩ := List.cons.inj hsplit
            obtain ⟨hfirst, hnodup⟩ := List.nodup_cons.mp hnodup
            refine ⟨before, after, rfl, hnodup, fun other hmem => ?_, ?_⟩
            · rw [List.mem_cons, not_or]
              exact ⟨fun heq => hfirst (heq ▸ hmem), hfresh other (List.mem_cons_of_mem _ hmem)⟩
            · simpa [or_assoc, or_left_comm] using hname
  rw [firstRepeated?, hgo, IsFirstRepeated]
  simp

/-- Fragments make a policy exactly if no top-level name is repeated, and only one. -/
theorem ofFragments_eq_ok_iff :
    ofFragments fragments = .ok policy ↔
      firstRepeated? ((fragments.flatMap Fragment.entries).map Branch.name) = none ∧
        policy = ⟨⟨fragments.flatMap Fragment.entries⟩, fragments.flatMap Fragment.claims,
          automataOf (fragments.flatMap Fragment.claims), fragments.flatMap Fragment.registered,
          fragments.flatMap Fragment.rules⟩ := by
  rw [ofFragments, Fragment.concat_eq]
  cases firstRepeated? ((fragments.flatMap Fragment.entries).map Branch.name) with
  | none => simp [eq_comm]
  | some name => simp

/-- Fragments are refused for one reason alone: a top-level name is repeated. -/
theorem ofFragments_eq_error_iff {error : Error} :
    ofFragments fragments = .error error ↔
      ∃ name, IsFirstRepeated ((fragments.flatMap Fragment.entries).map Branch.name) name ∧
        error = .entry (.repeated name) := by
  simp only [ofFragments, Fragment.concat_eq, ← firstRepeated?_eq_some_iff]
  cases firstRepeated? ((fragments.flatMap Fragment.entries).map Branch.name) with
  | none => simp
  | some name => simp [eq_comm]

/-! ### Callers and their claims -/

@[simp] theorem login?_caller (policy : Policy) (login : Option String) :
    (policy.caller login).login? = login := by
  cases login with
  | none => rfl
  | some login =>
    rw [caller]
    split <;> rfl

theorem isRegistered_caller_iff {login : Option String} :
    (policy.caller login).isRegistered = true ↔ ∃ name ∈ login, name ∈ policy.registered := by
  cases login with
  | none => simp [caller, Caller.isRegistered]
  | some login =>
    by_cases h : login ∈ policy.registered <;> simp [caller, Caller.isRegistered, h]

theorem mem_claimsOf_iff {login claim : String} :
    claim ∈ policy.claimsOf login ↔
      ∃ claims, (login, claims) ∈ policy.claims ∧ claim ∈ claims := by
  simp only [claimsOf, claimsIn, List.mem_flatMap, List.mem_filter, beq_iff_eq]
  constructor
  · rintro ⟨⟨_, claims⟩, ⟨hmem, rfl⟩, hc⟩
    exact ⟨claims, hmem, hc⟩
  · rintro ⟨claims, hmem, hc⟩
    exact ⟨(login, claims), ⟨hmem, rfl⟩, hc⟩

theorem lookup_automataOf (claims : List (String × List String)) (login : String) :
    (automataOf claims).lookup login =
      if login ∈ claims.map Prod.fst then some (.ofClaims (claimsIn claims login)) else none := by
  split
  next hlisted =>
    exact List.lookup_graph (fun login => Claim.Automaton.ofClaims (claimsIn claims login))
      (List.mem_eraseDups.mpr hlisted)
  next hunlisted =>
    rw [List.lookup_eq_none_iff]
    rintro ⟨name, automaton⟩ hmem
    obtain ⟨other, hother, heq⟩ := List.mem_map.mp hmem
    obtain ⟨rfl, -⟩ := Prod.mk.inj heq
    rw [bne_iff_ne]
    rintro rfl
    exact hunlisted (List.mem_eraseDups.mp hother)

/-- The automata are those of the claims: each login that has a list of claims has the automaton of
all its claims, and no other login has one. -/
theorem lookup_automata (h : ofFragments fragments = .ok policy) (login : String) :
    policy.automata.lookup login =
      if login ∈ policy.claims.map Prod.fst then some (.ofClaims (policy.claimsOf login))
      else none := by
  obtain ⟨-, rfl⟩ := ofFragments_eq_ok_iff.mp h
  exact lookup_automataOf _ login

end CatalogGuard.Policy
