import CatalogGuard.Proofs.Catalog.Location
import CatalogGuard.Proofs.Policy.Admission

/-!
# Policies that grow

One more fragment may bring entries, claims, registrations and rules.  None of them takes anything
away: what speaks for a login goes on speaking for it.  The automaton of its claims is another one,
with more states and in another order, and the caller may have become a registered one; a check
depends on neither, only on the reasons that `admits_iff` lists.

What closes an entry to a caller lies in the entry itself, and the entries on the way to a position
stay where they are.

## Main definitions

* `Supports` — one policy has every reason that another one has for letting a login in

## Main results

* `Supports.admits` — what is admitted for some reason is admitted wherever that reason is given
* `admits_of_insert` — a fragment more revokes nothing, and changes nothing for logins it is silent
  about if it has no rules
-/

namespace CatalogGuard

variable {caller caller' : Caller} {entry : Entry} {claimed claimed' : Prop}
  {position position' : Position}

theorem Entry.blocks_eq_of_login?_eq (h : caller'.login? = caller.login?) :
    entry.blocks caller' = entry.blocks caller := by
  rw [blocks, blocks, Caller.isAuthorOf, Caller.isAuthorOf, h]

theorem Entry.Opens.mono (h : entry.Opens caller claimed)
    (hr : caller.isRegistered = true → caller'.isRegistered = true) (hc : claimed → claimed') :
    entry.Opens caller' claimed' :=
  h.imp_right fun h => h.imp_right fun h => h.imp (fun h => ⟨h.1, hr h.2⟩) hc

theorem Position.belowRoot_eq_of_path_eq (h : position'.path = position.path) :
    position'.belowRoot = position.belowRoot := congrArg List.tail h

/-- Links show the entries on the way only. -/
theorem Position.linkPath_eq_of_path_eq (h : position'.path = position.path) :
    position'.linkPath = position.linkPath := by
  rw [linkPath, linkPath, belowRoot_eq_of_path_eq h]

namespace Policy

variable {policy policy' : Policy} {login : Option String} {now : Instant} {coverage : Coverage}

/-- Every reason that a policy has for letting a login in is one in another policy too. -/
structure Supports (policy policy' : Policy) (login : Option String) : Prop where
  /-- The login stays registered. -/
  registered : ∀ name ∈ login, name ∈ policy.registered → name ∈ policy'.registered
  /-- What the claims of the login accept, they still accept. -/
  claims : ∀ links ≠ [], ((policy.claimsFor (policy.caller login)).run links).accepts = true →
    ((policy'.claimsFor (policy'.caller login)).run links).accepts = true
  /-- The rules stay. -/
  rules : ∀ rule ∈ policy.rules, rule ∈ policy'.rules

theorem Supports.rulesCover (h : Supports policy policy' login)
    (hp : position'.path = position.path) (hr : policy.rulesCover now coverage position = true) :
    policy'.rulesCover now coverage position' = true := by
  obtain ⟨rule, hmem, hrule⟩ := List.any_eq_true.mp hr
  refine List.any_eq_true.mpr ⟨rule, h.rules rule hmem, ?_⟩
  rwa [Rule.covers, Query.covers, hp]

/-- **Reasons carry over.**  What a login may see under a policy it may see under any other that has
the same reasons or more, at every position with the same entries on the way. -/
theorem Supports.admits (h : Supports policy policy' login)
    (hp : position'.path = position.path)
    (ha : policy.admits (policy.caller login) now coverage position = true) :
    policy'.admits (policy'.caller login) now coverage position' = true := by
  have hlogin : (policy'.caller login).login? = (policy.caller login).login? := by
    rw [login?_caller, login?_caller]
  have hregistered : (policy.caller login).isRegistered = true →
      (policy'.caller login).isRegistered = true := by
    rw [isRegistered_caller_iff, isRegistered_caller_iff]
    rintro ⟨name, hn, hmem⟩
    exact ⟨name, hn, h.registered name hn hmem⟩
  rw [admits_iff] at ha ⊢
  rw [Position.belowRoot_eq_of_path_eq hp]
  obtain ⟨hopen, hreason⟩ := ha
  refine ⟨fun entry hmem => ?_, hreason.imp (fun hway before entry after heq => ?_) ?_⟩
  · rw [Entry.blocks_eq_of_login?_eq hlogin]
    exact hopen entry hmem
  · exact (hway before entry after heq).mono hregistered (h.claims _ (by simp))
  · exact h.rulesCover hp

/-- What fragments hold, they hold among others too. -/
theorem Fragment.flatMap_subset {α : Type} {fragments fragments' : List Fragment}
    (part : Fragment → List α) (hsub : fragments ⊆ fragments') :
    fragments.flatMap part ⊆ fragments'.flatMap part := by
  intro a hmem
  obtain ⟨fragment, hf, ha⟩ := List.mem_flatMap.mp hmem
  exact List.mem_flatMap.mpr ⟨fragment, hsub hf, ha⟩

/-- Policies are compared by the parts of the fragments they are made of. -/
theorem Supports.of_fragments {fragments fragments' : List Fragment}
    (h : ofFragments fragments = .ok policy) (h' : ofFragments fragments' = .ok policy')
    (hregistered : ∀ name ∈ login, name ∈ fragments.flatMap Fragment.registered →
      name ∈ fragments'.flatMap Fragment.registered)
    (hclaims : ∀ name ∈ login, ∀ claims, (name, claims) ∈ fragments.flatMap Fragment.claims →
      (name, claims) ∈ fragments'.flatMap Fragment.claims)
    (hrules : fragments.flatMap Fragment.rules ⊆ fragments'.flatMap Fragment.rules) :
    Supports policy policy' login := by
  have hclaimed : ∀ links, Fragment.Claims fragments login links →
      Fragment.Claims fragments' login links := by
    rintro links ⟨name, hn, fragment, hf, claims, hmem, hadmits⟩
    obtain ⟨fragment', hf', hmem'⟩ :=
      List.mem_flatMap.mp (hclaims name hn claims (List.mem_flatMap.mpr ⟨fragment, hf, hmem⟩))
    exact ⟨name, hn, fragment', hf', claims, hmem', hadmits⟩
  obtain ⟨-, hpolicy⟩ := ofFragments_eq_ok_iff.mp h
  obtain ⟨-, hpolicy'⟩ := ofFragments_eq_ok_iff.mp h'
  refine ⟨?_, fun links hne => ?_, ?_⟩
  · rw [hpolicy, hpolicy']
    exact hregistered
  · rw [accepts_run_claimsFor_iff h hne, accepts_run_claimsFor_iff h' hne]
    exact hclaimed links
  · rw [hpolicy, hpolicy']
    exact fun rule hmem => hrules hmem

/-- Fragments that stand among others give no reason of their own. -/
theorem Supports.of_subset {fragments fragments' : List Fragment}
    (h : ofFragments fragments = .ok policy) (h' : ofFragments fragments' = .ok policy')
    (hsub : fragments ⊆ fragments') (login : Option String) : Supports policy policy' login :=
  .of_fragments h h' (fun _ _ hmem => Fragment.flatMap_subset _ hsub hmem)
    (fun _ _ _ hmem => Fragment.flatMap_subset _ hsub hmem) (Fragment.flatMap_subset _ hsub)

/-- A member of a part that one fragment does not hold comes from the others. -/
theorem Fragment.mem_flatMap_of_insert {α : Type} {part : Fragment → List α}
    {before after : List Fragment} {fragment : Fragment} {a : α} (hnot : a ∉ part fragment)
    (h : a ∈ (before ++ [fragment] ++ after).flatMap part) :
    a ∈ (before ++ after).flatMap part := by
  simpa [hnot] using h

/-- **Adding a fragment revokes nothing.**  With one fragment more, the same paths lead along the
same entries, and what a login may see it may still see.  If the fragment has no rules and names the
login neither among its claims nor as registered, the login may see nothing else either. -/
theorem admits_of_insert {before after : List Fragment} {fragment : Fragment}
    (h : ofFragments (before ++ after) = .ok policy)
    (h' : ofFragments (before ++ [fragment] ++ after) = .ok policy') {path : String}
    (hp : policy.catalog.locate? path = some position) :
    ∃ position', policy'.catalog.locate? path = some position' ∧
      position'.linkPath = position.linkPath ∧
      ∀ login now coverage,
        (policy.admits (policy.caller login) now coverage position = true →
          policy'.admits (policy'.caller login) now coverage position' = true) ∧
        (fragment.rules = [] →
          (∀ name ∈ login, name ∉ fragment.claims.map Prod.fst ∧ name ∉ fragment.registered) →
          policy'.admits (policy'.caller login) now coverage position' =
            policy.admits (policy.caller login) now coverage position) := by
  have hsub : before ++ after ⊆ before ++ [fragment] ++ after := by simp
  obtain ⟨position', hp', hpath⟩ : ∃ position', policy'.catalog.locate? path = some position' ∧
      position'.path = position.path := by
    obtain ⟨-, rfl⟩ := ofFragments_eq_ok_iff.mp h
    obtain ⟨hnone, rfl⟩ := ofFragments_eq_ok_iff.mp h'
    exact Catalog.locate?_of_subset (fun _ hmem => Fragment.flatMap_subset _ hsub hmem)
      (firstRepeated?_eq_none_iff.mp hnone) hp
  refine ⟨position', hp', Position.linkPath_eq_of_path_eq hpath, fun login now coverage => ?_⟩
  have hmore : policy.admits (policy.caller login) now coverage position = true →
      policy'.admits (policy'.caller login) now coverage position' = true :=
    (Supports.of_subset h h' hsub login).admits hpath
  refine ⟨hmore, fun hrules hsilent => Bool.eq_iff_iff.mpr ⟨?_, hmore⟩⟩
  refine (Supports.of_fragments h' h (fun name hn => ?_) (fun name hn claims => ?_) ?_).admits
    hpath.symm
  · exact Fragment.mem_flatMap_of_insert (hsilent name hn).2
  · refine Fragment.mem_flatMap_of_insert fun hmem => ?_
    exact (hsilent name hn).1 (List.mem_map_of_mem hmem)
  · intro rule
    exact Fragment.mem_flatMap_of_insert (by simp [hrules])

/-- A fragment about another login, with a claim to everything. -/
def sampleAddition : Fragment := ⟨[], [("bob", ["/**"])], ["bob"], []⟩

/-- The sample policy with that fragment between its own two. -/
def grownPolicy : Policy :=
  ⟨⟨[sampleCourse]⟩, [("bob", ["/**"]), ("ann", ["/courses/w*"])],
    [("bob", .ofClaims ["/**"]), ("ann", .ofClaims ["/courses/w*"])], ["bob"], []⟩

/-- A login that the new fragment is silent about may see the page exactly when it could before. -/
theorem grownPolicy_admits_eq :
    ofFragments (sampleFragments.take 1 ++ [sampleAddition] ++ sampleFragments.drop 1) =
        .ok grownPolicy ∧
      ∃ position, grownPolicy.catalog.locate? "/courses/web" = some position ∧
        position.linkPath = "/courses/web" ∧ ∀ now coverage,
          grownPolicy.admits (grownPolicy.caller (some "ann")) now coverage position =
            samplePolicy.admits (samplePolicy.caller (some "ann")) now coverage
              ⟨[.root, .named "courses"], .node samplePage []⟩ := by
  have h : ofFragments (sampleFragments.take 1 ++ sampleFragments.drop 1) = .ok samplePolicy := rfl
  have h' : ofFragments (sampleFragments.take 1 ++ [sampleAddition] ++ sampleFragments.drop 1) =
      .ok grownPolicy := rfl
  have hp : samplePolicy.catalog.locate? "/courses/web" =
      some ⟨[.root, .named "courses"], .node samplePage []⟩ := rfl
  obtain ⟨position, hlocate, hlink, hadmits⟩ := admits_of_insert h h' hp
  refine ⟨h', position, hlocate, hlink, fun now coverage => ?_⟩
  refine (hadmits (some "ann") now coverage).2 rfl fun name hn => ?_
  obtain rfl := Option.some.inj hn
  exact ⟨by decide, by decide⟩

end Policy

end CatalogGuard
