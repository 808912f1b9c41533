import CatalogGuard.Policy.Check
import CatalogGuard.Proofs.Access.Walk
import CatalogGuard.Proofs.Claim.Admission
import CatalogGuard.Proofs.Policy.Merge

/-!
# Who may see what

A check folds a verdict down a path, with one automaton for all claims of the caller, and asks the
rules if the verdict is denied.  None of this is needed to say what it decides.  A caller may see a
position if no entry on the way is denied or a draft of others, and if

* every entry on the way is open by itself: a draft, public, open to the registered, or reached by
  some one claim, which may be another one for each entry, or
* some rule in force matches the position.

The fragments of the policy matter only as places where a login is registered or has a claim listed
and where rules stand.

## Main definitions

* `Fragment.Registers`, `Fragment.Claims` — what fragments say about an optional login

## Main results

* `accepts_run_claimsFor_iff` — the automaton of a login, in terms of its claims
* `admits_iff` — the check of a caller, read off the path
* `admits_caller_iff` — the same for a login and the fragments that make the policy
-/

namespace CatalogGuard.Policy

variable {policy : Policy} {caller : Caller} {now : Instant} {coverage : Coverage}
  {position : Position}

/-- **The check, read off the path.**  No entry on the way is closed to the caller, and either each
is open for a reason of its own or some rule in force matches the position. -/
theorem admits_iff :
    policy.admits caller now coverage position = true ↔
      (∀ entry ∈ position.belowRoot, entry.blocks caller = false) ∧
        ((∀ before entry after, position.belowRoot = before ++ entry :: after →
            entry.Opens caller (((policy.claimsFor caller).run
              ((before ++ [entry]).map Entry.link)).accepts = true)) ∨
          policy.rulesCover now coverage position = true) := by
  rw [admits, Bool.or_eq_true, Verdict.isGranted_along_iff, Bool.and_eq_true, Bool.not_eq_true',
    List.any_eq_false]
  simp only [Bool.not_eq_true]
  constructor
  · rintro (h | ⟨hb, hr⟩)
    · refine ⟨fun entry hmem => ?_, Or.inl fun before entry after hp => (h _ _ _ hp).2⟩
      obtain ⟨before, after, hp⟩ := List.append_of_mem hmem
      exact (h before entry after hp).1
    · exact ⟨hb, Or.inr hr⟩
  · rintro ⟨hb, h | hr⟩
    · refine Or.inl fun before entry after hp => ⟨hb entry ?_, h before entry after hp⟩
      rw [hp]
      exact List.mem_append_right _ List.mem_cons_self
    · exact Or.inr ⟨hb, hr⟩

/-! ### In terms of fragments -/

/-- Some fragment registers a login. -/
def Fragment.Registers (fragments : List Fragment) (login : Option String) : Prop :=
  ∃ name ∈ login, ∃ fragment ∈ fragments, name ∈ fragment.registered

/-- Some claim that some fragment lists for a login admits links by itself. -/
def Fragment.Claims (fragments : List Fragment) (login : Option String) (links : List String) :
    Prop :=
  ∃ name ∈ login, ∃ fragment ∈ fragments, ∃ claims, (name, claims) ∈ fragment.claims ∧
    ∃ claim ∈ claims, Claim.Admits claim links

variable {fragments : List Fragment} {login : Option String}

theorem registers_iff (h : ofFragments fragments = .ok policy) :
    (policy.caller login).isRegistered = true ↔ Fragment.Registers fragments login := by
  obtain ⟨-, rfl⟩ := ofFragments_eq_ok_iff.mp h
  simp only [isRegistered_caller_iff, List.mem_flatMap, Fragment.Registers]

theorem claims_iff (h : ofFragments fragments = .ok policy) {links : List String} :
    (∃ name ∈ login, ∃ claim ∈ policy.claimsOf name, Claim.Admits claim links) ↔
      Fragment.Claims fragments login links := by
  obtain ⟨-, rfl⟩ := ofFragments_eq_ok_iff.mp h
  simp only [mem_claimsOf_iff, List.mem_flatMap, Fragment.Claims]
  constructor
  · rintro ⟨name, hn, claim, ⟨claims, ⟨fragment, hf, hmem⟩, hc⟩, ha⟩
    exact ⟨name, hn, fragment, hf, claims, hmem, claim, hc, ha⟩
  · rintro ⟨name, hn, fragment, hf, claims, hmem, claim, hc, ha⟩
    exact ⟨name, hn, claim, ⟨claims, ⟨fragment, hf, hmem⟩, hc⟩, ha⟩

/-- The automaton of a login accepts links exactly if some claim admits the links by itself. -/
theorem accepts_run_claimsFor_iff (h : ofFragments fragments = .ok policy) {links : List String}
    (hne : links ≠ []) :
    ((policy.claimsFor (policy.caller login)).run links).accepts = true ↔
      Fragment.Claims fragments login links := by
  rw [← claims_iff h, claimsFor, login?_caller]
  cases login with
  | none => simp [Claim.Automaton.run_rejecting, Claim.Automaton.accepts]
  | some name =>
    simp only [Option.bind_some, lookup_automata h, Option.mem_def, Option.some.injEq,
      exists_eq_left']
    split
    next =>
      rw [Option.getD_some, Claim.accepts_run_iff_leads, Claim.exists_leads_iff, or_iff_right hne]
    next hunlisted =>
      rw [Option.getD_none, Claim.Automaton.run_rejecting]
      refine iff_of_false Bool.false_ne_true ?_
      rintro ⟨claim, hmem, -⟩
      obtain ⟨claims, hlist, -⟩ := mem_claimsOf_iff.mp hmem
      exact hunlisted (List.mem_map_of_mem hlist)

theorem rulesCover_iff (h : ofFragments fragments = .ok policy) :
    policy.rulesCover now coverage position = true ↔
      ∃ fragment ∈ fragments, ∃ rule ∈ fragment.rules,
        rule.inForce now = true ∧ Query.covers rule.query coverage position = true := by
  obtain ⟨-, rfl⟩ := ofFragments_eq_ok_iff.mp h
  simp only [rulesCover, Rule.covers, List.any_eq_true, List.mem_flatMap, Bool.and_eq_true]
  constructor
  · rintro ⟨rule, ⟨fragment, hf, hmem⟩, hr⟩
    exact ⟨fragment, hf, rule, hmem, hr⟩
  · rintro ⟨fragment, hf, rule, hmem, hr⟩
    exact ⟨rule, ⟨fragment, hf, hmem⟩, hr⟩

/-- **Who may see what.**  With the policy of fragments, a login may see a position exactly if no
entry on the way is denied or a draft that the login is no author of, and either each entry on the
way is a draft, is public, is open to the registered while some fragment registers the login, or is
reached by a claim that some fragment lists for the login; or else some rule of some fragment is in
force and matches the position. -/
theorem admits_caller_iff (h : ofFragments fragments = .ok policy) (login : Option String)
    (now : Instant) (coverage : Coverage) (position : Position) :
    policy.admits (policy.caller login) now coverage position = true ↔
      (∀ entry ∈ position.belowRoot, entry.access ≠ .deny ∧
          (entry.draft = true → ∃ name ∈ login, name ∈ entry.authors)) ∧
        ((∀ before entry after, position.belowRoot = before ++ entry :: after →
            entry.draft = true ∨ entry.access = .everyone ∨
              entry.access = .loggedIn ∧ Fragment.Registers fragments login ∨
              Fragment.Claims fragments login ((before ++ [entry]).map Entry.link)) ∨
          ∃ fragment ∈ fragments, ∃ rule ∈ fragment.rules,
            rule.inForce now = true ∧ Query.covers rule.query coverage position = true) := by
  have hclaims : ∀ (before : List Entry) (entry : Entry),
      ((policy.claimsFor (policy.caller login)).run
          ((before ++ [entry]).map Entry.link)).accepts = true ↔
        Fragment.Claims fragments login ((before ++ [entry]).map Entry.link) :=
    fun before entry => accepts_run_claimsFor_iff h (by simp)
  rw [admits_iff, rulesCover_iff h]
  simp only [Entry.blocks_eq_false_iff, Caller.isAuthorOf_iff, login?_caller, Entry.Opens,
    registers_iff h, hclaims]

/-- A page that only claims open. -/
def samplePage : Entry := { Entry.named "web" with access := .claim }

/-- A public course with that page below it. -/
def sampleCourse : Branch := .node (.named "courses") [.node samplePage []]

/-- The course in one fragment, and a claim to it in another. -/
def sampleFragments : List Fragment :=
  [⟨[sampleCourse], [], [], []⟩, ⟨[], [("ann", ["/courses/w*"])], [], []⟩]

/-- The policy of the two. -/
def samplePolicy : Policy :=
  ⟨⟨[sampleCourse]⟩, [("ann", ["/courses/w*"])], [("ann", .ofClaims ["/courses/w*"])], [], []⟩

/-- A claim in one fragment opens a page that another fragment defines. -/
theorem samplePolicy_admits :
    ofFragments sampleFragments = .ok samplePolicy ∧
      samplePolicy.admits (samplePolicy.caller (some "ann")) ⟨⟨2026, 1, 1, 0, 0, 0, 0⟩, by decide⟩
        .exact ⟨[.root, .named "courses"], .node samplePage []⟩ = true := by
  have h : ofFragments sampleFragments = .ok samplePolicy := rfl
  refine ⟨h, (admits_caller_iff h (some "ann") _ _ _).mpr ⟨?_, Or.inl ?_⟩⟩
  · intro entry hmem
    change entry ∈ [Entry.named "courses", samplePage] at hmem
    rcases List.mem_pair.mp hmem with rfl | rfl
    · exact ⟨by decide, fun hd => absurd hd (by decide)⟩
    · exact ⟨by decide, fun hd => absurd hd (by decide)⟩
  · intro before entry after hp
    change [Entry.named "courses", samplePage] = before ++ entry :: after at hp
    rcases before with _ | ⟨first, _ | ⟨second, more⟩⟩
    · obtain ⟨rfl, -⟩ := List.cons.inj hp
      exact Or.inr (Or.inl rfl)
    · obtain ⟨rfl, rfl, -⟩ : Entry.named "courses" = first ∧ samplePage = entry ∧ [] = after := by
        simpa using hp
      refine Or.inr (Or.inr (Or.inr ⟨"ann", rfl, _, List.mem_cons_of_mem _ List.mem_cons_self, _,
        List.mem_cons_self, _, List.mem_cons_self, Or.inl ⟨by decide, ?_⟩⟩))
      exact .cons (by decide) (.cons (by decide) .nil)
    · simp at hp

end CatalogGuard.Policy
