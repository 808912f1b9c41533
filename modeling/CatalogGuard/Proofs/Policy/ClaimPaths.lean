import CatalogGuard.Proofs.Claim.Admission
import CatalogGuard.Proofs.Pattern.Glob
import CatalogGuard.Proofs.Policy.ClaimTexts
import CatalogGuard.Proofs.Rule.Walk

/-!
# Claims as queries

A claim that passes the check is also a query, and there are two ways to hold it against a path: the
automaton of claims follows links from state to state, and a walk takes entries and patterns side by
side.  The automaton admits every beginning of what the walk takes, and nothing else, if no
claim has anything but `**` behind its first `**`.

That condition is needed.  The automaton passes over what stands behind a `**`, whereas no walk is
ever completed there: the query covers nothing at all.

## Main definitions

* `StarsLast` — nothing but `**` stands behind the first `**`

## Main results

* `covers_exact_iff` — the paths that a plain query covers, in terms of their names
* `admits_iff_exists_continuation` — what a claim admits can be completed to what it spells out
* `accepts_run_iff_covers` — the automaton of claims accepts the beginnings of covered paths
-/

namespace CatalogGuard.Policy

open Claim (Agree Admits IsOpen Automaton Graph.patternsOf)

/-- Nothing but `**` stands behind the first `**`. -/
def StarsLast (patterns : List NamePattern) : Prop :=
  ∀ pattern ∈ patterns.dropWhile (· != .anySequence), pattern = .anySequence

variable {claims : List String} {claim : String} {names : List String} {query : Query}
  {path : List Entry} {position : Position}

/-! ### Plain queries look at names -/

theorem accepts_of_filter_eq_none {pattern : EntryPattern} (h : pattern.filter = none)
    (entry : Entry) : pattern.accepts entry = pattern.name.accepts entry.name := by
  rw [EntryPattern.accepts, h, Option.all_none, Bool.and_true]

theorem takes_iff_agree (h : ∀ pattern ∈ query, pattern.filter = none) :
    Query.Takes query path ↔ Agree (query.map EntryPattern.name) (path.map Entry.name) := by
  rw [Query.Takes, Agree, List.forall₂_map_left_iff, List.forall₂_map_right_iff]
  induction query generalizing path with
  | nil => simp only [List.forall₂_nil_left_iff]
  | cons pattern query ih =>
    obtain ⟨hp, hq⟩ := List.forall_mem_cons.mp h
    simp only [List.forall₂_cons_left_iff, accepts_of_filter_eq_none hp, ih hq]

theorem map_name_spelled (query : Query) :
    query.spelled.map EntryPattern.name =
      (query.map EntryPattern.name).takeWhile (· != .anySequence) := by
  rw [List.takeWhile_map]
  rfl

theorem map_name_onward (query : Query) :
    query.onward.map EntryPattern.name =
      (query.map EntryPattern.name).dropWhile (· != .anySequence) := by
  rw [List.dropWhile_map]
  rfl

/-- A plain query goes on where it has a `**`, and stops otherwise. -/
theorem goesOn_iff (h : ∀ pattern ∈ query, pattern.filter = none) :
    Query.GoesOn .exact query.onward path ↔
      StarsLast (query.map EntryPattern.name) ∧
        (path = [] ∨ .anySequence ∈ query.map EntryPattern.name) := by
  rw [StarsLast, ← map_name_onward, List.forall_mem_map]
  have hmem : .anySequence ∈ query.map EntryPattern.name ↔ query.onward ≠ [] := by
    rw [Query.onward, ne_eq, List.dropWhile_eq_nil_iff, List.mem_map]
    simp
  rw [hmem]
  have hsub : query.onward ⊆ query := (List.dropWhile_sublist _).subset
  cases honward : query.onward with
  | nil => simp [Query.GoesOn]
  | cons star stars =>
    have hstar : star.name = .anySequence := Query.name_of_onward_eq_cons honward
    have haccepts : ∀ entry, star.accepts entry = true := by
      intro entry
      rw [accepts_of_filter_eq_none (h star (hsub (honward ▸ List.mem_cons_self))), hstar]
      rfl
    simp [Query.GoesOn, hstar, haccepts]

/-- **What a plain query covers.**  Among the names below the root those before the first `**` are
taken one by one, and there may be further ones only if there is a `**`, with nothing but the like
behind it. -/
theorem covers_exact_iff (h : ∀ pattern ∈ query, pattern.filter = none)
    (hpath : position.path.map Entry.name = "" :: names) :
    query.covers .exact position = true ↔
      StarsLast (query.map EntryPattern.name) ∧ ∃ first rest, names = first ++ rest ∧
        Agree ((query.map EntryPattern.name).takeWhile (· != .anySequence)) first ∧
          (rest = [] ∨ .anySequence ∈ query.map EntryPattern.name) := by
  obtain ⟨root, below, heq, hroot, rfl⟩ := List.map_eq_cons_iff.mp hpath
  have hspelled : ∀ pattern ∈ query.spelled, pattern.filter = none :=
    fun pattern hmem => h pattern ((List.takeWhile_sublist _).subset hmem)
  rw [Query.covers_iff_walk hroot heq, Query.walk_iff_exists_split, ← map_name_spelled]
  constructor
  · rintro ⟨first, rest, rfl, hfirst, hrest⟩
    obtain ⟨hstars, hends⟩ := (goesOn_iff h).mp hrest
    exact ⟨hstars, first.map Entry.name, rest.map Entry.name, List.map_append,
      (takes_iff_agree hspelled).mp hfirst, hends.imp_left (List.map_eq_nil_iff.mpr ·)⟩
  · rintro ⟨hstars, _, _, hnames, hfirst, hends⟩
    obtain ⟨first, rest, rfl, rfl, rfl⟩ := List.map_eq_append_iff.mp hnames
    exact ⟨first, rest, rfl, (takes_iff_agree hspelled).mpr hfirst, (goesOn_iff h).mpr ⟨hstars,
      hends.imp_left List.map_eq_nil_iff.mp⟩⟩

/-! ### Completing what a claim admits -/

theorem exists_agree (label : Claim.Label) : ∃ names, Agree label names := by
  induction label with
  | nil => exact ⟨[], .nil⟩
  | cons pattern label ih =>
    obtain ⟨name, hname⟩ := pattern.exists_accepts
    obtain ⟨names, hnames⟩ := ih
    exact ⟨name :: names, .cons hname hnames⟩

/-- What a claim admits can be completed: to what the claim spells out, with more behind it only if
the claim has a `**`. -/
theorem admits_iff_exists_continuation : Admits claim names ↔
    ∃ more first rest, names ++ more = first ++ rest ∧ Agree (Claim.spelled claim) first ∧
      (rest = [] ∨ IsOpen claim) := by
  constructor
  · rintro (⟨hlen, h⟩ | ⟨hopen, hlen, h⟩)
    · obtain ⟨more, hmore⟩ := exists_agree ((Claim.spelled claim).drop names.length)
      refine ⟨more, names ++ more, [], (List.append_nil _).symm, ?_, Or.inl rfl⟩
      have hall : Agree (_ ++ _) (names ++ more) := List.rel_append h hmore
      rwa [List.take_append_drop] at hall
    · exact ⟨[], _, names.drop (Claim.spelled claim).length, by simp, h, Or.inr hopen⟩
  · rintro ⟨more, first, rest, heq, hfirst, hends⟩
    have hlen : (Claim.spelled claim).length = first.length := hfirst.length_eq
    rcases Nat.lt_or_ge first.length names.length with hlt | hle
    · have hopen : IsOpen claim := by
        refine hends.resolve_left ?_
        rintro rfl
        have := congrArg List.length heq
        simp only [List.length_append, List.length_nil] at this
        omega
      have htake : names.take (Claim.spelled claim).length = first := by
        rw [hlen, ← List.take_append_of_le_length hlt.le, heq, List.take_left]
      exact Or.inr ⟨hopen, by omega, htake ▸ hfirst⟩
    · have htake := List.forall₂_take names.length hfirst
      have hnames : first.take names.length = names := by
        rw [← List.take_append_of_le_length hle, ← heq, List.take_left]
      rw [hnames] at htake
      exact Or.inl ⟨by omega, htake⟩

/-! ### Claims and queries -/

/-- The paths that the query of a claim covers, in terms of the claim. -/
theorem covers_iff_of_claim (hplain : PlainQuery query) (hc : claim.toList = Query.canonical query)
    (hstars : StarsLast (Graph.patternsOf claim))
    (hpath : position.path.map Entry.name = "" :: names) :
    query.covers .exact position = true ↔ ∃ first rest, names = first ++ rest ∧
      Agree (Claim.spelled claim) first ∧ (rest = [] ∨ IsOpen claim) := by
  have hnames := patternsOf_canonical hplain hc
  rw [covers_exact_iff (fun pattern hmem => (hplain pattern hmem).1) hpath, ← hnames,
    and_iff_right hstars]
  rfl

/-- There is a way down through entries of any names. -/
theorem exists_position (names : List String) :
    ∃ position : Position, position.path.map Entry.name = "" :: names := by
  have hne : ("" :: names).map Entry.named ≠ [] := by simp
  refine ⟨⟨(("" :: names).map Entry.named).dropLast,
    .node ((("" :: names).map Entry.named).getLast hne) []⟩, ?_⟩
  rw [Position.path, Branch.entry, List.dropLast_append_getLast hne, List.map_map]
  exact List.map_id _

theorem admits_nil (claim : String) : Admits claim [] := Or.inl ⟨Nat.zero_le _, .nil⟩

theorem accepts_run_iff_admits (hne : claims ≠ []) :
    ((Automaton.ofClaims claims).run names).accepts = true ↔
      ∃ claim ∈ claims, Admits claim names := by
  refine (Claim.accepts_run_iff_leads.trans Claim.exists_leads_iff).trans
    (or_iff_right_of_imp ?_)
  rintro rfl
  obtain ⟨claim, hc⟩ := List.exists_mem_of_ne_nil claims hne
  exact ⟨claim, hc, admits_nil claim⟩

/-- What a claim admits can be completed to a path that its query covers. -/
theorem covers_of_admits (hvalid : validateClaim claim = .ok ())
    (hstars : StarsLast (Graph.patternsOf claim)) (h : Admits claim names) :
    ∃ query, Query.parse claim = .ok query ∧ ∃ more, ∀ position : Position,
      position.path.map Entry.name = "" :: (names ++ more) →
        query.covers .exact position = true := by
  obtain ⟨query, hparse, hplain, hc⟩ := validateClaim_eq_ok_iff_plain.mp hvalid
  obtain ⟨more, hmore⟩ := admits_iff_exists_continuation.mp h
  exact ⟨query, hparse, more, fun position hpath =>
    (covers_iff_of_claim hplain hc hstars hpath).mpr hmore⟩

/-- A claim admits every beginning of a path that its query covers. -/
theorem admits_of_covers (hvalid : validateClaim claim = .ok ())
    (hstars : StarsLast (Graph.patternsOf claim)) (hparse : Query.parse claim = .ok query)
    {more : List String} (hpath : position.path.map Entry.name = "" :: (names ++ more))
    (h : query.covers .exact position = true) : Admits claim names := by
  obtain ⟨read, hread, hplain, hc⟩ := validateClaim_eq_ok_iff_plain.mp hvalid
  obtain rfl := Except.ok.inj (hparse.symm.trans hread)
  exact admits_iff_exists_continuation.mpr
    ⟨more, (covers_iff_of_claim hplain hc hstars hpath).mp h⟩

/-- **Claims admit the beginnings of what their queries cover.**  Of claims that pass the check and
have nothing but `**` behind their first `**`, the automaton accepts names exactly if one of the
queries covers the path of these names and some further ones, below the unnamed root; and then it
covers every such path, whatever else is said of its entries. -/
theorem accepts_run_iff_covers (hne : claims ≠ [])
    (hvalid : ∀ claim ∈ claims, validateClaim claim = .ok ())
    (hstars : ∀ claim ∈ claims, StarsLast (Graph.patternsOf claim)) (names : List String) :
    (((Automaton.ofClaims claims).run names).accepts = true ↔
        ∃ claim ∈ claims, ∃ query, Query.parse claim = .ok query ∧ ∃ more,
          ∃ position : Position, position.path.map Entry.name = "" :: (names ++ more) ∧
            query.covers .exact position = true) ∧
      (((Automaton.ofClaims claims).run names).accepts = true ↔
        ∃ claim ∈ claims, ∃ query, Query.parse claim = .ok query ∧ ∃ more,
          ∀ position : Position, position.path.map Entry.name = "" :: (names ++ more) →
            query.covers .exact position = true) := by
  rw [accepts_run_iff_admits hne]
  refine ⟨⟨?_, ?_⟩, ?_, ?_⟩
  · rintro ⟨claim, hmem, h⟩
    obtain ⟨query, hparse, more, hall⟩ := covers_of_admits (hvalid claim hmem) (hstars claim hmem) h
    obtain ⟨position, hpath⟩ := exists_position (names ++ more)
    exact ⟨claim, hmem, query, hparse, more, position, hpath, hall position hpath⟩
  · rintro ⟨claim, hmem, query, hparse, more, position, hpath, h⟩
    exact ⟨claim, hmem, admits_of_covers (hvalid claim hmem) (hstars claim hmem) hparse hpath h⟩
  · rintro ⟨claim, hmem, h⟩
    exact ⟨claim, hmem, covers_of_admits (hvalid claim hmem) (hstars claim hmem) h⟩
  · rintro ⟨claim, hmem, query, hparse, more, hall⟩
    obtain ⟨position, hpath⟩ := exists_position (names ++ more)
    exact ⟨claim, hmem, admits_of_covers (hvalid claim hmem) (hstars claim hmem) hparse hpath
      (hall position hpath)⟩

/-- Of two claims one goes on without end, and its query covers paths that begin with the names. -/
theorem exists_covers_courses :
    ∃ claim ∈ ["/news/20*", "/courses/**"], ∃ query, Query.parse claim = .ok query ∧ ∃ more,
      ∃ position : Position, position.path.map Entry.name = "" :: (["courses", "web"] ++ more) ∧
        query.covers .exact position = true := by
  have hvalid : ∀ claim ∈ ["/news/20*", "/courses/**"], validateClaim claim = .ok () := by
    intro claim hmem
    rcases List.mem_pair.mp hmem with rfl | rfl
    · exact validateClaim_of_plain (plainQuery_queryOfNames
        (@names_of_ascii ["news".toList, "20*".toList] (by decide))) (by decide)
    · exact validateClaim_of_plain (plainQuery_queryOfNames
        (@names_of_ascii ["courses".toList, "**".toList] (by decide))) (by decide)
  have hstars : ∀ claim ∈ ["/news/20*", "/courses/**"], StarsLast (Graph.patternsOf claim) := by
    unfold StarsLast
    decide
  exact (accepts_run_iff_covers (by simp) hvalid hstars ["courses", "web"]).1.mp (by decide)

end CatalogGuard.Policy
