import CatalogGuard.Proofs.Rule.Dates
import CatalogGuard.Proofs.Rule.Queries
import Mathlib.Data.List.DropRight

/-!
# Reading rules

The window of a rule and the rule as a whole.  Which alternative of a window a text takes shows by
its first letters, since no query starts with a letter.  For the same reason nothing is lost when
the reader looks behind an opening bound for the keyword of a closing one: where a query comes next,
that keyword does not.

## Main results

* `window_derives`, `window_append` — windows
* `parse_eq_ok_iff_derives` — rules and queries are read exactly if the text derives them
-/

namespace CatalogGuard.Rule

open Grammar
open Text (Stops isBlank skipBlanks stops_cons)

variable {c : Char} {text token rest gap : List Char} {query : Query}

/-! ### Windows -/

/-- One blank or more are skipped. -/
theorem exists_gap_iff : (∃ gap, Gap gap ∧ text = gap ++ rest ∧ Stops isBlank rest) ↔
    skipBlanks text = rest ∧ rest.length ≠ text.length := by
  constructor
  · rintro ⟨gap, ⟨ne, hgap⟩, rfl, h⟩
    refine ⟨Text.skipBlanks_append hgap h, ?_⟩
    have hpos := List.length_pos_iff.mpr ne
    rw [List.length_append]
    omega
  · rintro ⟨rfl, hlen⟩
    obtain ⟨gap, hgap, htext⟩ := Text.eq_append_skipBlanks text
    refine ⟨gap, ⟨?_, hgap⟩, htext, Text.stops_skipBlanks text⟩
    rintro rfl
    exact hlen (congrArg List.length htext).symm

theorem bound_eq_ok_iff {keyword : String} {t : Instant} :
    bound keyword text = .ok (t, rest) ↔
      ∃ gap date, Gap gap ∧ Date date t ∧ text = gap ++ (date ++ rest) := by
  constructor
  · intro h
    rw [bound] at h
    split at h
    · cases h
    · next hlen =>
      obtain ⟨gap, hgap, htext, -⟩ := exists_gap_iff.mpr ⟨rfl, hlen⟩
      split at h
      · cases h
      · next token after hs =>
        split at h
        · next t' hm =>
          obtain ⟨rfl, rfl⟩ := Prod.mk.inj (Except.ok.inj h)
          obtain ⟨hsplit, fields, hf⟩ := takeShape_dateTimeShape_iff.mp hs
          exact ⟨gap, token, hgap, dateFields_isDigit_of_ofMinutes hf hm, hsplit ▸ htext⟩
        · cases h
  · rintro ⟨gap, date, hgap, hd, rfl⟩
    obtain ⟨hskip, hlen⟩ := exists_gap_iff.mp ⟨gap, hgap, rfl, stops_isBlank_of_date hd rest⟩
    have hs : takeShape dateTimeShape (date ++ rest) = some (date, rest) :=
      takeShape_dateTimeShape_iff.mpr ⟨rfl, _, dateFields_isDecimalDigit hd⟩
    simp only [bound, hskip, if_neg hlen, hs, ofMinutes_eq_ok hd]

theorem bound_append {t : Instant} (keyword : String) (hgap : Gap gap) (hd : Date token t)
    (rest : List Char) : bound keyword (gap ++ (token ++ rest)) = .ok (t, rest) :=
  bound_eq_ok_iff.mpr ⟨gap, token, hgap, hd, rfl⟩

theorem takeUntil_eq_some_iff :
    takeUntil text = some rest ↔ ∃ gap, Gap gap ∧ text = gap ++ ("until".toList ++ rest) := by
  constructor
  · intro h
    rw [takeUntil] at h
    split at h
    · cases h
    · next hlen =>
      obtain ⟨gap, hgap, htext, -⟩ := exists_gap_iff.mpr ⟨rfl, hlen⟩
      rw [isPrefixOf?_eq_some_iff.mp h] at htext
      exact ⟨gap, hgap, htext⟩
  · rintro ⟨gap, hgap, rfl⟩
    have hstop : Stops isBlank ("until".toList ++ rest) := stops_cons.mpr (by decide)
    obtain ⟨hskip, hlen⟩ := exists_gap_iff.mp ⟨gap, hgap, rfl, hstop⟩
    simp only [takeUntil, hskip, if_neg hlen, isPrefixOf?_append]

/-- What is read as a window derives in the grammar. -/
theorem window_derives {opens closes : Option Instant}
    (h : window text = .ok ((opens, closes), rest)) :
    ∃ token, text = token ++ rest ∧ Window token opens closes := by
  rw [window] at h
  split at h
  · next behind hword =>
    obtain rfl := isPrefixOf?_eq_some_iff.mp hword
    obtain ⟨⟨t, t₁⟩, h₁, hread⟩ := bind_eq_ok_iff.mp h
    obtain ⟨gap, date, hgap, hd, rfl⟩ := bound_eq_ok_iff.mp h₁
    dsimp only at hread
    split at hread
    · next hnone =>
      obtain ⟨hwindow, rfl⟩ := Prod.mk.inj (Except.ok.inj hread)
      obtain ⟨rfl, rfl⟩ := Prod.mk.inj hwindow
      exact ⟨_, by simp, .opens (.bound hgap hd)⟩
    · next behind hsome =>
      obtain ⟨gap', hgap', rfl⟩ := takeUntil_eq_some_iff.mp hsome
      obtain ⟨⟨u, t₂⟩, h₂, hwhole⟩ := bind_eq_ok_iff.mp hread
      obtain ⟨gap'', date', hgap'', hd', rfl⟩ := bound_eq_ok_iff.mp h₂
      obtain ⟨hwindow, rfl⟩ := Prod.mk.inj (Except.ok.inj hwhole)
      obtain ⟨rfl, rfl⟩ := Prod.mk.inj hwindow
      exact ⟨_, by simp, .both (.bound hgap hd) hgap' (.bound hgap'' hd')⟩
  · split at h
    · next behind hword =>
      obtain rfl := isPrefixOf?_eq_some_iff.mp hword
      obtain ⟨⟨t, t₁⟩, h₁, hread⟩ := bind_eq_ok_iff.mp h
      obtain ⟨gap, date, hgap, hd, rfl⟩ := bound_eq_ok_iff.mp h₁
      obtain ⟨hwindow, rfl⟩ := Prod.mk.inj (Except.ok.inj hread)
      obtain ⟨rfl, rfl⟩ := Prod.mk.inj hwindow
      exact ⟨_, by simp, .closes (.bound hgap hd)⟩
    · obtain ⟨hwindow, rfl⟩ := Prod.mk.inj (Except.ok.inj h)
      obtain ⟨rfl, rfl⟩ := Prod.mk.inj hwindow
      exact ⟨[], rfl, .always⟩

theorem isPrefixOf?_eq_none (hc : Text.isWordChar c = true) (h : Stops Text.isWordChar text)
    (word : List Char) : (c :: word).isPrefixOf? text = none := by
  rw [Option.eq_none_iff_forall_ne_some]
  intro rest heq
  rw [isPrefixOf?_eq_some_iff.mp heq, List.cons_append, stops_cons, hc] at h
  exact Bool.false_ne_true h.symm

/-- Where a slash comes next, no closing bound does. -/
theorem takeUntil_of_slashNext (h : SlashNext text) : takeUntil text = none := by
  rw [Option.eq_none_iff_forall_ne_some]
  intro rest heq
  obtain ⟨gap, ⟨-, hgap⟩, rfl⟩ := takeUntil_eq_some_iff.mp heq
  have hstop : Stops isBlank ("until".toList ++ rest) := stops_cons.mpr (by decide)
  rw [SlashNext, Text.skipBlanks_append hgap hstop] at h
  rcases h with hnil | ⟨more, hcons⟩
  · cases hnil
  · exact absurd (List.cons.inj hcons).1 (by decide)

/-- A window is read whole where a slash comes next. -/
theorem window_append {opens closes : Option Instant} (hw : Window token opens closes)
    (h : SlashNext rest) : window (token ++ rest) = .ok ((opens, closes), rest) := by
  have hstop : Stops Text.isWordChar rest :=
    h.stops (Text.isWordChar_of_ascii (by decide)) fun _ hc => Text.isWordChar_of_isBlank hc
  cases hw with
  | always =>
    have hafter : "after".toList.isPrefixOf? rest = none :=
      isPrefixOf?_eq_none (Text.isWordChar_of_ascii (by decide)) hstop _
    have huntil : "until".toList.isPrefixOf? rest = none :=
      isPrefixOf?_eq_none (Text.isWordChar_of_ascii (by decide)) hstop _
    simp only [window, List.nil_append, hafter, huntil]
  | opens hb =>
    obtain ⟨hgap, hd⟩ := hb
    simp only [List.append_assoc, window, isPrefixOf?_append, bind_eq_ok_iff, Prod.exists]
    exact ⟨_, rest, bound_append "after" hgap hd rest, by rw [takeUntil_of_slashNext h]⟩
  | closes hb =>
    obtain ⟨hgap, hd⟩ := hb
    have hafter : ∀ behind, "after".toList.isPrefixOf? ("until".toList ++ behind) = none :=
      fun _ => rfl
    simp only [List.append_assoc, window, hafter, isPrefixOf?_append, bind_eq_ok_iff, Prod.exists]
    exact ⟨_, rest, bound_append "until" hgap hd rest, rfl⟩
  | @both opening gap closing t u ho hgap hc =>
    obtain ⟨hgap₁, hd₁⟩ := ho
    obtain ⟨hgap₂, hd₂⟩ := hc
    have huntil : ∀ behind, takeUntil (gap ++ ("until".toList ++ behind)) = some behind :=
      fun _ => takeUntil_eq_some_iff.mpr ⟨gap, hgap, rfl⟩
    simp only [List.append_assoc, window, isPrefixOf?_append, bind_eq_ok_iff, Prod.exists]
    refine ⟨t, _, bound_append "after" hgap₁ hd₁ _, ?_⟩
    simp only [huntil, bind_eq_ok_iff, Prod.exists]
    exact ⟨u, rest, bound_append "until" hgap₂ hd₂ rest, rfl⟩

/-! ### Rules -/

/-- A window is nothing at all or starts with no blank. -/
theorem window_cases {opens closes : Option Instant} (hw : Window token opens closes) :
    token = [] ∧ opens = none ∧ closes = none ∨ ∀ rest, Stops isBlank (token ++ rest) := by
  cases hw with
  | always => exact Or.inl ⟨rfl, rfl, rfl⟩
  | opens hb =>
    cases hb
    exact Or.inr fun rest => stops_cons.mpr (by decide)
  | closes hb =>
    cases hb
    exact Or.inr fun rest => stops_cons.mpr (by decide)
  | both ho hgap hc =>
    cases ho
    exact Or.inr fun rest => stops_cons.mpr (by decide)

/-- What is left when the blanks in front of a rule are skipped. -/
theorem exists_window_skipBlanks {opens closes : Option Instant} (hgap : Blanks gap)
    (hw : Window token opens closes) (rest : List Char) :
    ∃ behind, skipBlanks (gap ++ token ++ rest) = token ++ behind ∧
      skipBlanks behind = skipBlanks rest := by
  rw [List.append_assoc]
  rcases window_cases hw with ⟨rfl, -, -⟩ | hstop
  · exact ⟨skipBlanks rest, skipBlanks_append_of_blanks hgap rest,
      List.dropWhile_idempotent _ rest⟩
  · exact ⟨rest, Text.skipBlanks_append hgap (hstop rest), rfl⟩

/-- **A window in front of a query.**  Behind a window where a slash comes next, the rule is read as
the query that follows. -/
theorem whole_append {opens closes : Option Instant} (hgap : Blanks gap)
    (hw : Window token opens closes) (h : SlashNext rest) :
    whole (gap ++ token ++ rest) = (patterns rest).map fun query => ⟨query, opens, closes⟩ := by
  obtain ⟨behind, hskip, hbehind⟩ := exists_window_skipBlanks hgap hw rest
  have hnext : SlashNext behind := by rwa [SlashNext, hbehind]
  rw [whole, hskip, window_append hw hnext, ← patterns_congr hbehind]
  show (patterns behind >>= fun query => Except.ok (Rule.mk query opens closes)) = _
  cases patterns behind <;> rfl

/-- A rule is read exactly if the text derives it. -/
theorem whole_eq_ok_iff {rule : Rule} : whole text = .ok rule ↔ RuleText text rule := by
  constructor
  · intro h
    rw [whole] at h
    obtain ⟨⟨⟨opens, closes⟩, rest⟩, hwindow, hrest⟩ := bind_eq_ok_iff.mp h
    obtain ⟨query, hquery, heq⟩ := bind_eq_ok_iff.mp hrest
    obtain rfl := Except.ok.inj heq
    obtain ⟨gap, hgap, htext⟩ := Text.eq_append_skipBlanks text
    obtain ⟨token, htoken, hw⟩ := window_derives hwindow
    rw [htext, htoken, ← List.append_assoc]
    exact .rule hgap hw (patterns_eq_ok_iff_queryText.mp hquery)
  · rintro ⟨hgap, hw, hq⟩
    rw [whole_append hgap hw (slashNext_of_queryText hq), patterns_eq_ok_iff_queryText.mpr hq]
    rfl

theorem mapError_eq_ok_iff {ε ε' α : Type} {read : Except ε α} {f : ε → ε'} {a : α} :
    read.mapError f = .ok a ↔ read = .ok a := by
  cases read with
  | error fault =>
    constructor
    · intro h
      cases h
    · intro h
      cases h
  | ok b =>
    show (.ok b : Except ε' α) = .ok a ↔ (.ok b : Except ε α) = .ok a
    rw [Except.ok.injEq, Except.ok.injEq]

theorem mapError_eq_error_iff {ε ε' α : Type} {read : Except ε α} {f : ε → ε'} {fault : ε'} :
    read.mapError f = .error fault ↔ ∃ cause, read = .error cause ∧ f cause = fault := by
  cases read with
  | error cause =>
    show (.error (f cause) : Except ε' α) = .error fault ↔ _
    simp
  | ok b =>
    show (.ok b : Except ε' α) = .error fault ↔ _
    simp

theorem rule_parse_eq_ok_iff {source : String} {rule : Rule} :
    parse source = .ok rule ↔ RuleText source.toList rule :=
  mapError_eq_ok_iff.trans whole_eq_ok_iff

theorem query_parse_eq_ok_iff {source : String} :
    Query.parse source = .ok query ↔ QueryText source.toList query :=
  mapError_eq_ok_iff.trans patterns_eq_ok_iff_queryText

theorem rule_parse_eq_error_iff {source : String} {complaint : Complaint} :
    parse source = .error complaint ↔
      ∃ refusal, whole source.toList = .error refusal ∧ refusal.complaint source = complaint :=
  mapError_eq_error_iff

theorem query_parse_eq_error_iff {source : String} {complaint : Complaint} :
    Query.parse source = .error complaint ↔
      ∃ refusal, patterns source.toList = .error refusal ∧ refusal.complaint source = complaint :=
  mapError_eq_error_iff

/-- **What is read is what derives.**  For every text, a rule is read exactly if the text derives
that rule in the grammar, and likewise for queries. -/
theorem parse_eq_ok_iff_derives (text : String) :
    (∀ rule, parse text = .ok rule ↔ RuleText text.toList rule) ∧
      ∀ query, Query.parse text = .ok query ↔ QueryText text.toList query :=
  ⟨fun _ => mapError_eq_ok_iff.trans whole_eq_ok_iff,
    fun _ => mapError_eq_ok_iff.trans patterns_eq_ok_iff_queryText⟩

end CatalogGuard.Rule
