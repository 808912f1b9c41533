import CatalogGuard.Proofs.Rule.Complaints

/-!
# Queries behind rules

A text that starts with a slash goes on with any rule: its patterns are put behind those of the
rule, and the window stays.  No token of the rule reaches into what follows.  A name or a date ends
at a slash or a blank, the keyword of a closing bound is looked for and not found, and blanks at the
end of the rule are skipped with those in front of the slash.

The same holds of texts that are refused.  What a production does depends only on what is left of
the text, so that the refusal is at the same place as if the rule did not stand before, and the
complaint counts the bytes of the rule as well.

## Main results

* `whole_append_ruleText` — reading behind a rule is reading behind nothing
* `parse_append` — texts put together
-/

namespace CatalogGuard.Rule

open Grammar
open Text (byteSize isBlank skipBlanks)

variable {source more : String} {text rest : List Char} {rule : Rule} {refusal : Refusal}

/-- **Reading behind a rule.**  A text where a slash comes next is read behind a rule as if the rule
did not stand before. -/
theorem whole_append_ruleText (hr : RuleText text rule) (h : SlashNext rest) :
    whole (text ++ rest) =
      (patterns rest).map fun query => ⟨rule.query ++ query, rule.opens, rule.closes⟩ := by
  obtain @⟨gap, window, text, opens, closes, query, hgap, hw, hq⟩ := hr
  rw [List.append_assoc, whole_append hgap hw (h.append_queryText hq), patterns_append hq h]
  cases patterns rest <;> rfl

/-- A slash is the first character that is no blank. -/
theorem slashNext_of_find? (h : text.find? (fun c => !isBlank c) = some '/') : SlashNext text := by
  rw [List.find?_not_eq_head?_dropWhile] at h
  obtain ⟨more, hmore⟩ := List.head?_eq_some_iff.mp h
  exact Or.inr ⟨more, hmore⟩

/-- The complaint about a text that is refused behind another one. -/
theorem complaint_append (source : String) (htext : refusal.rest <:+ more.toList) :
    refusal.complaint (source ++ more) =
      ⟨source ++ more, refusal.fault, source.utf8ByteSize + (refusal.complaint more).offset⟩ := by
  obtain ⟨before, hbefore⟩ := htext
  have hboth : (source ++ more).toList = (source.toList ++ before) ++ refusal.rest := by
    rw [String.toList_append, ← hbefore, List.append_assoc]
  have hoffset := offset_complaint hboth
  rw [Text.byteSize_append, ← offset_complaint hbefore.symm, Text.byteSize_eq, String.ofList_toList]
    at hoffset
  exact congrArg (Text.Located.mk (source ++ more) refusal.fault) hoffset

/-- **Texts put together.**  Let a text be read as a rule, and let a slash be the first character of
another text that is no blank.  The two together are read as a rule exactly if the second is read as
a query.  The rule is then the first one, with the patterns of the query behind its own; and what is
complained about in the query is complained about in the rule, as many bytes further as the first
text is long. -/
theorem parse_append (hread : parse source = .ok rule)
    (hslash : more.toList.find? (fun c => !isBlank c) = some '/') :
    ((∃ all, parse (source ++ more) = .ok all) ↔ ∃ query, Query.parse more = .ok query) ∧
      (∀ query, Query.parse more = .ok query →
        parse (source ++ more) = .ok ⟨rule.query ++ query, rule.opens, rule.closes⟩) ∧
      ∀ complaint, Query.parse more = .error complaint →
        parse (source ++ more) =
          .error ⟨source ++ more, complaint.cause, source.utf8ByteSize + complaint.offset⟩ := by
  have hwhole := whole_append_ruleText (rule_parse_eq_ok_iff.mp hread) (slashNext_of_find? hslash)
  rw [← String.toList_append] at hwhole
  have hok : ∀ query, Query.parse more = .ok query →
      parse (source ++ more) = .ok ⟨rule.query ++ query, rule.opens, rule.closes⟩ := by
    intro query hquery
    rw [Query.parse, mapError_eq_ok_iff] at hquery
    rw [parse, mapError_eq_ok_iff, hwhole, hquery]
    rfl
  have herror : ∀ complaint, Query.parse more = .error complaint → parse (source ++ more) =
      .error ⟨source ++ more, complaint.cause, source.utf8ByteSize + complaint.offset⟩ := by
    intro complaint hcomplaint
    obtain ⟨refusal, hrefusal, rfl⟩ := query_parse_eq_error_iff.mp hcomplaint
    obtain ⟨before, -, htext, -⟩ := patterns_completable hrefusal
    refine rule_parse_eq_error_iff.mpr ⟨refusal, ?_, complaint_append source ⟨before, htext.symm⟩⟩
    rw [hwhole, hrefusal]
    rfl
  refine ⟨⟨?_, ?_⟩, hok, herror⟩
  · rintro ⟨all, hall⟩
    cases hquery : Query.parse more with
    | ok query => exact ⟨query, rfl⟩
    | error complaint =>
      rw [herror complaint hquery] at hall
      cases hall
  · rintro ⟨query, hquery⟩
    exact ⟨_, hok query hquery⟩

/-- A window without a query. -/
def windowText : String := "after 2024-02-29T08:05"

/-- Behind a window alone a query is read, and a faulty one is refused at its own place. -/
theorem parse_append_windowText : ∃ rule query complaint,
    parse windowText = .ok rule ∧ Query.parse " /web/**" = .ok query ∧
      parse (windowText ++ " /web/**") = .ok ⟨rule.query ++ query, rule.opens, rule.closes⟩ ∧
      Query.parse " /web[@n=ö]" = .error complaint ∧ complaint.offset = 9 ∧
      parse (windowText ++ " /web[@n=ö]") =
        .error ⟨windowText ++ " /web[@n=ö]", complaint.cause, 31⟩ := by
  have hreadings : (whole windowText.toList).toOption.isSome = true ∧
      (patterns " /web/**".toList).toOption.isSome = true ∧
      refusal? (patterns " /web[@n=ö]".toList) = some ⟨.value, ['ö', ']']⟩ := by
    decide +kernel
  obtain ⟨hrule, hquery, hrefusal⟩ := hreadings
  obtain ⟨rule, hrule⟩ := Option.isSome_iff_exists.mp hrule
  obtain ⟨query, hquery⟩ := Option.isSome_iff_exists.mp hquery
  have hrule : parse windowText = .ok rule :=
    mapError_eq_ok_iff.mpr (toOption_eq_some_iff.mp hrule)
  have hquery : Query.parse " /web/**" = .ok query :=
    mapError_eq_ok_iff.mpr (toOption_eq_some_iff.mp hquery)
  have hcomplaint := query_parse_eq_error_iff.mpr ⟨_, refusal?_eq_some_iff.mp hrefusal, rfl⟩
  have hread := (parse_append hrule (by decide)).2.1 query hquery
  have hrefused := (parse_append hrule (by decide)).2.2 _ hcomplaint
  exact ⟨rule, query, _, hrule, hquery, hread, hcomplaint, by decide, hrefused⟩

end CatalogGuard.Rule
