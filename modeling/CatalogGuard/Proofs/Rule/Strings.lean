import CatalogGuard.Proofs.Text.Spelling
import CatalogGuard.Rule.Reader

/-!
# Reading quoted strings

A quoted string is split off before it is decoded, by a rule that knows nothing of escapes except
that a backslash covers the next character.  Then it is decoded, and nothing asks where the decoding
ended.  The two always agree: whatever spells a single character is passed over in one piece by the
splitting, so that both end at the same quote.

## Main definitions

* `Passes` — a text that the splitting passes over in one piece

## Main results

* `takeQuoted_of_decode` — a string that decodes is split off whole, whatever follows
* `decode_of_takeQuoted` — what was split off is used up by its decoding
-/

namespace CatalogGuard.Rule

open Text.Quoted (Spelled Spelling hexNumber hexValue decodeBody decode spelled_of_decodeBody)

variable {a b c d : Char} {n : Nat} {text token rest run more body decoded : List Char}

/-! ### The splitting -/

/-- A text that the splitting of quoted strings passes over in one piece. -/
def Passes (run : List Char) : Prop :=
  ∀ rest, takeQuoted.body (run ++ rest) =
    (takeQuoted.body rest).map fun read => (run ++ read.1, read.2)

theorem passes_nil : Passes [] := by
  intro rest
  exact (congrFun Option.map_id _).symm

theorem Passes.append (h : Passes run) (h' : Passes more) : Passes (run ++ more) := by
  intro rest
  rw [List.append_assoc, h, h', Option.map_map]
  congr 1
  funext read
  simp

theorem passes_char (hq : c ≠ '\x22') (hb : c ≠ '\\') : Passes [c] := by
  intro rest
  rw [List.singleton_append, takeQuoted.body]
  · rfl
  · exact hq
  · intro h
    exact absurd h hb
  · intro _ _ h
    exact absurd h hb

theorem passes_escape (hc : c ≠ '\n') : Passes ['\\', c] := by
  intro rest
  show takeQuoted.body ('\\' :: c :: rest) = _
  rw [takeQuoted.body, if_neg hc]
  rfl

/-- What was split off is split off again, whatever follows. -/
theorem takeQuoted_body_eq_some (h : takeQuoted.body text = some (token, rest)) :
    text = token ++ rest ∧ ∀ more, takeQuoted.body (token ++ more) = some (token, more) := by
  fun_induction takeQuoted.body text generalizing token rest with
  | case1 => cases h
  | case2 tail =>
    obtain ⟨rfl, rfl⟩ := Prod.mk.inj (Option.some.inj h)
    exact ⟨rfl, fun more => rfl⟩
  | case3 => cases h
  | case4 => cases h
  | case5 c tail hc ih =>
    obtain ⟨⟨token', rest'⟩, hb, heq⟩ := Option.map_eq_some_iff.mp h
    obtain ⟨rfl, rfl⟩ := Prod.mk.inj heq
    obtain ⟨rfl, hmore⟩ := ih hb
    refine ⟨rfl, fun more => ?_⟩
    have := passes_escape hc (token' ++ more)
    rw [hmore] at this
    exact this
  | case6 c tail hq hend hmid ih =>
    have hb : c ≠ '\\' := by
      rintro rfl
      cases tail with
      | nil => exact hend rfl rfl
      | cons d tail => exact hmid d tail rfl rfl
    obtain ⟨⟨token', rest'⟩, hbody, heq⟩ := Option.map_eq_some_iff.mp h
    obtain ⟨rfl, rfl⟩ := Prod.mk.inj heq
    obtain ⟨rfl, hmore⟩ := ih hbody
    refine ⟨rfl, fun more => ?_⟩
    have := passes_char hq hb (token' ++ more)
    rw [hmore] at this
    exact this

/-! ### The decoding -/

theorem passes_of_hexValue (h : hexValue c = some n) : Passes [c] := by
  refine passes_char ?_ ?_
  · rintro rfl
    cases h
  · rintro rfl
    cases h

theorem passes_of_hexNumber (h : hexNumber a b c d = some n) : Passes [a, b, c, d] := by
  simp only [hexNumber, Option.bind_eq_bind, Option.bind_eq_some_iff] at h
  obtain ⟨_, ha, _, hb, _, hc, _, hd, -⟩ := h
  exact (((passes_of_hexValue ha).append (passes_of_hexValue hb)).append
    (passes_of_hexValue hc)).append (passes_of_hexValue hd)

/-- A spelling is passed over in one piece. -/
theorem passes_of_spelling (h : Spelling run c) : Passes run := by
  cases h with
  | raw hq hb _ => exact passes_char hq hb
  | @short letter _ h =>
    have hletter : letter ≠ '\n' := by
      rintro rfl
      cases h
    exact passes_escape hletter
  | unit h => exact (passes_escape (by decide)).append (passes_of_hexNumber h)
  | pair h _ h' _ =>
    exact ((passes_escape (by decide)).append (passes_of_hexNumber h)).append
      ((passes_escape (by decide)).append (passes_of_hexNumber h'))

theorem passes_of_spelled (h : Spelled body decoded) : Passes body := by
  induction h with
  | nil => exact passes_nil
  | cons hc _ ih => exact (passes_of_spelling hc).append ih

/-- The splitting ends where the decoding does. -/
theorem takeQuoted_body_of_decodeBody (h : decodeBody text = .ok (decoded, rest)) :
    ∃ token, text = token ++ rest ∧
      ∀ more, takeQuoted.body (token ++ more) = some (token, more) := by
  obtain ⟨body, rfl, hbody⟩ := spelled_of_decodeBody h
  refine ⟨body ++ ['\x22'], (List.append_assoc body ['\x22'] rest).symm, fun more => ?_⟩
  rw [List.append_assoc, passes_of_spelled hbody]
  rfl

/-- A quoted string is split off whole. -/
theorem takeQuoted_of_decode (h : decode token = .ok (decoded, [])) (rest : List Char) :
    takeQuoted (token ++ rest) = some (token, rest) := by
  rw [Text.Quoted.decode.eq_def] at h
  split at h
  · obtain ⟨body, rfl, hb⟩ := takeQuoted_body_of_decodeBody h
    show (takeQuoted.body (body ++ [] ++ rest)).map _ = _
    rw [List.append_nil, hb]
    rfl
  · cases h

/-- Nothing of what was split off is left by the decoding. -/
theorem decode_of_takeQuoted (ht : takeQuoted text = some (token, rest))
    (hd : decode token = .ok (decoded, more)) : text = token ++ rest ∧ more = [] := by
  rw [takeQuoted.eq_def] at ht
  split at ht
  · obtain ⟨⟨body, rest'⟩, hbody, heq⟩ := Option.map_eq_some_iff.mp ht
    obtain ⟨rfl, rfl⟩ := Prod.mk.inj heq
    obtain ⟨rfl, hall⟩ := takeQuoted_body_eq_some hbody
    refine ⟨rfl, ?_⟩
    obtain ⟨body', rfl, hall'⟩ := takeQuoted_body_of_decodeBody hd
    have := hall []
    rw [List.append_nil, hall'] at this
    exact (Prod.mk.inj (Option.some.inj this)).2
  · cases ht

end CatalogGuard.Rule
