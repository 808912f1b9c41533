import CatalogGuard.Access.Verdict
import CatalogGuard.Policy.Error
import CatalogGuard.Policy.Fragment
import CatalogGuard.Catalog.Position

/-!
# Policies

A policy is what all fragments say together.  Fragments may add to each other freely; only a
top-level entry must not be defined twice.
-/

namespace CatalogGuard

/-- A complete policy. -/
structure Policy where
  /-- The catalog. -/
  catalog : Catalog
  /-- Lists of claims, each with its login; a login may have several. -/
  claims : List (String × List String)
  /-- The automaton of the claims of each login, before the first link. -/
  automata : List (String × Claim.Automaton)
  /-- The registered logins. -/
  registered : List String
  /-- The rules. -/
  rules : List Rule
  deriving Repr

namespace Policy

/-- The first member of a list that stands in it before. -/
def firstRepeated? (names : List String) : Option String :=
  go [] names
where
  /-- Goes on behind the members already seen. -/
  go (seen : List String) : List String → Option String
    | [] => none
    | name :: rest => if seen.contains name then some name else go (name :: seen) rest

/-- All claims that lists of claims have for a login, in order. -/
def claimsIn (claims : List (String × List String)) (login : String) : List String :=
  (claims.filter fun list => list.1 == login).flatMap Prod.snd

/-- The automata of lists of claims, one for each login that has a list, be it an empty one. -/
def automataOf (claims : List (String × List String)) : List (String × Claim.Automaton) :=
  (claims.map Prod.fst).eraseDups.map fun login => (login, .ofClaims (claimsIn claims login))

/-- The policy made of fragments, in their order. -/
def ofFragments (fragments : List Fragment) : Except Error Policy :=
  let whole := Fragment.concat fragments
  match firstRepeated? (whole.entries.map Branch.name) with
  | some name => .error (.entry (.repeated name))
  | none =>
    .ok ⟨⟨whole.entries⟩, whole.claims, automataOf whole.claims, whole.registered, whole.rules⟩

/-- The caller with an optional login. -/
def caller (policy : Policy) : Option String → Caller
  | none => .anonymous
  | some login =>
    if policy.registered.contains login then .registered login else .unregistered login

/-- All claims of a login, in order. -/
def claimsOf (policy : Policy) (login : String) : List String := claimsIn policy.claims login

/-- The automaton of a caller's claims, before the first link; it rejects if the policy has none for
the caller. -/
def claimsFor (policy : Policy) (caller : Caller) : Claim.Automaton :=
  (caller.login?.bind fun login => policy.automata.lookup login).getD .rejecting

/-- A list without the members that equal the one right before. -/
def dropRepeats : List String → List String
  | a :: b :: rest => if a = b then dropRepeats (b :: rest) else a :: dropRepeats (b :: rest)
  | names => names

/-- The distinct members of a list, in ascending order. -/
def sortedDistinct (names : List String) : List String :=
  dropRepeats (names.mergeSort fun a b => decide (a ≤ b))

/-- The logins that have claims, in ascending order. -/
def claimants (policy : Policy) : List String := sortedDistinct (policy.claims.map Prod.fst)

/-- The registered logins, in ascending order. -/
def members (policy : Policy) : List String := sortedDistinct policy.registered

end Policy

end CatalogGuard
