import CatalogGuard.Access.Caller
import CatalogGuard.Claim.Automaton

/-!
# Verdicts along a path

A verdict is carried down a path, from one entry to the next.  While it is granted it holds the
automaton of the caller's claims, stepped with every link on the way; once it is denied it stays so
for all that is below.
-/

namespace CatalogGuard

open Claim (Automaton)

/-- What a caller may see, as far as a path has been followed. -/
inductive Verdict where
  /-- The entry may be seen; the claims have been followed so far. -/
  | granted (claims : Automaton)
  /-- Neither the entry nor anything below it may be seen by claims and levels alone. -/
  | denied
  deriving Repr, DecidableEq

namespace Verdict

/-- The verdict for an entry, given that for the entry above. -/
def step (caller : Caller) : Verdict → Entry → Verdict
  | .denied, _ => .denied
  | .granted claims, entry =>
    let next := claims.step entry.link
    if entry.access = .deny then .denied
    else if entry.draft then
      if caller.isAuthorOf entry then .granted next else .denied
    else
      match entry.access with
      | .everyone => .granted next
      | .loggedIn => if caller.isRegistered || next.accepts then .granted next else .denied
      | _ => if next.accepts then .granted next else .denied

/-- The verdict at the end of a path. -/
def along (caller : Caller) (verdict : Verdict) (path : List Entry) : Verdict :=
  path.foldl (step caller) verdict

/-- Whether a verdict lets the caller see the entry. -/
def isGranted : Verdict → Bool
  | .granted _ => true
  | .denied => false

end Verdict

end CatalogGuard
