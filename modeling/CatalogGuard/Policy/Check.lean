import CatalogGuard.Policy.Merge
import CatalogGuard.Rule.Matching

/-!
# What a caller may see

A caller may see a position if the verdict along its path is granted.  Failing that, a rule in
force may still open it, unless some entry on the way is denied or is a draft of others.

`visible` lists all positions a caller may see, each before those below it.  It carries the verdict
down the branches, so that every entry is looked at once, and leaves out what is below an entry
that is closed to the caller.
-/

namespace CatalogGuard.Policy

/-- Whether some rule in force matches a position. -/
def rulesCover (policy : Policy) (now : Instant) (coverage : Coverage) (position : Position) :
    Bool :=
  policy.rules.any fun rule => rule.covers now coverage position

/-- Whether a caller may see a position. -/
def admits (policy : Policy) (caller : Caller) (now : Instant) (coverage : Coverage)
    (position : Position) : Bool :=
  ((Verdict.granted (policy.claimsFor caller)).along caller position.belowRoot).isGranted ||
    (!position.belowRoot.any (fun entry => entry.blocks caller) &&
      policy.rulesCover now coverage position)

mutual

/-- The links of the positions of a branch that a caller may see, given the entries above and the
verdict for them. -/
def visibleIn (policy : Policy) (caller : Caller) (now : Instant) (coverage : Coverage)
    (above : List Entry) (verdict : Verdict) : Branch → List String
  | .node entry children =>
    if entry.blocks caller then []
    else
      let next := verdict.step caller entry
      let here : Position := ⟨above, .node entry children⟩
      let below := visibleInAll policy caller now coverage (above ++ [entry]) next children
      if next.isGranted || policy.rulesCover now coverage here then here.linkPath :: below
      else below

/-- The links of the positions of several branches that a caller may see. -/
def visibleInAll (policy : Policy) (caller : Caller) (now : Instant) (coverage : Coverage)
    (above : List Entry) (verdict : Verdict) : List Branch → List String
  | [] => []
  | branch :: rest =>
    visibleIn policy caller now coverage above verdict branch ++
      visibleInAll policy caller now coverage above verdict rest

end

/-- The links of all positions below the root that a caller may see. -/
def visible (policy : Policy) (caller : Caller) (now : Instant) (coverage : Coverage) :
    List String :=
  visibleInAll policy caller now coverage [.root] (.granted (policy.claimsFor caller))
    policy.catalog.branches

end CatalogGuard.Policy
