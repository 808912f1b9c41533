import CatalogGuard.Claim.Graph

/-!
# Following claims

An automaton is a graph of claims with the set of states that the links followed so far may have
led to.  It is stepped with one link after the other, and accepts as long as some state is alive.
Once none is left it has become the rejecting automaton, which no link revives.
-/

namespace CatalogGuard.Claim

/-- What the claims of a caller say about the path followed so far. -/
inductive Automaton where
  /-- Some claim goes on; the live states stand in ascending order. -/
  | running (graph : Graph) (live : List Nat)
  /-- No claim goes on. -/
  | rejecting
  deriving Repr, DecidableEq

namespace Automaton

/-- The automaton of a list of claims, before the first link. -/
def ofClaims (claims : List String) : Automaton := .running (.ofClaims claims) [0]

/-- Whether an arc from one of the states takes a link to the target. -/
def reaches (graph : Graph) (live : List Nat) (link : String) (target : Nat) : Bool :=
  live.any fun state =>
    (graph.arcs state).any fun arc =>
      arc.target == target && arc.pattern.toGlob.accepts link.toList

/-- The states that a link leads to, in ascending order. -/
def successors (graph : Graph) (live : List Nat) (link : String) : List Nat :=
  (List.range graph.states.length).filter (reaches graph live link)

/-- Follows a link. -/
def step : Automaton → String → Automaton
  | .rejecting, _ => .rejecting
  | .running graph live, link =>
    match successors graph live link with
    | [] => .rejecting
    | next => .running graph next

/-- Follows links one after the other. -/
def run (automaton : Automaton) (links : List String) : Automaton := links.foldl step automaton

/-- Whether some claim allows the path followed so far. -/
def accepts : Automaton → Bool
  | .running .. => true
  | .rejecting => false

/-- The live states, in ascending order. -/
def live : Automaton → List Nat
  | .running _ live => live
  | .rejecting => []

/-- The number of states of the graph; the rejecting automaton has none. -/
def stateCount : Automaton → Nat
  | .running graph _ => graph.states.length
  | .rejecting => 0

end Automaton

end CatalogGuard.Claim
