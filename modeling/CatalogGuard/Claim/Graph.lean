import CatalogGuard.Pattern.Name
import CatalogGuard.Text.Parts

/-!
# The graph of a set of claims

A claim is a path of name patterns that its holder may follow from the root.  The claims of one
caller are merged into one graph of states: claims that begin alike share the states of their
common beginning, so that the graph is a tree, and its states are numbered in the order in which
they are made, from the start on.

A `**` in a claim becomes an arc from a state to itself that takes every name; what stands behind
it in the claim is of no effect.
-/

namespace CatalogGuard.Claim

/-- A way out of a state. -/
structure Arc where
  /-- The names it takes. -/
  pattern : NamePattern
  /-- The number of the state it leads to. -/
  target : Nat
  deriving Repr, DecidableEq

/-- States with their ways out; a state is named by its place in the list. -/
structure Graph where
  /-- The arcs of each state. -/
  states : List (List Arc)
  deriving Repr, DecidableEq

namespace Graph

/-- The graph of no claims: the start alone. -/
def start : Graph := ⟨[[]]⟩

/-- The arcs of a state. -/
def arcs (graph : Graph) (state : Nat) : List Arc := graph.states.getD state []

/-- Adds an arc to a state. -/
def addArc (graph : Graph) (state : Nat) (arc : Arc) : Graph :=
  ⟨graph.states.modify state (· ++ [arc])⟩

/-- Adds an arc from a state to a new state. -/
def grow (graph : Graph) (state : Nat) (pattern : NamePattern) : Graph :=
  ⟨(graph.addArc state ⟨pattern, graph.states.length⟩).states ++ [[]]⟩

/-- Lets a state keep itself alive, unless it does already. -/
def addLoop (graph : Graph) (state : Nat) : Graph :=
  if (graph.arcs state).any fun arc => arc.pattern == .anySequence then graph
  else graph.addArc state ⟨.anySequence, state⟩

/-- Adds the patterns of a claim from a state on, along the arcs that are there. -/
def extend (graph : Graph) (state : Nat) : List NamePattern → Graph
  | [] => graph
  | .anySequence :: _ => graph.addLoop state
  | pattern :: patterns =>
    match (graph.arcs state).find? fun arc => arc.pattern == pattern with
    | some arc => graph.extend arc.target patterns
    | none => (graph.grow state pattern).extend graph.states.length patterns

/-- The patterns of a claim: those of its non-empty parts between slashes. -/
def patternsOf (claim : String) : List NamePattern :=
  (Text.parts claim.toList).map fun part => .ofText (String.ofList part)

/-- The graph of a list of claims. -/
def ofClaims (claims : List String) : Graph :=
  claims.foldl (fun graph claim => graph.extend 0 (patternsOf claim)) start

end Graph

end CatalogGuard.Claim
