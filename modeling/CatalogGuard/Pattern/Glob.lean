import CatalogGuard.Text.Search

/-!
# Globs

A glob matches the name of one entry.  A star in it stands for any run of characters, the empty
one included; all other characters stand for themselves, and the match is anchored at both ends.

A pattern with a star is kept as the literal pieces between its stars.  Matching is greedy: the
first piece has to start the name, each inner piece is then looked for as far left as possible, and
the last piece has to end what is left.
-/

namespace CatalogGuard

open Text (afterFirst)

/-- A compiled pattern for the name of one entry. -/
inductive Glob where
  /-- Matches every name. -/
  | any
  /-- Matches the one name it holds. -/
  | literal (text : List Char)
  /-- Matches the names made of the pieces in their order, with anything between two of them. -/
  | pieces (first : List Char) (inner : List (List Char)) (last : List Char)
  deriving Repr, DecidableEq

namespace Glob

/-- Compiles a pattern.  A pattern of stars alone matches every name, one without a star only
itself. -/
def compile (pattern : List Char) : Glob :=
  if !pattern.contains '*' then .literal pattern
  else if pattern.all (· == '*') then .any
  else
    match pattern.splitOn '*' with
    | first :: rest => .pieces first rest.dropLast (rest.getLastD [])
    | [] => .literal pattern

/-- What is left of a name behind the leftmost occurrences of the pieces, one after the other. -/
def afterAll : List (List Char) → List Char → Option (List Char)
  | [], name => some name
  | piece :: more, name =>
    match afterFirst piece name with
    | some rest => afterAll more rest
    | none => none

/-- Whether a glob matches a name. -/
def accepts : Glob → List Char → Bool
  | .any, _ => true
  | .literal text, name => text == name
  | .pieces first inner last, name =>
    match first.isPrefixOf? name with
    | none => false
    | some rest =>
      match afterAll inner rest with
      | none => false
      | some rest => last.isSuffixOf rest

end Glob

end CatalogGuard
