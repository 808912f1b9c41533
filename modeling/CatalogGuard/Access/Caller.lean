import CatalogGuard.Catalog.Entry

/-!
# Callers

Who asks to see an entry.  A login may or may not be registered; the author of an entry is known by
the login alone.
-/

namespace CatalogGuard

/-- Who is asking. -/
inductive Caller where
  /-- Someone without a login. -/
  | anonymous
  /-- A login without a registration. -/
  | unregistered (login : String)
  /-- A registered login. -/
  | registered (login : String)
  deriving Repr, DecidableEq

namespace Caller

/-- The login of a caller. -/
def login? : Caller → Option String
  | .anonymous => none
  | .unregistered login => some login
  | .registered login => some login

/-- Whether a caller is registered. -/
def isRegistered : Caller → Bool
  | .registered _ => true
  | _ => false

/-- Whether a caller is among the authors of an entry. -/
def isAuthorOf (caller : Caller) (entry : Entry) : Bool :=
  caller.login?.any fun login => entry.authors.contains login

end Caller

/-- Whether an entry is closed to a caller with all that is below it, whatever claims and rules say:
it is denied to everyone, or it is a draft of others. -/
def Entry.blocks (entry : Entry) (caller : Caller) : Bool :=
  entry.access == .deny || (entry.draft && !caller.isAuthorOf entry)

end CatalogGuard
