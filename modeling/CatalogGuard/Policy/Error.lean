import CatalogGuard.Catalog.Entry
import CatalogGuard.Rule.Fault

/-!
# What can be wrong with policies

Policies are read from files that describe the catalog, the claims of each login, the registered
logins and the rules.  An error names its cause; its wording, its code and its hint are functions
of the cause.
-/

namespace CatalogGuard.Policy

/-- Why a file could not be read. -/
inductive ReadFault where
  /-- It is a directory. -/
  | isDirectory
  /-- It is no UTF-8 text. -/
  | invalidData
  deriving Repr, DecidableEq

/-- What is wrong with a policy as a whole. -/
inductive PolicyFault where
  /-- There is no directory of policy files. -/
  | noDirectory (directory : String)
  /-- A catalog holds something other than entries. -/
  | catalogChild (name : String)
  /-- Claims of no login. -/
  | loginMissing
  /-- A rule without a text. -/
  | ruleMissing
  deriving Repr, DecidableEq

/-- What is wrong with an entry of the catalog. -/
inductive EntryFault where
  /-- It has no name. -/
  | nameMissing
  /-- Its name is empty or holds a slash. -/
  | badName (name : String)
  /-- Its access level is no text. -/
  | accessKind (entry : String)
  /-- Its access level does not exist. -/
  | unknownAccess (entry level : String)
  /-- Its draft mark is no truth value. -/
  | draftKind (entry : String)
  /-- Its link is no text, is empty or holds a slash. -/
  | badLink (entry : String)
  /-- Two entries below it have one name. -/
  | duplicate (name entry : String)
  /-- It holds something other than entries and authors. -/
  | child (name entry : String)
  /-- Two top-level entries have one name. -/
  | repeated (name : String)
  deriving Repr, DecidableEq

/-- What is wrong with a claim that reads as a query. -/
inductive ClaimFault where
  /-- It asks about properties. -/
  | filters
  /-- It is not spelled in its canonical form. -/
  | spelling (canonical : String)
  deriving Repr, DecidableEq

/-- Why policies were refused. -/
inductive Error where
  /-- A file could not be read. -/
  | unreadable (path : String) (fault : ReadFault)
  /-- A file is no KDL document. -/
  | notKdl
  /-- A policy is wrong as a whole. -/
  | policy (fault : PolicyFault)
  /-- An entry of the catalog is wrong. -/
  | entry (fault : EntryFault)
  /-- A rule or claim does not read as one. -/
  | rule (text : String) (complaint : Rule.Complaint)
  /-- A claim is a query that no claim may be. -/
  | claim (text : String) (fault : ClaimFault)
  deriving Repr, DecidableEq

/-- The wording of a fault. -/
def PolicyFault.message : PolicyFault → String
  | .noDirectory directory =>
    "policies directory `" ++ directory ++ "` does not exist or is not a directory"
  | .catalogChild name => "unexpected child `" ++ name ++ "` in catalog (expected `entry`)"
  | .loginMissing => "claims node requires a login argument (e.g. claims \"alice\")"
  | .ruleMissing =>
    "rule node requires a string argument (e.g. rule \"after 2024-01-01T00:00 /kurzy/**\")"

/-- The wording of a fault. -/
def EntryFault.message : EntryFault → String
  | .nameMissing => "entry node requires a name argument (e.g. entry \"kurzy\")"
  | .badName name => "entry name `" ++ name ++ "` must be non-empty and must not contain `/`"
  | .accessKind entry => "`access` of entry `" ++ entry ++ "` must be a string"
  | .unknownAccess entry level =>
    "entry `" ++ entry ++ "`: " ++ AccessLevel.unknownMessage level
  | .draftKind entry => "`draft` of entry `" ++ entry ++ "` must be a boolean"
  | .badLink entry =>
    "`link` of entry `" ++ entry ++ "` must be a non-empty string without `/`"
  | .duplicate name entry => "duplicate entry `" ++ name ++ "` under `" ++ entry ++ "`"
  | .child name entry =>
    "unexpected child `" ++ name ++ "` in entry `" ++ entry ++
      "` (expected `entry` or `authors`)"
  | .repeated name => "top-level entry `" ++ name ++ "` is defined more than once"

/-- The wording of a fault. -/
def ClaimFault.message : ClaimFault → String
  | .filters => "property filters are not supported in claims"
  | .spelling canonical => "write it as `" ++ canonical ++ "`"

namespace Error

/-- The wording of an error. -/
def message : Error → String
  | .unreadable path _ => "Failed to load policy file `" ++ path ++ "`"
  | .notKdl => "KDL parse error: Failed to parse KDL document"
  | .policy fault => "Invalid policy: " ++ fault.message
  | .entry fault => "Invalid catalog entry: " ++ fault.message
  | .rule text _ => "Invalid access rule `" ++ text ++ "`"
  | .claim text fault => "Invalid claim `" ++ text ++ "`: " ++ fault.message

/-- The code of an error. -/
def code : Error → String
  | .unreadable .. => "catalog_access::policy_load"
  | .notKdl => "catalog_access::kdl_parse"
  | .policy _ => "catalog_access::invalid_policy"
  | .entry _ => "catalog_access::invalid_entry"
  | .rule .. => "catalog_access::invalid_rule"
  | .claim .. => "catalog_access::invalid_claim"

/-- The hint that goes with an error. -/
def help? : Error → Option String
  | .unreadable .. => some "Check that the file exists and contains valid KDL syntax"
  | .notKdl => some "Check your KDL file syntax, see https://kdl.dev for the specification"
  | .policy _ =>
    some "Each policy file may contain `catalog`, `claims`, `registered` and `rule` KDL nodes"
  | .entry _ =>
    some ("Entry syntax: entry \"name\" access=\"public|logged-in|claim|deny\" draft=#true " ++
      "\x7b authors \x7b - \"login\" \x7d \x7d")
  | .rule .. => none
  | .claim .. =>
    some ("Claims are plain entry paths such as `/kurzy/daweb/*`, " ++
      "without filters or inner whitespace")

end Error

end CatalogGuard.Policy
