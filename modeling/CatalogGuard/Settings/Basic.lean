import CatalogGuard.FileName
import CatalogGuard.Rule.Serial
import CatalogGuard.Settings.Format
import CatalogGuard.Settings.Overlay

/-!
# Settings

There are three settings: the folder of the policies, the coverage of rules and the filter for log
messages.  A settings file, if there is one, is overlaid by environment variables, and the outcome
is laid over the defaults.  Only what comes out of this has to make sense: a scalar counts as the
text that it is written as, a section may be a list of its values in order, and what is unknown is
skipped.
-/

namespace CatalogGuard

/-- The settings of the program. -/
structure Settings where
  /-- The folder of the policies, as it was given. -/
  folder : String := "policies"
  /-- What rules say about entries below the paths they spell out. -/
  coverage : Coverage := .subtree
  /-- The filter for log messages. -/
  logFilter : String := "info"
  deriving Repr, DecidableEq

namespace Settings

/-- Settings as a tree of sections. -/
def toTree (settings : Settings) : Tree :=
  .table [("policy", .table [("dir", .text settings.folder)]),
    ("rules", .table [("match_mode", .text settings.coverage.text)]),
    ("logging", .table [("filter", .text settings.logFilter)])]

/-- The value of a section with one setting, which may also be a list that starts with it. -/
def sectionValue? (name : String) : Tree → Option (Option Tree)
  | .table fields => some (fields.lookup name)
  | .list items => some items.head?
  | _ => none

/-- The coverage in a value: its written form in any letter case, or a table with that as the name
of its only field. -/
def coverageOf? : Tree → Option Coverage
  | .text text => Coverage.ofText? (foldCase text)
  | .table [(name, _)] => Coverage.ofText? (foldCase name)
  | _ => none

/-- The settings in a tree of sections.  The coverage may be missing. -/
def ofTree? (tree : Tree) : Option Settings := do
  let folder ← ← sectionValue? "dir" (← tree.field? "policy")
  let coverage ← sectionValue? "match_mode" (← tree.field? "rules")
  let logFilter ← ← sectionValue? "filter" (← tree.field? "logging")
  let coverage ←
    match coverage with
    | none => some .subtree
    | some value => coverageOf? value
  some { folder := ← folder.text?, coverage, logFilter := ← logFilter.text? }

/-- Replaces every pair of underscores by a point. -/
def pointed : List Char → List Char
  | '_' :: '_' :: rest => '.' :: pointed rest
  | c :: rest => c :: pointed rest
  | [] => []

/-- The dotted name of a setting that an environment variable gives, if it gives one. -/
def dottedName? (name : String) : Option String :=
  ("catalog_access__".toList.isPrefixOf? (foldCase name).toList).map fun rest =>
    String.ofList (pointed rest)

/-- The settings that environment variables give. -/
def ofEnvironment (environment : List (String × String)) : List (String × Tree) :=
  environment.filterMap fun (name, value) =>
    (dottedName? name).map fun name => (name, .text value)

/-- The settings, given those of the settings file and the environment. -/
def load? (file : List (String × Tree)) (environment : List (String × String)) :
    Option Settings :=
  let given := overlaySource (overlaySource (.table []) file) (ofEnvironment environment)
  ofTree? (overlayFields ({} : Settings).toTree given.fields)

/-- The path of the policies.  A folder that does not start with a slash lies in the working
directory. -/
def folderIn (workingDirectory : String) (settings : Settings) : String :=
  FileName.join workingDirectory settings.folder

/-- The path of the policies as it is shown among the settings: the idle parts at both ends of a
folder in the working directory are left out. -/
def folderFrom (workingDirectory : String) (settings : Settings) : String :=
  match settings.folder.toList with
  | '/' :: _ => settings.folder
  | path =>
    let parts := (FileName.partsToLast path).dropWhile FileName.isIdle
    FileName.join workingDirectory (String.ofList (['/'].intercalate parts))

end Settings

end CatalogGuard
