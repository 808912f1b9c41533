import CatalogGuard.Command.Basic
import CatalogGuard.Policy.Check
import CatalogGuard.Policy.Folder
import CatalogGuard.Settings.Basic

/-!
# Running commands

A run reads the arguments, then the settings, and then does what the command asks for.  The first
of these that fails ends it; nothing has been printed then.

The run reaches its surroundings through a record of questions, in any monad.  The program asks the
system; with the identity monad a run is a plain function of a described world.
-/

namespace CatalogGuard

namespace Command

/-- Why a run failed. -/
inductive Failure where
  /-- The arguments are no command line of the program. -/
  | usage
  /-- The settings make no sense. -/
  | settings
  /-- The policies were refused. -/
  | policy (error : Policy.Error)
  /-- There is no entry at the path that was asked for. -/
  | noEntry (path : String)
  /-- The text of a rule or query was refused. -/
  | text (complaint : Rule.Complaint)
  deriving Repr, DecidableEq

/-- The exit code of a failure. -/
def Failure.code : Failure → Nat
  | .usage => 2
  | _ => 1

/-- What is said of a failure. -/
def Failure.message : Failure → String
  | .usage =>
    "usage: catalog-access [--config FILE] check --path PATH [--user LOGIN] [--at TIME]\n" ++
      "       catalog-access [--config FILE] parse [--rule] TEXT\n" ++
      "       catalog-access [--config FILE] tree [--user LOGIN] [--at TIME]"
  | .settings => "invalid settings"
  | .policy error => error.message
  | .noEntry path => Catalog.missingMessage path
  | .text complaint => complaint.message

/-- An indented value on lines of its own. -/
def valueText (value : Json) : String := value.toIndented ++ "\n"

/-- What is printed of a text that was read: the canonical form and the content. -/
def readingText (canonical : List Char) (content : Json) : String :=
  String.ofList canonical ++ "\n" ++ valueText (.reading canonical content)

/-- What `parse` prints. -/
def parseText (asRule : Bool) (text : String) : Except Failure String :=
  if asRule then
    match Rule.parse text with
    | .ok rule => .ok (readingText rule.canonical rule.toJson)
    | .error complaint => .error (.text complaint)
  else
    match Query.parse text with
    | .ok query => .ok (readingText (Query.canonical query) (Query.toJson query))
    | .error complaint => .error (.text complaint)

/-- What `check` prints. -/
def checkText (policy : Policy) (coverage : Coverage) (login : Option String) (now : Instant)
    (path : String) : Except Failure String :=
  match policy.catalog.locate? path with
  | none => .error (.noEntry path)
  | some position =>
    let allowed := policy.admits (policy.caller login) now coverage position
    .ok (valueText (.record [("path", .ofText position.linkPath), ("allowed", .bool allowed)]))

/-- What `tree` prints: a line for every link. -/
def treeText (policy : Policy) (coverage : Coverage) (login : Option String) (now : Instant) :
    String :=
  String.join ((policy.visible (policy.caller login) now coverage).map fun link => link ++ "\n")

/-- What a run may ask of its surroundings. -/
structure Surroundings (m : Type → Type) where
  /-- What stands under the name of a file, if anything does. -/
  file? : String → m (Option Policy.Content)
  /-- What a folder lists; `none` if it is none. -/
  folder? : String → m (Option (List Policy.Item))
  /-- The environment variables. -/
  environment : m (List (String × String))
  /-- The path of the working directory. -/
  workingDirectory : m String
  /-- The current instant. -/
  now : m Instant

variable {m : Type → Type} [Monad m]

/-- The text of a settings file; broken bytes in it are replaced. -/
def textOf? : Policy.Content → Option String
  | .text text => some text
  | .binary mended => some mended
  | .directory => none

/-- The first of several files that is there, with its format. -/
def firstFile? (around : Surroundings m) :
    List (String × Settings.Format) → m (Option (String × Settings.Format))
  | [] => pure none
  | (path, format) :: rest => do
    match (← around.file? path).bind textOf? with
    | some text => pure (some (text, format))
    | none => firstFile? around rest

/-- The text of the settings file and its format, for something that is there under its name: a
file whose extension tells its format, or else a folder with such a file beside it that has the
same name and an extension. -/
def settingsText? (around : Surroundings m) (file : String) (content : Policy.Content) :
    m (Option (String × Settings.Format)) :=
  match textOf? content with
  | some text =>
    pure ((Settings.Format.ofFileName? (FileName.last file)).map fun format => (text, format))
  | none =>
    firstFile? around (Settings.Format.extensions.filterMap fun (extension, format) =>
      (FileName.extend? file extension).map fun path => (path, format))

/-- What the settings file gives.  A settings file that is missing is passed over. -/
def givenSettings (around : Surroundings m) (file : String) :
    ExceptT Failure m (List (String × Settings.Tree)) := do
  let content ← if file.isEmpty then pure none else around.file? file
  match content with
  | none => pure []
  | some content =>
    let found : Option (String × Settings.Format) ← (settingsText? around file content : m _)
    match found.bind fun (text, format) => format.read? text with
    | some given => pure given
    | none => throw .settings

/-- The settings of the settings file and the environment. -/
def settings (around : Surroundings m) (file : String) : ExceptT Failure m Settings := do
  let given ← givenSettings around file
  match Settings.load? given (← around.environment) with
  | some settings => pure settings
  | none => throw .settings

/-- The policy in the folder that the settings name. -/
def policy (around : Surroundings m) (settings : Settings) : ExceptT Failure m Policy := do
  let folder := settings.folderIn (← around.workingDirectory)
  match Policy.ofFolder folder (← around.folder? folder) with
  | .ok policy => pure policy
  | .error error => throw (.policy error)

/-- The instant that is given, or the current one. -/
def instantOrNow (around : Surroundings m) : Option Instant → ExceptT Failure m Instant
  | some t => pure t
  | none => around.now

/-- What a command prints. -/
def output (around : Surroundings m) (settings : Settings) :
    Command → ExceptT Failure m String
  | .parse asRule text => liftExcept (parseText asRule text)
  | .check path login instant => do
    let policy ← policy around settings
    let now ← instantOrNow around instant
    liftExcept (checkText policy settings.coverage login now path)
  | .tree login instant => do
    let policy ← policy around settings
    let now ← instantOrNow around instant
    pure (treeText policy settings.coverage login now)
where
  /-- A result that needs no surroundings. -/
  liftExcept {α : Type} (result : Except Failure α) : ExceptT Failure m α :=
    ExceptT.mk (pure result)

end Command

/-- What a command line prints. -/
def Invocation.run {m : Type → Type} [Monad m] (around : Command.Surroundings m)
    (arguments : List String) : ExceptT Command.Failure m String := do
  match Invocation.ofArguments? arguments with
  | none => throw .usage
  | some invocation =>
    let settings ← Command.settings around invocation.settingsFile
    invocation.command.output around settings

end CatalogGuard
