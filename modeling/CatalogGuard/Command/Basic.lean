import CatalogGuard.Command.Arguments
import CatalogGuard.Time.Reading

/-!
# Commands

The program knows three commands: `check` decides about one path, `tree` lists all paths that a
caller may see, and `parse` reads a query or a rule and shows it in canonical form.  The settings
file is named in front of the command.
-/

namespace CatalogGuard

/-- What the program is asked to do. -/
inductive Command where
  /-- Decide whether a caller may see a path, at an instant or now. -/
  | check (path : String) (login : Option String) (instant : Option Instant)
  /-- Show a text as a rule or as a query. -/
  | parse (asRule : Bool) (text : String)
  /-- List what a caller may see, at an instant or now. -/
  | tree (login : Option String) (instant : Option Instant)
  deriving Repr, DecidableEq

namespace Command

/-- The caller's login. -/
def userSwitch : Switch := ⟨"user", none, true⟩

/-- The instant to decide for. -/
def atSwitch : Switch := ⟨"at", none, true⟩

/-- The path to decide about. -/
def pathSwitch : Switch := ⟨"path", none, true⟩

/-- Read the text as a rule. -/
def ruleSwitch : Switch := ⟨"rule", none, false⟩

/-- The settings file. -/
def configSwitch : Switch := ⟨"config", some 'c', true⟩

/-- The instant that is given, if one is; `none` if it is no instant. -/
def instant? (arguments : Arguments) : Option (Option Instant) :=
  match arguments.value? atSwitch.name with
  | none => some none
  | some text =>
    match Instant.ofMinutes text.toList with
    | .ok t => some (some t)
    | .error _ => none

/-- The command with a name and the arguments behind it. -/
def ofArguments? (name : String) (rest : List String) : Option Command :=
  match name with
  | "check" => do
    let arguments ← Arguments.read? [pathSwitch, userSwitch, atSwitch] rest
    let path ← arguments.value? pathSwitch.name
    let instant ← instant? arguments
    match arguments.plain with
    | [] => some (.check path (arguments.value? userSwitch.name) instant)
    | _ => none
  | "parse" => do
    let arguments ← Arguments.read? [ruleSwitch] rest
    match arguments.plain with
    | [text] => some (.parse (arguments.value? ruleSwitch.name).isSome text)
    | _ => none
  | "tree" => do
    let arguments ← Arguments.read? [userSwitch, atSwitch] rest
    let instant ← instant? arguments
    match arguments.plain with
    | [] => some (.tree (arguments.value? userSwitch.name) instant)
    | _ => none
  | _ => none

end Command

/-- A command with the settings file to use. -/
structure Invocation where
  /-- The name of the settings file. -/
  settingsFile : String := "config.toml"
  /-- The command. -/
  command : Command
  deriving Repr, DecidableEq

/-- The invocation that a command line stands for. -/
def Invocation.ofArguments? : List String → Option Invocation
  | [] => none
  | argument :: rest =>
    match Command.shape? [Command.configSwitch] argument, rest with
    | some .plain, rest =>
      (Command.ofArguments? argument rest).map fun command => { command }
    | some (.complete _ settingsFile), name :: rest =>
      (Command.ofArguments? name rest).map fun command => { settingsFile, command }
    | some (.awaiting _), settingsFile :: name :: rest =>
      if Command.isValue settingsFile then
        (Command.ofArguments? name rest).map fun command => { settingsFile, command }
      else none
    | _, _ => none

end CatalogGuard
