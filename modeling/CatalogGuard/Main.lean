import CatalogGuard.Command.Run
import Std.Time

/-!
# The program

The outer layer: it asks the system what a run wants to know, prints what the run says and ends
with its exit code.
-/

namespace CatalogGuard

/-- The content of what stands under a path, if anything does. -/
def contentAt? (path : String) : IO (Option Policy.Content) := do
  let place := (← IO.currentDir) / path
  if ← place.isDir then return some .directory
  if ← place.pathExists then return some (.ofBytes (← IO.FS.readBinFile place))
  return none

/-- What the folder at a path lists; `none` if there is no folder. -/
def listingAt? (path : String) : IO (Option (List Policy.Item)) := do
  let place := (← IO.currentDir) / path
  unless ← place.isDir do return none
  let items ← (← place.readDir).toList.filterMapM fun file => do
    return (← contentAt? (FileName.join path file.fileName)).map fun content =>
      (⟨file.fileName, content⟩ : Policy.Item)
  return some items

/-- The environment variables with the usual names of settings. -/
def usualVariables : IO (List (String × String)) := do
  let names := ["POLICY", "POLICY__DIR", "RULES", "RULES__MATCH_MODE", "LOGGING",
    "LOGGING__FILTER"].map fun name => "CATALOG_ACCESS__" ++ name
  names.filterMapM fun name => do
    return (← IO.getEnv name).map fun value => (name, value)

/-- The environment variables: all of them if the system lists them, else those with usual names. -/
def environmentVariables : IO (List (String × String)) := do
  try
    match String.fromUTF8? (← IO.FS.readBinFile "/proc/self/environ") with
    | some listed =>
      return (listed.toList.splitOn '\x00').filterMap fun line =>
        match Command.attached? line with
        | (name, some value) => some (String.ofList name, String.ofList value)
        | (_, none) => none
    | none => usualVariables
  catch _ => usualVariables

/-- The current instant of the local clock. -/
def localNow : IO Instant := do
  let now ← Std.Time.PlainDateTime.now
  let fields : Instant.Fields :=
    { year := now.year, month := now.month.val.toNat, day := now.day.val.toNat,
      hour := now.hour.val.toNat, minute := now.minute.val.toNat,
      second := now.second.val.toNat, nanosecond := now.nanosecond.val.toNat }
  match Instant.ofFields? fields with
  | some t => return t
  | none => throw (IO.userError "the clock shows no instant")

/-- The surroundings of the program: the system it runs on. -/
def system : Command.Surroundings IO where
  file? := contentAt?
  folder? := listingAt?
  environment := environmentVariables
  workingDirectory := do return (← IO.currentDir).toString
  now := localNow

end CatalogGuard

/-- Runs the command line. -/
def main (arguments : List String) : IO UInt32 := do
  match ← (CatalogGuard.Invocation.run CatalogGuard.system arguments).run with
  | .ok text =>
    (← IO.getStdout).putStr text
    return 0
  | .error failure =>
    (← IO.getStderr).putStrLn failure.message
    return failure.code.toUInt32
