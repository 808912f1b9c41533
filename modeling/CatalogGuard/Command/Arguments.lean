
/-!
# Arguments of a command line

Arguments are options and plain arguments in any order.  An option has a long name behind two
dashes and possibly a letter behind one dash.  Its value is the next argument, or is attached: to
the long name by an equals sign, to the letter with or without one.  An argument that starts with a
dash is never the value of the option before it, except for a dash alone.  Behind two dashes alone
all arguments are plain.

Nothing is guessed: unknown options, options given twice, missing values and values of options that
take none are all refused.
-/

namespace CatalogGuard.Command

/-- An option that a command knows. -/
structure Switch where
  /-- The long name, which also stands for the option. -/
  name : String
  /-- The letter. -/
  letter : Option Char
  /-- Whether it takes a value. -/
  takesValue : Bool
  deriving Repr, DecidableEq

/-- What one argument is. -/
inductive Shape where
  /-- A plain argument. -/
  | plain
  /-- An option with all that belongs to it. -/
  | complete (name : String) (value : String)
  /-- An option whose value is still to come. -/
  | awaiting (name : String)
  deriving Repr, DecidableEq

/-- Splits at the first equals sign. -/
def attached? (text : List Char) : List Char × Option (List Char) :=
  match text.span (· ≠ '=') with
  | (name, _ :: value) => (name, some value)
  | (name, []) => (name, none)

/-- The shape of an option with the value attached to it; one without a value gets the empty
text. -/
def Switch.shape? (switch : Switch) (value : Option (List Char)) : Option Shape :=
  match switch.takesValue, value with
  | true, some value => some (.complete switch.name (String.ofList value))
  | true, none => some (.awaiting switch.name)
  | false, none => some (.complete switch.name "")
  | false, some _ => none

/-- The shape of an argument, among the options that a command knows. -/
def shape? (switches : List Switch) (argument : String) : Option Shape :=
  match argument.toList with
  | '-' :: '-' :: body => do
    let (name, value) := attached? body
    let switch ← switches.find? fun switch => switch.name.toList == name
    switch.shape? value
  | '-' :: letter :: body => do
    let switch ← switches.find? fun switch => switch.letter == some letter
    switch.shape? <|
      match body with
      | [] => none
      | '=' :: value => some value
      | value => some value
  | _ => some .plain

/-- Whether an argument may be the value of the option before it. -/
def isValue (argument : String) : Bool :=
  match argument.toList with
  | '-' :: _ :: _ => false
  | _ => true

/-- Arguments, sorted into options and plain ones. -/
structure Arguments where
  /-- The options with their values. -/
  options : List (String × String) := []
  /-- The plain arguments. -/
  plain : List String := []
  deriving Repr, DecidableEq

namespace Arguments

/-- The value of an option. -/
def value? (arguments : Arguments) (name : String) : Option String :=
  arguments.options.lookup name

/-- Adds an option, unless it is there already. -/
def addOption? (name value : String) (arguments : Arguments) : Option Arguments :=
  match arguments.value? name with
  | none => some { arguments with options := (name, value) :: arguments.options }
  | some _ => none

/-- Adds a plain argument in front of the others. -/
def addPlain (text : String) (arguments : Arguments) : Arguments :=
  { arguments with plain := text :: arguments.plain }

/-- Sorts arguments, among the options that a command knows. -/
def read? (switches : List Switch) : List String → Option Arguments
  | [] => some {}
  | argument :: rest =>
    if argument = "--" then some { plain := rest }
    else
      match shape? switches argument, rest with
      | some .plain, rest => (read? switches rest).map (addPlain argument)
      | some (.complete name value), rest => (read? switches rest).bind (addOption? name value)
      | some (.awaiting name), value :: rest =>
        if isValue value then (read? switches rest).bind (addOption? name value) else none
      | some (.awaiting _), [] => none
      | none, _ => none

end Arguments

end CatalogGuard.Command
