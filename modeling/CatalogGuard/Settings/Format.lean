import CatalogGuard.FileName
import CatalogGuard.Settings.Source.Ini
import CatalogGuard.Settings.Source.Json
import CatalogGuard.Settings.Source.Json5
import CatalogGuard.Settings.Source.Ron
import CatalogGuard.Settings.Source.Toml
import CatalogGuard.Settings.Source.Yaml

/-!
# Formats of settings files

A settings file may be written in one of six formats.  The extension of its name tells which.
-/

namespace CatalogGuard.Settings

/-- A format of settings files. -/
inductive Format where
  /-- TOML. -/
  | toml
  /-- JSON. -/
  | json
  /-- YAML. -/
  | yaml
  /-- INI. -/
  | ini
  /-- RON. -/
  | ron
  /-- JSON5. -/
  | json5
  deriving Repr, DecidableEq

namespace Format

/-- The extensions and the formats that they stand for. -/
def extensions : List (String × Format) :=
  [("toml", .toml), ("json", .json), ("yaml", .yaml), ("yml", .yaml), ("ini", .ini), ("ron", .ron),
    ("json5", .json5)]

/-- The format of a file by its name. -/
def ofFileName? (name : String) : Option Format :=
  (extensions.find? fun (extension, _) => FileName.hasExtension extension name).map Prod.snd

/-- The settings in a text, named values in their order.  A byte order mark may come first. -/
def read? (format : Format) (text : String) : Option (List (String × Tree)) :=
  let text :=
    match text.toList with
    | '\ufeff' :: rest => String.ofList rest
    | _ => text
  match format with
  | .toml => readToml? text
  | .json => readJson? text
  | .yaml => readYaml? text
  | .ini => readIni? text
  | .ron => readRon? text
  | .json5 => readJson5? text

end Format

end CatalogGuard.Settings
