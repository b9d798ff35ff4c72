import Protoclass.Generation.Options
import Protoclass.Watch.Filter
import Protoclass.Yaml.Library

/-!
# Project settings

The settings of a project are kept in a YAML file in the project's directory.
What a file leaves out, or leaves empty, has a default.  The file of a directory
is the one in it or in the nearest directory above it.
-/

namespace Protoclass

/-- The settings of a project. -/
structure Settings where
  /-- The directories that imports are looked up in. -/
  importPaths : List Text := []
  /-- The schema files to generate; empty for all. -/
  files : List Text := []
  /-- The directory that generated files are written to. -/
  out : Text := []
  options : Options := {}
  watch : WatchFilter := {}
  deriving DecidableEq, Repr

namespace Settings

/-- A list, or another one if it is empty. -/
def orElse (list unset : List Text) : List Text :=
  if list.isEmpty then unset else list

/-- The settings with empty ones replaced by their defaults. -/
def withDefaults (settings : Settings) : Settings where
  importPaths := orElse settings.importPaths ["."]
  files := settings.files
  out := if settings.out.isEmpty then "./gen" else settings.out
  options := settings.options.withDefaults
  watch :=
    { patterns := orElse settings.watch.patterns ["*.proto", "**/*.proto"]
      exclude := orElse settings.watch.exclude [".git", "node_modules"] }

/-- The settings of a project that sets none. -/
def standard : Settings := withDefaults {}

/-! ## As YAML -/

/-- A field for a text that is not empty. -/
def textField (name value : Text) : List (Text × Yaml.Value) :=
  if value.isEmpty then [] else [(name, .text value)]

/-- A field for a list that is not empty. -/
def textsField (name : Text) (items : List Text) : List (Text × Yaml.Value) :=
  if items.isEmpty then [] else [(name, .texts items)]

/-- A field for a truth value that is true. -/
def boolField (name : Text) (value : Bool) : List (Text × Yaml.Value) :=
  if value then [(name, .bool true)] else []

/-- A field for a record that is not empty. -/
def recordField (name : Text) (fields : List (Text × Yaml.Value)) : List (Text × Yaml.Value) :=
  if fields.isEmpty then [] else [(name, .record fields)]

/-- The settings as fields; empty ones are left out. -/
def toFields (settings : Settings) : List (Text × Yaml.Value) :=
  textsField "import_paths" settings.importPaths
    ++ textsField "files" settings.files
    ++ textField "out" settings.out
    ++ recordField "options"
      (textField "target_package" settings.options.targetPackage
        ++ textField "packages" settings.options.packages
        ++ boolField "flat_pack" settings.options.flatPack
        ++ textField "language" settings.options.language)
    ++ recordField "watch"
      (textsField "patterns" settings.watch.patterns
        ++ textsField "exclude" settings.watch.exclude)

section Library

variable (yaml : Yaml.Library)

/-- The settings as a YAML text. -/
def toYaml (settings : Settings) : Text := yaml.print settings.toFields

/-- The options of a record. -/
def optionsOf? (fields : List (Text × yaml.Node)) : Option Options := do
  return {
    targetPackage := ← Yaml.field fields "target_package" yaml.text? []
    packages := ← Yaml.field fields "packages" yaml.text? []
    flatPack := ← Yaml.field fields "flat_pack" yaml.bool? false
    language := ← Yaml.field fields "language" yaml.text? [] }

/-- The watch filter of a record. -/
def watchOf? (fields : List (Text × yaml.Node)) : Option WatchFilter := do
  return {
    patterns := ← Yaml.field fields "patterns" yaml.texts? []
    exclude := ← Yaml.field fields "exclude" yaml.texts? [] }

/-- The settings of a record. -/
def of? (fields : List (Text × yaml.Node)) : Option Settings := do
  let options ← Yaml.field fields "options" yaml.record? []
  let watch ← Yaml.field fields "watch" yaml.record? []
  return {
    importPaths := ← Yaml.field fields "import_paths" yaml.texts? []
    files := ← Yaml.field fields "files" yaml.texts? []
    out := ← Yaml.field fields "out" yaml.text? []
    options := ← optionsOf? yaml options
    watch := ← watchOf? yaml watch }

/-- The settings that a YAML text holds, as they stand in it. -/
def ofYaml? (text : Text) : Option Settings :=
  match yaml.root? text with
  | none => none
  | some none => some {}
  | some (some root) =>
    match yaml.record? root with
    | none => none
    | some fields => of? yaml (fields.getD [])

end Library

/-! ## In files -/

/-- The name of the file that holds a project's settings. -/
def fileName : Text := "tracgen.yaml"

/-- Why settings cannot be loaded. -/
inductive Error where
  /-- No file was found in a directory or above it. -/
  | notFound (directory : Text)
  | unreadable (cause : SystemError)
  | malformed
  deriving DecidableEq, Repr

/-- The text of an error. -/
def Error.message : Error → Text
  | .notFound directory =>
    "config file not found: no " ++ fileName ++ " found in " ++ directory
      ++ " or any parent directory"
  | .unreadable cause => "failed to read config file: " ++ cause.message
  | .malformed => "failed to parse config file"

/-- Load the settings from a file. -/
def load (yaml : Yaml.Library) (system : FileSystem) (path : Text) : Except Error Settings :=
  match system.readFile path with
  | .error cause => .error (.unreadable cause)
  | .ok text =>
    match ofYaml? yaml text with
    | none => .error .malformed
    | some settings => .ok settings.withDefaults

/-- A directory and those above it, nearest first, at most `limit`.  The list
ends with the first directory that is its own parent. -/
def ancestors : (limit : Nat) → Text → List Text
  | 0, _ => []
  | limit + 1, directory =>
    directory :: if Path.parent directory = directory then []
      else ancestors limit (Path.parent directory)

/-- The directory whose settings apply in a directory. -/
def home? (system : FileSystem) (directory : Text) : Option Text :=
  (ancestors (directory.length + 2) directory).find? fun candidate =>
    system.hasPath (Path.join candidate fileName)

/-- The settings that apply in a directory, and the directory they lie in. -/
def find (yaml : Yaml.Library) (system : FileSystem) (directory : Text) :
    Except Error (Settings × Text) :=
  match home? system directory with
  | none => .error (.notFound directory)
  | some home => (load yaml system (Path.join home fileName)).map fun settings => (settings, home)

end Settings

end Protoclass
