import Protoclass.Log
import Protoclass.Settings

/-!
# Projects

A project is a root directory and the settings that apply in it, after what the
command line asks for and with all paths absolute.
-/

namespace Protoclass

/-- What the command line asks for.  Empty texts and lists ask for nothing. -/
structure Flags where
  /-- The file to take settings from; without one, a file is searched for. -/
  settingsPath : Text := []
  out : Text := []
  importPaths : List Text := []
  targetPackage : Text := []
  packages : Text := []
  flatPack : Bool := false
  language : Text := []
  files : List Text := []
  deriving DecidableEq, Repr

/-- A project. -/
structure Project where
  root : Text
  settings : Settings
  deriving DecidableEq, Repr

/-- Settings with what the command line asks for in their place. -/
def Flags.apply (flags : Flags) (settings : Settings) : Settings :=
  let options := settings.options
  { settings with
    importPaths := Settings.orElse flags.importPaths settings.importPaths
    files := Settings.orElse flags.files settings.files
    out := if flags.out.isEmpty then settings.out else flags.out
    options :=
      { targetPackage :=
          if flags.targetPackage.isEmpty then options.targetPackage else flags.targetPackage
        packages := if flags.packages.isEmpty then options.packages else flags.packages
        flatPack := flags.flatPack || options.flatPack
        language := if flags.language.isEmpty then options.language else flags.language } }

/-- Settings with their paths absolute. -/
def Settings.rootedAt (root : Text) (settings : Settings) : Settings :=
  { settings with
    importPaths := settings.importPaths.map (Path.absolute root)
    out := Path.absolute root settings.out }

namespace Project

/-- Why a project cannot be resolved. -/
inductive Error where
  | settings (cause : Settings.Error)
  /-- The working directory is not known, in the system's words. -/
  | workingDirectory (cause : Text)
  deriving DecidableEq, Repr

/-- The text of an error. -/
def Error.message : Error → Text
  | .settings cause => cause.message
  | .workingDirectory cause => cause

/-- The settings to start from and the root directory: from the file that the
command line names, or from the one that applies in the working directory, or
the defaults. -/
def locate (yaml : Yaml.Library) (system : FileSystem) (workingDirectory : Except Text Text)
    (flags : Flags) : Logged Error (Settings × Text) :=
  if !flags.settingsPath.isEmpty then do
    let settings ← Logged.lift
      ((Settings.load yaml system flags.settingsPath).mapError .settings)
    return (settings, Path.absolute system.workingDirectory (Path.parent flags.settingsPath))
  else
    match Settings.find yaml system system.workingDirectory with
    | .ok found => pure found
    | .error (.notFound _) => do
      Logged.debug "no config file found, using defaults" []
      let root ← Logged.lift (workingDirectory.mapError .workingDirectory)
      return (.standard, root)
    | .error e => Logged.fail (.settings e)

/-- Resolve a project.  The flags are returned for the next time: import paths
that the command line asks for are made absolute in them. -/
def resolve (yaml : Yaml.Library) (system : FileSystem) (workingDirectory : Except Text Text)
    (flags : Flags) : Logged Error (Project × Flags) := do
  let (settings, root) ← locate yaml system workingDirectory flags
  let settings := (flags.apply settings).rootedAt root
  return ({ root, settings },
    { flags with importPaths := flags.importPaths.map (Path.absolute root) })

end Project

end Protoclass
