import Protoclass.Log
import Protoclass.Settings

/-!
# Starting a project

The command writes a settings file with the answers of the user into the working
directory, unless there is one already.
-/

namespace Protoclass.Init

/-- The answers of the user. -/
structure Answers where
  importPath : Text := []
  out : Text := []
  targetPackage : Text := []
  flatPack : Bool := false
  deriving DecidableEq, Repr

/-- The complaint about an answer that may not be empty. -/
def complaint? (what answer : Text) : Option Text :=
  if answer.isEmpty then some (what ++ " cannot be empty") else none

/-- The settings that answers make. -/
def Answers.settings (answers : Answers) : Settings :=
  let standard := Settings.standard
  { standard with
    importPaths := [answers.importPath]
    out := answers.out
    options := { standard.options with
      targetPackage := answers.targetPackage
      flatPack := answers.flatPack } }

/-- Why the command fails. -/
inductive Error where
  | workingDirectory (cause : Text)
  | alreadyThere (directory : Text)
  | write (cause : Text)
  /-- The user gave no answers. -/
  | noAnswers (cause : Text)
  deriving DecidableEq, Repr

/-- The text of an error. -/
def Error.message : Error → Text
  | .workingDirectory cause => "failed to get current directory: " ++ cause
  | .alreadyThere directory => Settings.fileName ++ " already exists in " ++ directory
  | .write cause => "failed to write config file: " ++ cause
  | .noAnswers cause => "failed to get init options: " ++ cause

/-- Where the settings file of a directory goes, if there is none yet. -/
def place (workingDirectory : Except Text Text) (hasPath : Text → Bool) : Except Error Text := do
  let directory ← workingDirectory.mapError .workingDirectory
  let path := Path.join directory Settings.fileName
  if hasPath path then throw (.alreadyThere directory) else return path

/-- Write the settings file; gives what `writeFile` gives for its path and
content. -/
def run {σ : Type} (yaml : Yaml.Library) (workingDirectory : Except Text Text)
    (hasPath : Text → Bool) (writeFile : (path content : Text) → Except Text σ)
    (answers : Answers) : Logged Error σ := do
  let path ← Logged.lift (place workingDirectory hasPath)
  let state ← Logged.lift ((writeFile path (answers.settings.toYaml yaml)).mapError .write)
  Logged.info "created project config" [("path", .text path)]
  return state

end Protoclass.Init
