import Protoclass.Command.Init
import Protoclass.Command.Watch
import Protoclass.CommandLine.Invocation
import Protoclass.CommandLine.Threshold
import Protoclass.Plugin
import Protoclass.Schema.Compile

/-!
# The program as a function

What the program does, from what it finds around it: what it writes to its output
and to files, what it logs, and the failure that it ends with.
-/

namespace Protoclass.CommandLine

/-- What the program finds around it. -/
structure Surroundings where
  system : FileSystem := {}
  /-- What stands on its input. -/
  input : Text := []
  /-- The threshold of the log, if the environment sets one. -/
  threshold : Option Text := none
  /-- What the user answers, or why not. -/
  answers : Except Text Init.Answers := .error "no terminal"

/-- What comes of a run. -/
structure Outcome where
  system : FileSystem
  output : Text := []
  /-- The files that were written, in order. -/
  written : List OutputFile := []
  log : List Log.Entry := []
  threshold : Log.Threshold := ⟨Log.Level.code .trace⟩
  failure : Option Text := none

namespace Outcome

/-- The exit code. -/
def exitCode (outcome : Outcome) : UInt32 := if outcome.failure.isSome then 1 else 0

/-- The failure, if it is reported. -/
def report? (outcome : Outcome) : Option Text :=
  if outcome.threshold.admits .fatal then outcome.failure else none

/-- The log entries that are written. -/
def entries (outcome : Outcome) : List Log.Entry :=
  outcome.log.filter fun entry => outcome.threshold.admits entry.level

end Outcome

/-- The line that says which version this is. -/
def versionLine : Text := "tracgen version dev (HEAD) now\n"

/-- How the program is used. -/
def usage : Text :=
  "tracgen - Generate Python dataclasses from protobuf schemas. Without a command, runs as a "
    ++ "protoc plugin.\n\n"
    ++ "Commands:\n"
    ++ "  generate [file.proto ...]  compile .proto files and write generated code\n"
    ++ "  watch [file.proto ...]     regenerate code whenever .proto files change\n"
    ++ "  init                       create a tracgen.yaml project config\n\n"
    ++ "Flags:\n"
    ++ "  --log-level value  log level (debug, info, warn, error, fatal, panic)\n"
    ++ "  --version, -v      print the version\n"
    ++ "  --help, -h         show help\n\n"
    ++ "Flags of generate and watch:\n"
    ++ "  --config value, -c value      path to tracgen.yaml\n"
    ++ "  --out value, -o value         output directory for generated code\n"
    ++ "  --proto-path value, -I value  directory searched for .proto imports (repeatable)\n"
    ++ "  --target-package value        Python root package for cross-package imports\n"
    ++ "  --packages value              only generate this proto package and its sub-packages\n"
    ++ "  --flat-pack                   generate one module per package\n"
    ++ "  --lang value                  target language\n"

/-- The compiler of the files in a file system. -/
def compiler (system : FileSystem) : Compiler := fun importPaths files =>
  Schema.compile (Schema.Sources.ofFileSystem system importPaths).linker files

/-- Generate the code of a project and write it into the file system. -/
def generate (flags : Flags) (system : FileSystem) :
    Logged Empty (Generate.Written FileSystem) :=
  Generate.run .standard system (.ok system.workingDirectory) (compiler system)
    Languages.standard FileSystem.disk flags system

/-- Answer the request on the input. -/
def runPlugin (around : Surroundings) (outcome : Outcome) : Outcome :=
  let run := Plugin.run Languages.standard (.ok around.input) none
  match run.result with
  | .ok output => { outcome with log := run.log, output }
  | .error e => { outcome with log := run.log, failure := some e.message }

/-- Generate the code of a project. -/
def runGenerate (flags : Flags) (around : Surroundings) (outcome : Outcome) : Outcome :=
  let run := generate flags around.system
  { outcome with
    log := run.log
    system := run.value.state
    written := run.value.files
    failure := run.value.failure.map Generate.Error.message }

/-- Start to watch a project. -/
def runWatch (flags : Flags) (around : Surroundings) (outcome : Outcome) : Outcome :=
  let run := WatchCommand.start .standard around.system generate flags
  match run.result with
  | .ok (written, _) =>
    { outcome with log := run.log, system := written.state, written := written.files }
  | .error e => { outcome with log := run.log, failure := some e.message }

/-- Start a project. -/
def runInit (around : Surroundings) (outcome : Outcome) : Outcome :=
  let system := around.system
  let directory : Except Text Text := .ok system.workingDirectory
  let writeFile (path content : Text) :=
    ((system.writeFile path content).mapError SystemError.message).map fun after =>
      (after, [{ path, content : OutputFile }])
  let run : Logged Init.Error (FileSystem × List OutputFile) := do
    let _ ← Logged.lift (Init.place directory system.hasPath)
    let answers ← Logged.lift (around.answers.mapError .noAnswers)
    Init.run .standard directory system.hasPath writeFile answers
  match run.result with
  | .ok (after, written) => { outcome with log := run.log, system := after, written }
  | .error e => { outcome with log := run.log, failure := some e.message }

/-- Run the program. -/
def run (around : Surroundings) (arguments : List Text) : Outcome :=
  let outcome : Outcome := { system := around.system }
  match Invocation.ofArguments arguments with
  | .error e => { outcome with output := usage, failure := some e.message }
  | .ok ⟨.help, _⟩ => { outcome with output := usage }
  | .ok ⟨.version, _⟩ => { outcome with output := versionLine }
  | .ok ⟨request, threshold⟩ =>
    match Log.Threshold.ofText ((threshold.or around.threshold).getD "warn") with
    | .error e =>
      { outcome with failure := some ("failed to parse log level: " ++ e.message) }
    | .ok threshold =>
      let outcome := { outcome with threshold }
      match request with
      | .generate flags => runGenerate flags around outcome
      | .watch flags => runWatch flags around outcome
      | .init => runInit around outcome
      | _ => runPlugin around outcome

end Protoclass.CommandLine
