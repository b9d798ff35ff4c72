import Protoclass.Command.Project
import Protoclass.Generation.Run

/-!
# Generating the code of a project

The command resolves the project, finds its schema files, compiles them, runs the
generator, and only then writes: each file after its directory.  The first
operation that fails ends it.
-/

namespace Protoclass

/-- How schema files are compiled: from the directories that imports are looked
up in and the files asked for to descriptors, dependencies first, or to an
error in its own words. -/
abbrev Compiler := (importPaths files : List Text) → Logged Text (List FileDescriptor)

/-- Where files are written: the operations on a state, which fail in the system's
words. -/
structure Disk (σ : Type) where
  /-- Make a directory and those above it. -/
  makeDirectory : Text → σ → Except Text σ
  /-- Write a file. -/
  writeFile : (path content : Text) → σ → Except Text σ

/-- The disk of a file system. -/
def FileSystem.disk : Disk FileSystem where
  makeDirectory path system := (system.makeDirectory path).mapError SystemError.message
  writeFile path content system := (system.writeFile path content).mapError SystemError.message

namespace Generate

/-- Why the command fails. -/
inductive Error where
  | project (cause : Project.Error)
  | discovery (cause : SystemError)
  | noFiles (root : Text)
  /-- The compiler fails, in its own words. -/
  | compilation (cause : Text)
  | run (cause : RunError)
  | directory (cause : Text)
  | write (path cause : Text)

/-- The text of an error. -/
def Error.message : Error → Text
  | .project cause => cause.message
  | .discovery cause => "failed to find proto files: " ++ cause.message
  | .noFiles root => "no .proto files found under " ++ root
  | .compilation cause => cause
  | .run cause => "failed to generate code: " ++ cause.message
  | .directory cause => "failed to create output directory: " ++ cause
  | .write path cause => "failed to write " ++ path ++ ": " ++ cause

/-- The files of a project: those that its settings name, or all that lie below
the first of its import paths. -/
def files (system : FileSystem) (settings : Settings) : Except Error (List Text) := do
  let root := settings.importPaths.headD []
  let files ←
    if settings.files.isEmpty then
      (system.discover root settings.watch.exclude).mapError .discovery
    else pure settings.files
  if files.isEmpty then throw (.noFiles root) else return files

/-- What the command would write. -/
def output (system : FileSystem) (compiler : Compiler) (languages : Languages)
    (settings : Settings) : Logged Error (List OutputFile) := do
  let files ← Logged.lift (files system settings)
  Logged.info "generating code"
    [("import_paths", .texts settings.importPaths), ("files", .int files.length),
      ("out", .text settings.out)]
  let descriptors ← (compiler settings.importPaths files).mapError .compilation
  let request : RunRequest :=
    { files := descriptors, requested := files, options := settings.options }
  (request.run languages).mapError .run

/-- What has been done to a disk: its state, the directories that were made and
the files that were written, in order, and the failure that ended it. -/
structure Written (σ : Type) where
  state : σ
  directories : List Text := []
  files : List OutputFile := []
  failure : Option Error := none

/-- Write files below a directory until an operation fails. -/
def write {σ : Type} (disk : Disk σ) (out : Text) :
    List OutputFile → Written σ → Logged Empty (Written σ)
  | [], written => return written
  | file :: rest, written =>
    let path := Path.join out file.path
    let directory := Path.parent path
    match disk.makeDirectory directory written.state with
    | .error cause => return { written with failure := some (.directory cause) }
    | .ok state =>
      let written := { written with state, directories := written.directories ++ [directory] }
      match disk.writeFile path file.content state with
      | .error cause => return { written with failure := some (.write path cause) }
      | .ok state => do
        Logged.debug "wrote file" [("path", .text path)]
        write disk out rest
          { written with state, files := written.files ++ [{ path, content := file.content }] }

/-- Generate the code of a project and write it. -/
def run {σ : Type} (yaml : Yaml.Library) (system : FileSystem)
    (workingDirectory : Except Text Text) (compiler : Compiler) (languages : Languages)
    (disk : Disk σ) (flags : Flags) (state : σ) : Logged Empty (Written σ) := do
  let resolved := (Project.resolve yaml system workingDirectory flags).mapError .project
  match ← Logged.attempt resolved with
  | .error e => return { state, failure := some e }
  | .ok (project, _) =>
    let settings := project.settings
    match ← Logged.attempt (output system compiler languages settings) with
    | .error e => return { state, failure := some e }
    | .ok files =>
      let written ← write disk settings.out files { state }
      if written.failure.isNone then
        Logged.info "code generated"
          [("files", .int files.length), ("out", .text settings.out)]
      return written

end Generate

end Protoclass
