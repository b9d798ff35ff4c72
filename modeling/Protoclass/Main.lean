import Protoclass.CommandLine.Run
import Protoclass.Watch.Polled

/-!
# The program

The outer layer: it gathers what `CommandLine.run` is to find around it, and
carries out what comes of it.  Files are read into memory before a run, schema and
settings files with their content and others by name only.
-/

namespace Protoclass.Program

open Protoclass.CommandLine

/-! ## Reading -/

/-- Whether the content of a file is needed. -/
def isRead (path : Text) : Bool :=
  Text.endsWith path ".proto" || Text.endsWith path ".yaml" || Text.endsWith path ".yml"

/-- Put a file into the file system in memory, if it is there. -/
def loadFile (path : Text) (system : FileSystem) : IO FileSystem := do
  try
    let bytes ← IO.FS.readBinFile path.toString
    return system.putFile path bytes.toList
  catch _ => return system

/-- Put a directory and what is below it into the file system in memory. -/
partial def loadTree (path : Text) (system : FileSystem) : IO FileSystem := do
  try
    let place ← IO.FS.realPath path.toString
    let mut system := system.putDirectory path
    for entry in ← place.readDir do
      let child := Path.join path (Text.ofString entry.fileName)
      match (← entry.path.symlinkMetadata).type with
      | .dir => system ← loadTree child system
      | _ =>
        system ← if isRead child then loadFile child system else pure (system.putFile child [])
    return system
  catch _ => return system

/-- The working directory with all that is below it, and the settings files in the
directories above it. -/
def loadWorkingDirectory : IO FileSystem := do
  let directory := Text.ofString (← IO.currentDir).toString
  let above := Settings.ancestors (directory.length + 2) directory
  let system ← above.foldlM (fun system directory =>
    loadFile (Path.join directory Settings.fileName) system)
    ({ workingDirectory := directory } : FileSystem)
  loadTree directory system

/-- The file system in memory, with all that a command on a project needs. -/
def loadProject (flags : Flags) : IO FileSystem := do
  let system ← loadWorkingDirectory
  let system ←
    if flags.settingsPath.isEmpty then pure system
    else loadFile (Path.absolute system.workingDirectory flags.settingsPath) system
  match (Project.resolve .standard system (.ok system.workingDirectory) flags).result with
  | .error _ => return system
  | .ok (project, _) =>
    (project.root :: project.settings.importPaths).foldlM
      (fun system path => loadTree path system) system

/-- What is left on the input, after `before`. -/
partial def readInput (stream : IO.FS.Stream) (before : ByteArray) : IO ByteArray := do
  let bytes ← stream.read 65536
  if bytes.isEmpty then return before else readInput stream (before ++ bytes)

/-! ## Asking -/

/-- Ask a question until the answer is right.  No answer stands for the usual one. -/
partial def ask (title usual : Text) (complaint? : Text → Option Text) : IO Text := do
  IO.eprint s!"{title.toString} [{usual.toString}]: "
  let line ← (← IO.getStdin).getLine
  if line.isEmpty then throw (IO.userError "no answer")
  let given := Text.trim (Text.ofString line)
  let answer := if given.isEmpty then usual else given
  match complaint? answer with
  | none => return answer
  | some complaint =>
    IO.eprintln complaint.toString
    ask title usual complaint?

/-- Ask for what a new project needs. -/
def askAll (system : FileSystem) : IO (Except Text Init.Answers) := do
  try
    let importPath ← ask "Proto import path" "." fun answer =>
      (Init.complaint? "import path" answer).or
        (if system.hasPath answer then none
        else some ("directory " ++ answer ++ " does not exist"))
    let out ← ask "Output directory" "./gen" (Init.complaint? "output directory")
    let targetPackage ← ask "Target package" Settings.standard.options.targetPackage
      (Init.complaint? "target package")
    let flat ← ask "Flat pack (yes or no)" "no" fun _ => none
    return .ok { importPath, out, targetPackage, flatPack := Text.startsWith flat "y" }
  catch e => return .error (Text.ofString e.toString)

/-! ## Writing -/

/-- The text of a named value in a log entry. -/
def valueText : Log.Value → Text
  | .text t => t
  | .int n => Text.ofInt n
  | .bool b => if b then "true" else "false"
  | .texts ts => "[" ++ Text.join "," ts ++ "]"

/-- The mark of a level. -/
def levelMark : Log.Level → Text
  | .trace => "TRC"
  | .debug => "DBG"
  | .info => "INF"
  | .warn => "WRN"
  | .error => "ERR"
  | .fatal => "FTL"
  | .off => "???"

/-- A log entry as a line. -/
def entryLine (entry : Log.Entry) : Text :=
  Text.join " " (levelMark entry.level :: entry.message
    :: entry.fields.map fun (name, value) => name ++ "=" ++ valueText value)

/-- Write log entries. -/
def writeEntries (threshold : Log.Threshold) (log : List Log.Entry) : IO Unit :=
  for entry in log do
    if threshold.admits entry.level then IO.eprintln (entryLine entry).toString

/-- Write files, each after its directory. -/
def writeFiles (files : List OutputFile) : IO Unit :=
  for file in files do
    IO.FS.createDirAll (Path.parent file.path).toString
    IO.FS.writeBinFile file.path.toString ⟨file.content.toArray⟩

/-! ## Watching -/

/-- Run passes until none is left to run. -/
partial def runPasses (flags : Flags) (threshold : Log.Threshold) (session : Session) :
    IO Session := do
  if session.state.executing then
    let run := generate flags (← loadProject flags)
    writeEntries threshold run.log
    writeFiles run.value.files
    let finished := session.finishPass (run.value.failure.map Generate.Error.message)
    writeEntries threshold finished.log
    runPasses flags threshold finished.value
  else return session

/-- Look for changes again and again. -/
partial def watchLoop (flags : Flags) (filter : WatchFilter) (threshold : Log.Threshold)
    (session : Session) (before : List (Text × Text)) : IO Unit := do
  IO.sleep 500
  let system ← loadTree session.root { workingDirectory := session.root }
  let after := FileTree.files "/" system.root
  let changed := session.changeAll filter (changesBetween before after)
  writeEntries threshold changed.log
  watchLoop flags filter threshold (← runPasses flags threshold changed.value) after

/-- Keep watching a project after the first pass. -/
def watchOn (flags : Flags) (threshold : Log.Threshold) : IO Unit := do
  let system ← loadProject flags
  match (Project.resolve .standard system (.ok system.workingDirectory) flags).result with
  | .error _ => return ()
  | .ok (project, flags) =>
    let tree ← loadTree project.root { workingDirectory := project.root }
    watchLoop flags project.settings.watch threshold { root := project.root }
      (FileTree.files "/" tree.root)

/-! ## Running -/

/-- Gather what a request needs. -/
def surroundings (request : Request) : IO Surroundings := do
  let threshold := (← IO.getEnv "TRACGEN_LOG_LEVEL").map Text.ofString
  match request with
  | .plugin =>
    let bytes ← readInput (← IO.getStdin) .empty
    return { input := bytes.toList, threshold }
  | .generate flags | .watch flags => return { system := ← loadProject flags, threshold }
  | .init =>
    let system ← loadWorkingDirectory
    match Init.place (.ok system.workingDirectory) system.hasPath with
    | .error _ => return { system, threshold }
    | .ok _ => return { system, threshold, answers := ← askAll system }
  | .help | .version => return { threshold }

/-- Run the program on arguments; gives the exit code. -/
def run (arguments : List Text) : IO UInt32 := do
  let request : Request := match Invocation.ofArguments arguments with
    | .ok invocation => invocation.request
    | .error _ => .help
  let outcome := CommandLine.run (← surroundings request) arguments
  writeEntries outcome.threshold outcome.log
  writeFiles outcome.written
  let output ← IO.getStdout
  output.write ⟨outcome.output.toArray⟩
  output.flush
  if let some failure := outcome.report? then
    IO.eprintln (entryLine
      { level := .fatal
        message := "failed to run tracgen"
        fields := [("error", .text failure)] }).toString
  match request, outcome.failure with
  | .watch flags, none => watchOn flags outcome.threshold
  | _, _ => pure ()
  return outcome.exitCode

end Protoclass.Program

/-- The program. -/
def main (arguments : List String) : IO UInt32 :=
  Protoclass.Program.run (arguments.map Protoclass.Text.ofString)
