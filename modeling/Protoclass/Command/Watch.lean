import Protoclass.Command.Generate
import Protoclass.Watch.Session

/-!
# Watching a project

The command resolves the project and keeps its code up to date until it is
cancelled.
-/

namespace Protoclass.WatchCommand

/-- Why the command fails. -/
inductive Error where
  | project (cause : Project.Error)
  | watch (cause : SystemError)
  deriving DecidableEq, Repr

/-- The text of an error. -/
def Error.message : Error → Text
  | .project cause => cause.message
  | .watch cause => cause.message

/-- Run the command when it is cancelled before it starts: no pass is run, and
the directories are watched all the same. -/
def runCancelled (yaml : Yaml.Library) (system : FileSystem) (flags : Flags) :
    Logged Error Unit := do
  let (project, _) ←
    (Project.resolve yaml system (.ok system.workingDirectory) flags).mapError .project
  let session : Session := { root := project.root }
  let outcome := session.watch system project.settings.watch true none
  ⟨outcome.log, outcome.value.2.mapError .watch⟩

/-- Start the command: run the first pass and watch the directories that are there
after it.  The passes to come take the flags that are returned. -/
def start (yaml : Yaml.Library) (system : FileSystem)
    (pass : Flags → FileSystem → Logged Empty (Generate.Written FileSystem)) (flags : Flags) :
    Logged Error (Generate.Written FileSystem × Project × Flags) := do
  let (project, flags) ←
    (Project.resolve yaml system (.ok system.workingDirectory) flags).mapError .project
  let first := pass flags system
  let written := first.value
  let session : Session := { root := project.root }
  let outcome := session.watch written.state project.settings.watch false
    (written.failure.map Generate.Error.message)
  ⟨first.log ++ outcome.log,
    (outcome.value.2.mapError .watch).map fun _ => (written, project, flags)⟩

end Protoclass.WatchCommand
