import Protoclass.Log
import Protoclass.Watch.Filter

/-!
# Watched directories

A notifier reports changes in the directories that were added to it.  Adding a
directory adds those below it, except excluded ones.  While events are handled,
a directory that is created is added too, and a change of a file that the
filter accepts is passed on.
-/

namespace Protoclass

/-- What a change does to a file, as a set of bits. -/
abbrev ChangeBits := Nat

namespace ChangeBits

/-- Whether the bit of a given value is set. -/
def has (bits : ChangeBits) (bit : Nat) : Bool := bits / bit % 2 = 1

/-- The file was created. -/
def create : Nat := 1

/-- The file was written to. -/
def write : Nat := 2

/-- The file was removed. -/
def remove : Nat := 4

/-- The file was renamed. -/
def rename : Nat := 8

end ChangeBits

/-- A change that a notifier reports. -/
structure Change where
  path : Text
  bits : ChangeBits
  deriving DecidableEq, Repr

/-- What a notifier delivers. -/
inductive Notice where
  | change (change : Change)
  /-- A failure of the notifier; it may come without a text. -/
  | failure (message : Option Text)
  /-- No more changes will be reported. -/
  | changesClosed
  /-- No more failures will be reported. -/
  | failuresClosed
  deriving DecidableEq, Repr

/-- Why a notifier stops. -/
inductive StopReason where
  | cancelled
  | changesClosed
  | failuresClosed
  deriving DecidableEq, Repr

/-- The text of a reason to stop. -/
def StopReason.message : StopReason → Text
  | .cancelled => "context canceled"
  | .changesClosed => "watcher channel closed"
  | .failuresClosed => "watcher error channel closed"

/-- The directories that are watched, and the filter for files in them. -/
structure Notifier where
  filter : WatchFilter := {}
  /-- The cleaned paths of the directories, each once, in order of adding. -/
  watched : List Text := []
  deriving DecidableEq, Repr

namespace Notifier

/-- The named value that all entries of a notifier carry. -/
def component : Text × Log.Value := ("component", .text "watcher")

/-- Watch one directory. -/
def watch (notifier : Notifier) (path : Text) : Notifier :=
  if notifier.watched.any (· = Path.clean path) then notifier
  else { notifier with watched := notifier.watched ++ [Path.clean path] }

/-- The directories to watch for a visited path: it and those below it, but for
excluded ones. -/
def directories (system : FileSystem) (filter : WatchFilter) (path : Text) :
    Except SystemError (List Text) := do
  let visited ← system.visit (fun tree => isExcluded filter.exclude tree.name) path
  return visited.filterMap fun (path, tree) => if tree.isDirectory then some path else none

/-- Watch a directory and those below it. -/
def addDirectory (notifier : Notifier) (system : FileSystem) (path : Text) :
    Logged SystemError Notifier := do
  let paths ← Logged.lift (directories system notifier.filter path)
  for path in paths do
    Logged.debug "watching directory" [component, ("dir", .text path)]
  return paths.foldl watch notifier

/-- What came of a sequence of notices: the notifier, the changes passed on, and
why it stopped, if it did. -/
structure Handled where
  notifier : Notifier
  passedOn : List Change := []
  stopped : Option StopReason := none

/-- Handle one notice. -/
def handle (notifier : Notifier) (system : FileSystem) : Notice → Logged Empty Handled
  | .change change => do
    let passedOn := if notifier.filter.accepts change.path then [change] else []
    if change.bits.has ChangeBits.create && system.hasDirectory change.path then
      match ← Logged.attempt (notifier.addDirectory system change.path) with
      | .ok notifier => return { notifier, passedOn }
      | .error e =>
        Logged.warn "failed to watch new directory"
          [component, ("error", .text e.message), ("dir", .text change.path)]
        return { notifier, passedOn }
    else return { notifier, passedOn }
  | .failure none => return { notifier }
  | .failure (some message) => do
    Logged.error "watcher error" [component, ("error", .text message)]
    return { notifier }
  | .changesClosed => return { notifier, stopped := some .changesClosed }
  | .failuresClosed => return { notifier, stopped := some .failuresClosed }

/-- Handle notices in turn until one stops the notifier; after the last one it
is cancelled. -/
def run (notifier : Notifier) (system : FileSystem) : List Notice → Logged Empty Handled
  | [] => return { notifier, stopped := some .cancelled }
  | notice :: rest => do
    let first ← notifier.handle system notice
    match first.stopped with
    | some _ => return first
    | none =>
      let more ← first.notifier.run system rest
      return { more with passedOn := first.passedOn ++ more.passedOn }

end Notifier

end Protoclass
