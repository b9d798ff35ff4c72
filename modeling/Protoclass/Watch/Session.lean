import Protoclass.Watch.Notifier

/-!
# Watch sessions

A session runs generation passes, one at a time.  A pass that is asked for while
another is under way is remembered, and any number of such requests together
make one further pass.

`Session.State` is what the parts of a session share, and `State.step?` is one
atomic step of any of them: a request, or a move of one of the workers that run
the passes.  The functions on `Session` take such steps until nothing but the
end of a pass is left to wait for.
-/

namespace Protoclass

namespace Session

/-- Where a worker stands: before its next execution, in it, or after it and
about to look for a remembered request.  An execution after cancellation does
nothing and is over at once. -/
inductive Worker where
  | starting
  | executing
  | checking
  deriving DecidableEq, Repr

/-- What the parts of a session share. -/
structure State where
  /-- A worker is there, or about to be. -/
  running : Bool := false
  /-- A further pass was asked for. -/
  pending : Bool := false
  /-- No further pass is to be run. -/
  cancelled : Bool := false
  workers : List Worker := []
  /-- The number of passes begun. -/
  passes : Nat := 0
  deriving DecidableEq, Repr

/-- An atomic step of a session.  Workers are named by their position. -/
inductive Action where
  /-- Ask for a pass. -/
  | request
  /-- A worker starts an execution. -/
  | start (worker : Nat)
  /-- A worker's execution ends. -/
  | finish (worker : Nat)
  /-- A worker looks for a remembered request, and ends if there is none. -/
  | check (worker : Nat)
  /-- Cancel the session. -/
  | cancel
  deriving DecidableEq, Repr

namespace State

/-- Nothing runs and nothing is remembered. -/
def idle (state : State) : Bool := !state.running && !state.pending

/-- The state after a step, if the step can be taken. -/
def step? (state : State) : Action → Option State
  | .request =>
    if state.running then some { state with pending := true }
    else some { state with running := true, workers := state.workers ++ [.starting] }
  | .start worker =>
    if state.workers[worker]? = some .starting then
      if state.cancelled then
        some { state with workers := state.workers.set worker .checking }
      else
        some { state with
          workers := state.workers.set worker .executing
          passes := state.passes + 1 }
    else none
  | .finish worker =>
    if state.workers[worker]? = some .executing then
      some { state with workers := state.workers.set worker .checking }
    else none
  | .check worker =>
    if state.workers[worker]? = some .checking then
      if state.pending then
        some { state with pending := false, workers := state.workers.set worker .starting }
      else
        some { state with running := false, workers := state.workers.eraseIdx worker }
    else none
  | .cancel => some { state with cancelled := true }

/-- The state after a step that is left out if it cannot be taken. -/
def after (state : State) (action : Action) : State :=
  (state.step? action).getD state

/-- The step that the first worker takes on its own, if it is not waiting for
its pass to end. -/
def ownStep? (state : State) : Option Action :=
  match state.workers with
  | .starting :: _ => some (.start 0)
  | .checking :: _ => some (.check 0)
  | .executing :: _ => none
  | [] => none

/-- How many steps of its own a worker can take before its pass runs or it ends. -/
def workOf : Worker → Nat
  | .starting => 2
  | .executing => 0
  | .checking => 1

/-- How many steps of their own workers can take before a pass runs or none is
left to begin. -/
def work (state : State) : Nat :=
  state.workers.foldr (fun worker total => workOf worker + total)
    (if state.pending then 3 else 0)

/-- Take up to `limit` steps that workers take on their own. -/
def settleIn : (limit : Nat) → State → State
  | 0, state => state
  | limit + 1, state =>
    match state.ownStep? with
    | some action => settleIn limit (state.after action)
    | none => state

/-- Let workers move on until a pass runs or none is left to begin. -/
def settle (state : State) : State := settleIn state.work state

/-- Whether a pass runs. -/
def executing (state : State) : Bool := state.workers.head? = some .executing

end State

/-! ## Changes -/

/-- Whether a path is that of a temporary file, which is never a source. -/
def isTemporary (path : Text) : Bool :=
  Text.hasPart ".tmp" path || Text.endsWith path "~"

/-- The word for a change, for those that ask for a pass. -/
def action? (bits : ChangeBits) : Option Text :=
  if bits.has ChangeBits.create then some "created"
  else if bits.has ChangeBits.write then some "modified"
  else if bits.has ChangeBits.remove then some "deleted"
  else if bits.has ChangeBits.rename then some "renamed"
  else none

/-- Whether a change asks for a pass. -/
def accepts (change : Change) : Bool :=
  !isTemporary change.path && (action? change.bits).isSome

end Session

/-- A session that keeps the code of one project up to date. -/
structure Session where
  /-- The directory that paths in the log are relative to. -/
  root : Text
  state : Session.State := {}
  deriving DecidableEq, Repr

namespace Session

/-- Take a step, and what workers do on their own after it. -/
def take (session : Session) (action : Action) : Session :=
  { session with state := (session.state.after action).settle }

/-- Ask for a pass. -/
def requestPass (session : Session) : Session := session.take .request

/-- Ask for a pass because a file changed.  Changes of temporary files, and
changes that leave the content as it was, ask for nothing. -/
def change (session : Session) (change : Change) : Logged Empty Session :=
  match isTemporary change.path, action? change.bits with
  | false, some action => do
    let file := (Path.relative? session.root change.path).getD change.path
    Logged.info "source changed" [("file", .text file), ("action", .text action)]
    if session.state.running then
      Logged.debug "generation in progress, queued another pass" []
    return session.requestPass
  | _, _ => return session

/-- Report how a pass ended. -/
def report (failure : Option Text) : Logged Empty Unit :=
  match failure with
  | some message => Logged.error "generation failed" [("error", .text message)]
  | none => Logged.info "generation completed" []

/-- End the pass that runs, if one does. -/
def finishPass (session : Session) (failure : Option Text) : Logged Empty Session :=
  if session.state.executing then do
    report failure
    return session.take (.finish 0)
  else return session

/-- Cancel the session: a pass that runs goes on, and no other is begun. -/
def cancel (session : Session) : Session := session.take .cancel

/-- Run a session to its end, cancelled before it starts (`early`) or by its
first pass, which ends as `outcome` says.  The directories are watched after
the first pass.  The session is returned with what came of that. -/
def watch (session : Session) (system : FileSystem) (filter : WatchFilter)
    (early : Bool) (outcome : Option Text) : Logged Empty (Session × Except SystemError Unit) := do
  let begun := if early then session.cancel.requestPass else session.requestPass.cancel
  let session ← begun.finishPass outcome
  let notifier : Notifier := { filter }
  match ← Logged.attempt (notifier.addDirectory system session.root) with
  | .error e => return (session, .error e)
  | .ok _ =>
    Logged.info "watching for changes"
      [("root", .text session.root), ("patterns", .texts filter.patterns)]
    return (session, .ok ())

end Session

end Protoclass
