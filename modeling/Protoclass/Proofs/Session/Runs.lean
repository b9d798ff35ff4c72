import Protoclass.Watch.Session

/-!
# Runs of a session

A run is any sequence of moves of the parts of a session, in whatever order
their critical sections come.  A move is a change being handled, a pass being
asked for, a worker's execution starting or ending, a worker looking for a
remembered request, or the cancellation.  Any number of callers and workers may
take part: nothing in the definition of a run keeps two workers apart.

A run that starts at a new session only meets orderly states, in which there is
one worker or none and the shared flags say which.  `Turn` lists what a step
can do to an orderly state, and whatever holds along a run is derived from that
list.
-/

namespace Protoclass.Session

/-- A move of some part of a session. -/
inductive Move where
  /-- A reported change is handled. -/
  | change (change : Change)
  /-- A pass is asked for directly. -/
  | pass
  /-- A worker starts an execution. -/
  | start (worker : Nat)
  /-- A worker's execution ends, perhaps with a failure. -/
  | finish (worker : Nat) (failure : Option Text)
  /-- A worker looks for a remembered request. -/
  | check (worker : Nat)
  /-- The session is cancelled. -/
  | cancel
  deriving DecidableEq, Repr

namespace Move

/-- The atomic step that a move takes.  A change that is not accepted takes
none. -/
def action? : Move → Option Action
  | .change reported => if accepts reported then some .request else none
  | .pass => some .request
  | .start worker => some (.start worker)
  | .finish worker _ => some (.finish worker)
  | .check worker => some (.check worker)
  | .cancel => some .cancel

/-- Whether a move asks for a pass: an accepted change, or a direct request. -/
def asks : Move → Bool
  | .change reported => accepts reported
  | .pass => true
  | _ => false

/-- Whether a move starts an execution. -/
def starts : Move → Bool
  | .start _ => true
  | _ => false

theorem action?_eq_request_iff (move : Move) :
    move.action? = some .request ↔ move.asks = true := by
  cases move <;> simp [action?, asks]

theorem starts_of_action?_eq_start {move : Move} {worker : Nat}
    (taken : move.action? = some (.start worker)) : move.starts = true := by
  cases move with
  | start => rfl
  | change => simp [action?] at taken
  | pass | finish | check | cancel => simp [action?] at taken

end Move

namespace State

/-- The state after a move, if the move can be made. -/
def move? (state : State) (move : Move) : Option State :=
  match move.action? with
  | some action => state.step? action
  | none => some state

/-- The state after a sequence of moves, if they can be made one after
another. -/
def run? (state : State) : List Move → Option State
  | [] => some state
  | move :: rest => (state.move? move).bind fun next => next.run? rest

@[simp]
theorem run?_nil (state : State) : state.run? [] = some state := rfl

theorem run?_cons_eq_some_iff {state last : State} {move : Move} {rest : List Move} :
    state.run? (move :: rest) = some last ↔
      ∃ next, state.move? move = some next ∧ next.run? rest = some last :=
  Option.bind_eq_some_iff

/-- A run splits at any of its moves. -/
theorem run?_append_eq_some_iff {state last : State} {before after : List Move} :
    state.run? (before ++ after) = some last ↔
      ∃ middle, state.run? before = some middle ∧ middle.run? after = some last := by
  induction before generalizing state with
  | nil => simp
  | cons move rest ih =>
    rw [List.cons_append, run?_cons_eq_some_iff]
    simp only [ih, run?_cons_eq_some_iff]
    constructor
    · rintro ⟨next, moved, middle, first, second⟩
      exact ⟨middle, ⟨next, moved, first⟩, second⟩
    · rintro ⟨middle, ⟨next, moved, first⟩, second⟩
      exact ⟨next, moved, middle, first, second⟩

/-- What every move of a run keeps, the run keeps. -/
theorem run?_induction (kept : State → Prop) {state last : State} {moves : List Move}
    (step : ∀ move ∈ moves, ∀ current next,
      kept current → current.move? move = some next → kept next)
    (start : kept state) (ran : state.run? moves = some last) : kept last := by
  induction moves generalizing state with
  | nil =>
    cases ran
    exact start
  | cons move rest ih =>
    obtain ⟨next, moved, ran⟩ := run?_cons_eq_some_iff.mp ran
    apply ih _ (step move List.mem_cons_self state next start moved) ran
    intro later member
    exact step later (List.mem_cons_of_mem move member)

/-! ## Orderly states -/

/-- The flags and the workers agree: there is one worker while the session
runs and none otherwise, and only a running session remembers a request. -/
inductive Orderly (state : State) : Prop where
  | resting (workers : state.workers = []) (running : state.running = false)
      (pending : state.pending = false)
  | working (worker : Worker) (workers : state.workers = [worker])
      (running : state.running = true)

/-- What a step can do to an orderly state. -/
inductive Turn (state : State) : Action → State → Prop where
  /-- A request sets a worker going. -/
  | begin (workers : state.workers = []) :
      Turn state .request { state with running := true, workers := [.starting] }
  /-- A request is remembered. -/
  | remember (running : state.running = true) :
      Turn state .request { state with pending := true }
  /-- A pass begins. -/
  | start (workers : state.workers = [.starting]) (active : state.cancelled = false) :
      Turn state (.start 0)
        { state with workers := [.executing], passes := state.passes + 1 }
  /-- An execution after cancellation is over at once. -/
  | startCancelled (workers : state.workers = [.starting]) (cancelled : state.cancelled = true) :
      Turn state (.start 0) { state with workers := [.checking] }
  /-- A pass ends. -/
  | finish (workers : state.workers = [.executing]) :
      Turn state (.finish 0) { state with workers := [.checking] }
  /-- A remembered request is found. -/
  | again (workers : state.workers = [.checking]) (pending : state.pending = true) :
      Turn state (.check 0) { state with pending := false, workers := [.starting] }
  /-- No request is found, and the worker ends. -/
  | rest (workers : state.workers = [.checking]) (pending : state.pending = false) :
      Turn state (.check 0) { state with running := false, workers := [] }
  /-- The session is cancelled. -/
  | cancel : Turn state .cancel { state with cancelled := true }

/-- The only worker of an orderly state is the one named. -/
theorem Orderly.workers_eq_of_getElem? {state : State} {index : Nat} {worker : Worker}
    (orderly : state.Orderly) (found : state.workers[index]? = some worker) :
    index = 0 ∧ state.workers = [worker] := by
  cases orderly with
  | resting workers => simp [workers] at found
  | working other workers =>
    rw [workers, List.getElem?_singleton] at found
    split at found
    · cases found
      exact ⟨by assumption, workers⟩
    · contradiction

theorem Orderly.turn {state next : State} {action : Action} (orderly : state.Orderly)
    (stepped : state.step? action = some next) : Turn state action next := by
  cases action with
  | request =>
    rw [step?] at stepped
    split at stepped
    · cases stepped
      exact .remember ‹_›
    · cases stepped
      cases orderly with
      | resting workers running =>
        rw [workers]
        exact .begin workers
      | working worker workers running => contradiction
  | start worker =>
    rw [step?] at stepped
    split at stepped
    · obtain ⟨rfl, workers⟩ := orderly.workers_eq_of_getElem? ‹_›
      split at stepped
      · cases stepped
        rw [workers]
        exact .startCancelled workers ‹_›
      · cases stepped
        rw [workers]
        exact .start workers (Bool.eq_false_iff.mpr ‹_›)
    · contradiction
  | finish worker =>
    rw [step?] at stepped
    split at stepped
    · obtain ⟨rfl, workers⟩ := orderly.workers_eq_of_getElem? ‹_›
      cases stepped
      rw [workers]
      exact .finish workers
    · contradiction
  | check worker =>
    rw [step?] at stepped
    split at stepped
    · obtain ⟨rfl, workers⟩ := orderly.workers_eq_of_getElem? ‹_›
      split at stepped
      · cases stepped
        rw [workers]
        exact .again workers ‹_›
      · cases stepped
        rw [workers]
        exact .rest workers (Bool.eq_false_iff.mpr ‹_›)
    · contradiction
  | cancel =>
    cases stepped
    exact .cancel

theorem Turn.orderly {state next : State} {action : Action} (turn : Turn state action next)
    (orderly : state.Orderly) : next.Orderly := by
  cases turn with
  | begin => exact .working .starting rfl rfl
  | remember running =>
    cases orderly with
    | resting _ rested => simp [rested] at running
    | working worker workers => exact .working worker workers running
  | start workers | startCancelled workers | finish workers | again workers =>
    cases orderly with
    | resting none => simp [none] at workers
    | working _ _ running => exact .working _ rfl running
  | rest _ pending => exact .resting rfl rfl pending
  | cancel =>
    cases orderly with
    | resting workers running pending => exact .resting workers running pending
    | working worker workers running => exact .working worker workers running

theorem Orderly.move {state next : State} {move : Move} (orderly : state.Orderly)
    (moved : state.move? move = some next) : next.Orderly := by
  rw [move?] at moved
  split at moved
  · exact (orderly.turn moved).orderly orderly
  · cases moved
    exact orderly

/-- Nothing runs in a new session. -/
theorem orderly_new : ({} : State).Orderly := .resting rfl rfl rfl

theorem Orderly.run {state last : State} {moves : List Move} (orderly : state.Orderly)
    (ran : state.run? moves = some last) : last.Orderly :=
  run?_induction Orderly (fun _ _ _ _ kept moved => kept.move moved) orderly ran

/-! ## Sessions move by runs -/

/-- A worker's own step is a move, and not one that asks for a pass. -/
theorem ownStep?_move {state : State} {action : Action} (own : state.ownStep? = some action) :
    ∃ move : Move, move.asks = false ∧ move.action? = some action := by
  rw [ownStep?] at own
  split at own
  · cases own
    exact ⟨.start 0, rfl, rfl⟩
  · cases own
    exact ⟨.check 0, rfl, rfl⟩
  · contradiction
  · contradiction

/-- What workers do on their own is a run without requests. -/
theorem exists_run?_settleIn (limit : Nat) (state : State) :
    ∃ own : List Move, (∀ move ∈ own, move.asks = false) ∧
      state.run? own = some (settleIn limit state) := by
  induction limit generalizing state with
  | zero => exact ⟨[], by simp, rfl⟩
  | succ limit ih =>
    rw [settleIn]
    split
    · rename_i action found
      rw [State.after]
      cases stepped : state.step? action with
      | none => exact ih state
      | some next =>
        obtain ⟨move, quiet, taken⟩ := ownStep?_move found
        obtain ⟨own, quietRest, ran⟩ := ih next
        refine ⟨move :: own, by simpa [quiet] using quietRest, ?_⟩
        exact run?_cons_eq_some_iff.mpr ⟨next, by rw [move?, taken]; exact stepped, ran⟩
    · exact ⟨[], by simp, rfl⟩

end State

/-- Taking a step that can be taken is a run that starts with it. -/
theorem exists_run?_take {session : Session} {move : Move} {action : Action} {next : State}
    (taken : move.action? = some action) (stepped : session.state.step? action = some next) :
    ∃ own : List Move, (∀ later ∈ own, later.asks = false) ∧
      session.state.run? (move :: own) = some (session.take action).state := by
  obtain ⟨own, quiet, ran⟩ := State.exists_run?_settleIn next.work next
  refine ⟨own, quiet, State.run?_cons_eq_some_iff.mpr ⟨next, ?_, ?_⟩⟩
  · rw [State.move?, taken]
    exact stepped
  · rw [take, State.after, stepped]
    exact ran

/-- A session handles a change by a run that starts with it and asks for
nothing more. -/
theorem exists_run?_change (session : Session) (reported : Change) :
    ∃ own : List Move, (∀ later ∈ own, later.asks = false) ∧
      session.state.run? (.change reported :: own) =
        some (session.change reported).value.state := by
  by_cases accepted : accepts reported = true
  · have taken : (Move.change reported).action? = some .request := by
      rw [Move.action?, if_pos accepted]
    obtain ⟨next, stepped⟩ : ∃ next, session.state.step? .request = some next := by
      rw [State.step?]
      split <;> exact ⟨_, rfl⟩
    have handled : (session.change reported).value = session.requestPass := by
      rw [accepts, Bool.and_eq_true, Bool.not_eq_true', Option.isSome_iff_exists] at accepted
      obtain ⟨lasting, word, named⟩ := accepted
      simp only [Session.change, lasting, named]
      split <;> rfl
    rw [handled, requestPass]
    exact exists_run?_take taken stepped
  · have handled : (session.change reported).value = session := by
      rw [accepts, Bool.and_eq_true, Bool.not_eq_true', Option.isSome_iff_exists] at accepted
      rw [Session.change]
      split
      · exact absurd ⟨‹_›, _, ‹_›⟩ accepted
      · rfl
    refine ⟨[], by simp, ?_⟩
    rw [handled, State.run?, State.move?, Move.action?, if_neg accepted]
    rfl

end Protoclass.Session
