import Mathlib.Data.List.Induction
import Mathlib.Data.List.Infix
import Protoclass.Proofs.Session.Runs

/-!
# Passes of a session

Passes never overlap: whatever the order of moves, there is one worker or none,
and so one pass at most is under way.

A session is busy from the request that sets it running until the check that
finds nothing remembered.  The checks divide a busy period into windows.  Each
window has one execution, and all but the last have a request, so that any number
of requests in a window together make one further execution.
-/

namespace Protoclass.Session

namespace Move

/-- Whether a move ends an execution. -/
def finishes : Move → Bool
  | .finish _ _ => true
  | _ => false

/-- Whether in a move a worker looks for a remembered request. -/
def checks : Move → Bool
  | .check _ => true
  | _ => false

theorem starts_eq_false_of_checks {move : Move} (checked : move.checks = true) :
    move.starts = false := by
  cases move <;> trivial

/-- What a move does is seen from the step that it takes. -/
theorem marks_of_action? {move : Move} {action : Action} (taken : move.action? = some action) :
    move.asks = (match action with | .request => true | _ => false) ∧
      move.starts = (match action with | .start _ => true | _ => false) ∧
      move.finishes = (match action with | .finish _ => true | _ => false) ∧
      move.checks = (match action with | .check _ => true | _ => false) := by
  cases move with
  | change reported =>
    rw [action?] at taken
    split at taken
    · rename_i accepted
      cases taken
      exact ⟨accepted, rfl, rfl, rfl⟩
    · contradiction
  | pass | start | finish | check | cancel =>
    cases taken
    exact ⟨rfl, rfl, rfl, rfl⟩

/-- Only a change that is not accepted takes no step. -/
theorem exists_of_action?_eq_none {move : Move} (quiet : move.action? = none) :
    ∃ reported, move = .change reported ∧ accepts reported = false := by
  cases move with
  | change reported => exact ⟨reported, rfl, by simpa [action?] using quiet⟩
  | pass | start | finish | check | cancel => contradiction

end Move

namespace State

variable {state next last : State} {move : Move}

/-- A move of an orderly session takes a turn, or is a change that is not
accepted. -/
theorem Orderly.cases_move (orderly : state.Orderly) (moved : state.move? move = some next) :
    (∃ action, move.action? = some action ∧ Turn state action next) ∨
      ∃ reported, move = .change reported ∧ accepts reported = false ∧ next = state := by
  rw [move?] at moved
  split at moved
  · rename_i action taken
    exact .inl ⟨action, taken, orderly.turn moved⟩
  · rename_i quiet
    obtain ⟨reported, rfl, rejected⟩ := Move.exists_of_action?_eq_none quiet
    cases moved
    exact .inr ⟨reported, rfl, rejected, rfl⟩

theorem run?_singleton (state : State) (move : Move) : state.run? [move] = state.move? move := by
  rw [run?]
  simp

theorem run?_append_of_eq_some {before after : List Move} (ran : state.run? before = some next) :
    state.run? (before ++ after) = next.run? after := by
  ext last
  rw [run?_append_eq_some_iff]
  simp [ran]

/-- An orderly session with a worker runs. -/
theorem Orderly.running_of_workers {worker : Worker} (orderly : state.Orderly)
    (workers : state.workers = [worker]) : state.running = true := by
  cases orderly with
  | resting none => simp [none] at workers
  | working _ _ running => exact running

/-- A session that is cancelled stays so. -/
theorem Orderly.active_of_move (orderly : state.Orderly) (moved : state.move? move = some next)
    (active : next.cancelled = false) : state.cancelled = false := by
  rcases orderly.cases_move moved with ⟨action, -, turn⟩ | ⟨reported, -, -, rfl⟩
  · cases turn with
    | cancel => contradiction
    | begin | remember | start | startCancelled | finish | again | rest => exact active
  · exact active

/-! ## Passes under way -/

/-- The number of passes under way. -/
def underWay (state : State) : Nat := state.workers.count .executing

theorem Orderly.passes_move (orderly : state.Orderly) (moved : state.move? move = some next) :
    next.passes + state.underWay =
      state.passes + next.underWay + [move].countP Move.finishes := by
  rcases orderly.cases_move moved with ⟨action, taken, turn⟩ | ⟨reported, rfl, -, rfl⟩
  · obtain ⟨-, -, finishes, -⟩ := Move.marks_of_action? taken
    rw [List.countP_singleton, finishes]
    cases turn with
    | begin workers | start workers | startCancelled workers | finish workers | again workers
    | rest workers => simp [underWay, workers]
    | remember | cancel => rfl
  · rfl

/-- The passes begun along a run are those that ended and those under way. -/
theorem Orderly.passes_run {moves : List Move} (orderly : state.Orderly)
    (ran : state.run? moves = some last) :
    last.passes + state.underWay =
      state.passes + last.underWay + moves.countP Move.finishes := by
  induction moves generalizing state with
  | nil =>
    cases ran
    rfl
  | cons move rest ih =>
    obtain ⟨next, moved, ran⟩ := run?_cons_eq_some_iff.mp ran
    have first := orderly.passes_move moved
    have others := ih (orderly.move moved) ran
    rw [← List.singleton_append, List.countP_append]
    omega

/-! ## Windows -/

/-- The number of workers that are yet to start an execution. -/
def waiting (state : State) : Nat := state.workers.count .starting

/-- A window begins: the worker is yet to start, and nothing is remembered. -/
structure Fresh (state : State) : Prop where
  running : state.running = true
  workers : state.workers = [.starting]
  pending : state.pending = false

theorem Fresh.orderly (fresh : state.Fresh) : state.Orderly :=
  .working .starting fresh.workers fresh.running

theorem Fresh.waiting_eq (fresh : state.Fresh) : state.waiting = 1 := by
  simp [waiting, fresh.workers]

/-- A move other than a check keeps the session running and remembers what is
asked for; only a start takes a worker from those that wait. -/
theorem Orderly.move_within (orderly : state.Orderly) (running : state.running = true)
    (unchecked : move.checks = false) (moved : state.move? move = some next) :
    next.running = true ∧ next.pending = (state.pending || move.asks) ∧
      state.waiting = next.waiting + [move].countP Move.starts := by
  rcases orderly.cases_move moved with ⟨action, taken, turn⟩ | ⟨reported, rfl, rejected, rfl⟩
  · obtain ⟨asks, starts, -, checks⟩ := Move.marks_of_action? taken
    rw [checks] at unchecked
    rw [asks, List.countP_singleton, starts]
    cases turn with
    | begin workers =>
      cases orderly with
      | resting _ rested => simp [rested] at running
      | working _ some => simp [some] at workers
    | start workers | startCancelled workers | finish workers =>
      simp [waiting, workers, running]
    | again | rest => contradiction
    | remember | cancel => simp [waiting, running]
  · simp [Move.asks, Move.starts, rejected, running]

/-- A check finds the worker after its execution.  If a request is remembered, a
window begins, and else the session comes to rest. -/
theorem Orderly.move_check (orderly : state.Orderly) (checked : move.checks = true)
    (moved : state.move? move = some next) :
    state.waiting = 0 ∧ (state.pending = true ∧ next.Fresh ∨
      state.pending = false ∧ next.running = false) := by
  rcases orderly.cases_move moved with ⟨action, taken, turn⟩ | ⟨reported, rfl, -, -⟩
  · obtain ⟨-, -, -, checks⟩ := Move.marks_of_action? taken
    rw [checks] at checked
    cases turn with
    | again workers pending =>
      have running := orderly.running_of_workers workers
      exact ⟨by simp [waiting, workers], .inl ⟨pending, running, rfl, rfl⟩⟩
    | rest workers pending => exact ⟨by simp [waiting, workers], .inr ⟨pending, rfl⟩⟩
    | begin | remember | start | startCancelled | finish | cancel => contradiction
  · contradiction

/-- Only in a running session an execution starts. -/
theorem Orderly.running_of_starts (orderly : state.Orderly) (started : move.starts = true)
    (moved : state.move? move = some next) : state.running = true := by
  rcases orderly.cases_move moved with ⟨action, taken, turn⟩ | ⟨reported, rfl, -, -⟩
  · obtain ⟨-, starts, -, -⟩ := Move.marks_of_action? taken
    rw [starts] at started
    cases turn with
    | start workers | startCancelled workers => exact orderly.running_of_workers workers
    | begin | remember | finish | again | rest | cancel => contradiction
  · contradiction

/-- Only a request sets a session running, and a window begins with it. -/
theorem Orderly.move_opening (orderly : state.Orderly) (rested : state.running = false)
    (moved : state.move? move = some next) (running : next.running = true) :
    move.asks = true ∧ next.Fresh := by
  cases orderly with
  | working _ _ running => simp [rested] at running
  | resting none _ pending =>
    rcases (Orderly.resting none rested pending).cases_move moved with
      ⟨action, taken, turn⟩ | ⟨reported, rfl, -, rfl⟩
    · cases turn with
      | begin => exact ⟨(Move.action?_eq_request_iff move).mp taken, rfl, rfl, pending⟩
      | remember running => simp [rested] at running
      | start workers | startCancelled workers | finish workers | again workers | rest workers =>
        simp [none] at workers
      | cancel => simp [rested] at running
    · simp [rested] at running

/-- Through moves without a check the session keeps running, remembers whether
anything was asked for, and each start leaves a worker less waiting. -/
theorem Orderly.run_within {window : List Move} (orderly : state.Orderly)
    (running : state.running = true) (unchecked : ∀ move ∈ window, move.checks = false)
    (ran : state.run? window = some last) :
    last.running = true ∧ last.pending = (state.pending || window.any Move.asks) ∧
      state.waiting = last.waiting + window.countP Move.starts := by
  induction window generalizing state with
  | nil =>
    cases ran
    simp [running]
  | cons move rest ih =>
    rw [List.forall_mem_cons] at unchecked
    obtain ⟨next, moved, ran⟩ := run?_cons_eq_some_iff.mp ran
    obtain ⟨running, pending, waiting⟩ := orderly.move_within running unchecked.1 moved
    obtain ⟨lastRunning, lastPending, lastWaiting⟩ :=
      ih (orderly.move moved) running unchecked.2 ran
    refine ⟨lastRunning, ?_, ?_⟩
    · rw [lastPending, pending, List.any_cons, Bool.or_assoc]
    · rw [← List.singleton_append, List.countP_append]
      omega

/-- The number of windows in which something was asked for.  Windows are divided by
the checks. -/
def askedWindows (moves : List Move) : Nat :=
  (moves.splitOnP Move.checks).countP fun window => window.any Move.asks

theorem askedWindows_of_unchecked {window : List Move}
    (unchecked : ∀ move ∈ window, move.checks = false) :
    askedWindows window = (window.any Move.asks).toNat := by
  rw [askedWindows, List.splitOnP_eq_singleton unchecked, List.countP_singleton]
  cases window.any Move.asks <;> rfl

theorem askedWindows_append_cons {window rest : List Move} {check : Move}
    (unchecked : ∀ move ∈ window, move.checks = false) (checked : check.checks = true) :
    askedWindows (window ++ check :: rest) =
      (window.any Move.asks).toNat + askedWindows rest := by
  rw [askedWindows, List.splitOnP_append_cons_of_forall_mem unchecked check checked,
    List.countP_cons, Nat.add_comm]
  cases window.any Move.asks <;> rfl

/-- Moves are a window, or a window, a check and further moves. -/
@[elab_as_elim]
theorem windowInduction {motive : List Move → Prop}
    (single : ∀ window, (∀ move ∈ window, move.checks = false) → motive window)
    (more : ∀ window check rest, (∀ move ∈ window, move.checks = false) → check.checks = true →
      motive rest → motive (window ++ check :: rest))
    (moves : List Move) : motive moves := by
  cases found : moves.find? Move.checks with
  | none =>
    apply single
    simpa using List.find?_eq_none.mp found
  | some check =>
    obtain ⟨checked, window, rest, split, unchecked⟩ := List.find?_eq_some_iff_append.mp found
    have shorter : rest.length < moves.length := by
      rw [split, List.length_append, List.length_cons]
      omega
    rw [split]
    exact more window check rest (by simpa using unchecked) checked
      (windowInduction single more rest)
termination_by moves.length

/-- A whole window has one execution.  The check at its end begins another window
if anything was asked for in it, and else the session comes to rest. -/
theorem Fresh.run_window {window : List Move} {current : State} (fresh : state.Fresh)
    (unchecked : ∀ move ∈ window, move.checks = false) (ran : state.run? window = some current)
    (checked : move.checks = true) (moved : current.move? move = some next) :
    window.countP Move.starts = 1 ∧ (window.any Move.asks = true ∧ next.Fresh ∨
      window.any Move.asks = false ∧ next.running = false) := by
  obtain ⟨-, pending, waiting⟩ := fresh.orderly.run_within fresh.running unchecked ran
  obtain ⟨started, outcome⟩ := (fresh.orderly.run ran).move_check checked moved
  rw [pending, fresh.pending, Bool.false_or] at outcome
  rw [fresh.waiting_eq, started, Nat.zero_add] at waiting
  exact ⟨waiting.symm, outcome⟩

/-- From the start of a window until the session comes to rest there is an
execution for each window in which something was asked for, and one more. -/
theorem Fresh.countP_starts {inside : List Move} {closing : Move} (fresh : state.Fresh)
    (runs : ∀ front, front <+: inside →
      ∃ current, state.run? front = some current ∧ current.running = true)
    (ran : state.run? (inside ++ [closing]) = some last) (rested : last.running = false) :
    closing.checks = true ∧ inside.countP Move.starts = 1 + askedWindows inside := by
  induction inside using windowInduction generalizing state with
  | single window unchecked =>
    obtain ⟨current, ranWindow, running⟩ := runs window List.prefix_rfl
    rw [run?_append_of_eq_some ranWindow, run?_singleton] at ran
    have checked : closing.checks = true := by
      cases checks : closing.checks with
      | true => rfl
      | false =>
        have goesOn := (fresh.orderly.run ranWindow).move_within running checks ran
        simp [rested] at goesOn
    obtain ⟨started, ⟨-, begins⟩ | ⟨nothing, -⟩⟩ :=
      fresh.run_window unchecked ranWindow checked ran
    · simp [begins.running] at rested
    · rw [askedWindows_of_unchecked unchecked, started, nothing]
      exact ⟨checked, rfl⟩
  | more window check rest unchecked checked ih =>
    obtain ⟨next, ranFirst, running⟩ := runs (window ++ [check]) (by simp)
    obtain ⟨current, ranWindow, moved⟩ := run?_append_eq_some_iff.mp ranFirst
    rw [run?_singleton] at moved
    obtain ⟨started, ⟨asked, begins⟩ | ⟨-, ends⟩⟩ :=
      fresh.run_window unchecked ranWindow checked moved
    · have later (moves : List Move) : state.run? (window ++ check :: moves) = next.run? moves := by
        rw [List.append_cons, run?_append_of_eq_some ranFirst]
      obtain ⟨closed, others⟩ : closing.checks = true ∧
          rest.countP Move.starts = 1 + askedWindows rest := by
        apply ih begins
        · intro front within
          rw [← later]
          exact runs _ (by simpa)
        · rw [← later]
          simpa using ran
      have unstarted : check.starts = false := Move.starts_eq_false_of_checks checked
      refine ⟨closed, ?_⟩
      rw [askedWindows_append_cons unchecked checked, List.countP_append,
        List.countP_cons_of_neg (by simp [unstarted]), started, others, asked]
      rfl
    · simp [running] at ends

end State

/-! ## Passes that do not overlap -/

/-- Passes never overlap, whatever the order of moves and however passes end.
There is one worker at most, counting one that is yet to start, and the session
runs exactly while there is one; only a running session remembers a request.  So
one pass at most is under way, which is to say: was begun and has not ended. -/
theorem passes_never_overlap {moves : List Move} {last : State}
    (ran : State.run? {} moves = some last) :
    last.workers.length ≤ 1 ∧ (last.running = true ↔ last.workers.length = 1) ∧
      (last.pending = true → last.running = true) ∧ last.underWay ≤ 1 ∧
      last.passes = moves.countP Move.finishes + last.underWay := by
  have passes := State.orderly_new.passes_run ran
  have counted : last.passes = moves.countP Move.finishes + last.underWay := by
    simpa [State.underWay, Nat.add_comm] using passes
  cases State.orderly_new.run ran with
  | resting workers running pending =>
    simp [workers, running, pending, counted, State.underWay]
  | working worker workers running =>
    have one : last.underWay ≤ 1 := by
      rw [State.underWay, workers]
      exact List.count_le_length
    simp [workers, running, counted, one]

/-- A pass fails, and one that was asked for in the meantime begins after it. -/
theorem passes_never_overlap_after_failure :
    let moves := [Move.pass, .start 0, .change ⟨"a.proto", ChangeBits.write⟩, .pass,
      .finish 0 (some "failed"), .check 0, .start 0]
    let last : State := { running := true, workers := [.executing], passes := 2 }
    State.run? {} moves = some last ∧ last.passes = moves.countP Move.finishes + 1 := by
  intro moves last
  have ran : State.run? {} moves = some last := by decide
  exact ⟨ran, (passes_never_overlap ran).2.2.2.2⟩

/-! ## Busy periods -/

/-- Whether a new session runs after some moves, if these can be made. -/
def runningAfter? (moves : List Move) : Option Bool :=
  (State.run? {} moves).map State.running

theorem runningAfter?_eq_some_iff {moves : List Move} {running : Bool} :
    runningAfter? moves = some running ↔
      ∃ state, State.run? {} moves = some state ∧ state.running = running :=
  Option.map_eq_some_iff

/-- A session is busy: after the moves `before` it does not run, `opening` sets it
running, and so it stays through the moves `inside`. -/
structure Busy (before : List Move) (opening : Move) (inside : List Move) : Prop where
  rested : runningAfter? before = some false
  runs : ∀ front, front <+: inside → runningAfter? (before ++ opening :: front) = some true

/-- A session is busy, from the move `opening` until the move `closing`. -/
structure BusyPeriod (before : List Move) (opening : Move) (inside : List Move)
    (closing : Move) : Prop extends Busy before opening inside where
  closed : runningAfter? (before ++ opening :: (inside ++ [closing])) = some false

/-- A session that runs is busy. -/
theorem exists_busy {moves : List Move} (runs : runningAfter? moves = some true) :
    ∃ before opening inside, moves = before ++ opening :: inside ∧ Busy before opening inside := by
  induction moves using List.reverseRecOn with
  | nil => contradiction
  | append_singleton earlier move ih =>
    obtain ⟨last, ran, -⟩ := runningAfter?_eq_some_iff.mp runs
    obtain ⟨state, ranEarlier, -⟩ := State.run?_append_eq_some_iff.mp ran
    cases running : state.running with
    | false =>
      have rested := runningAfter?_eq_some_iff.mpr ⟨state, ranEarlier, running⟩
      refine ⟨earlier, move, [], rfl, rested, ?_⟩
      intro front within
      rw [List.prefix_nil.mp within]
      exact runs
    | true =>
      obtain ⟨before, opening, inside, rfl, busy⟩ :=
        ih (runningAfter?_eq_some_iff.mpr ⟨state, ranEarlier, running⟩)
      refine ⟨before, opening, inside ++ [move], by simp, busy.rested, ?_⟩
      intro front within
      rcases List.prefix_concat_iff.mp within with rfl | shorter
      · simpa using runs
      · exact busy.runs front shorter

theorem BusyPeriod.countP_starts {before inside : List Move} {opening closing : Move}
    (period : BusyPeriod before opening inside closing) :
    opening.asks = true ∧ closing.checks = true ∧
      inside.countP Move.starts = 1 + State.askedWindows inside := by
  obtain ⟨state, ranBefore, rested⟩ := runningAfter?_eq_some_iff.mp period.rested
  obtain ⟨opened, ranOpening, running⟩ :=
    runningAfter?_eq_some_iff.mp (period.runs [] List.nil_prefix)
  have moved : state.move? opening = some opened := by
    rwa [State.run?_append_of_eq_some ranBefore, State.run?_singleton] at ranOpening
  have later (moves : List Move) :
      State.run? {} (before ++ opening :: moves) = opened.run? moves := by
    rw [List.append_cons, State.run?_append_of_eq_some ranOpening]
  obtain ⟨asked, fresh⟩ :=
    (State.orderly_new.run ranBefore).move_opening rested moved running
  obtain ⟨last, ranAll, closed⟩ := runningAfter?_eq_some_iff.mp period.closed
  refine ⟨asked, fresh.countP_starts ?_ (later _ ▸ ranAll) closed⟩
  intro front within
  rw [← later]
  exact runningAfter?_eq_some_iff.mp (period.runs front within)

/-- Requests during a pass coalesce.  A busy period begins with a request and ends
with a check; it has one execution, and one more for each of its windows in which
there was a further request, however many there were.  No execution starts while
the session is not busy. -/
theorem requests_coalesce :
    (∀ before opening inside closing, BusyPeriod before opening inside closing →
      opening.asks = true ∧ closing.checks = true ∧
        (opening :: (inside ++ [closing])).countP Move.starts =
          1 + (inside.splitOnP Move.checks).countP fun window => window.any Move.asks) ∧
    ∀ before start last, start.starts = true → State.run? {} (before ++ [start]) = some last →
      ∃ earlier opening inside, before = earlier ++ opening :: inside ∧
        Busy earlier opening inside := by
  constructor
  · intro before opening inside closing period
    obtain ⟨asked, checked, counted⟩ := period.countP_starts
    have openingOther : opening.starts = false := by cases opening <;> trivial
    have closingOther : closing.starts = false := Move.starts_eq_false_of_checks checked
    refine ⟨asked, checked, ?_⟩
    rw [List.countP_cons_of_neg (by simp [openingOther]), List.countP_append, counted]
    simp [closingOther, State.askedWindows]
  · intro before start last started ran
    obtain ⟨state, ranBefore, moved⟩ := State.run?_append_eq_some_iff.mp ran
    rw [State.run?_singleton] at moved
    have running := (State.orderly_new.run ranBefore).running_of_starts started moved
    exact exists_busy (runningAfter?_eq_some_iff.mpr ⟨state, ranBefore, running⟩)

/-- A busy period with two windows.  Two changes in the first make one further
execution. -/
theorem requests_coalesce_in_first_window :
    let reported : Change := ⟨"a.proto", ChangeBits.write⟩
    let inside := [Move.start 0, .change reported, .finish 0 none, .change reported, .check 0,
      .start 0, .finish 0 none]
    BusyPeriod [] .pass inside (.check 0) ∧
      (Move.pass :: (inside ++ [.check 0])).countP Move.starts =
        1 + (inside.splitOnP Move.checks).countP fun window => window.any Move.asks := by
  intro reported inside
  have runs : ∀ front ∈ inside.inits, runningAfter? ([] ++ .pass :: front) = some true := by decide
  have period : BusyPeriod [] .pass inside (.check 0) :=
    ⟨⟨rfl, fun front within => runs front ((List.mem_inits front inside).mpr within)⟩, by decide⟩
  exact ⟨period, (requests_coalesce.1 _ _ _ _ period).2.2⟩

end Protoclass.Session
