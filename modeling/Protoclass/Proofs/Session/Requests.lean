import Protoclass.Proofs.Session.Runs

/-!
# No request is lost

An accepted change, or a direct request, is owed an execution that starts after
it.  A session that owes one is never idle: it either remembers a request or
has a worker that is yet to start.  That a session owes an execution survives
every move other than the start of an execution, so a session can only come to
rest after every request has been followed by one.
-/

namespace Protoclass.Session

namespace State

/-- An execution is still to start: a request is remembered, or the worker has
not started. -/
def Owing (state : State) : Prop :=
  state.running = true ∧ (state.pending = true ∨ state.workers = [.starting])

theorem Owing.not_idle {state : State} (owing : state.Owing) : state.idle = false := by
  simp [idle, owing.1]

/-- A request leaves an orderly session owing an execution. -/
theorem Turn.owing_of_request {state next : State} (turn : Turn state .request next) :
    next.Owing := by
  cases turn with
  | begin => exact ⟨rfl, .inr rfl⟩
  | remember running => exact ⟨running, .inl rfl⟩

/-- Only the start of an execution settles what a session owes. -/
theorem Turn.owing {state next : State} {action : Action} (turn : Turn state action next)
    (unstarted : ∀ worker, action ≠ .start worker) (owing : state.Owing) : next.Owing := by
  obtain ⟨running, owed⟩ := owing
  cases turn with
  | begin => exact ⟨rfl, .inr rfl⟩
  | remember running => exact ⟨running, .inl rfl⟩
  | start | startCancelled => exact absurd rfl (unstarted 0)
  | finish workers =>
    have remembered : state.pending = true := by simpa [workers] using owed
    exact ⟨running, .inl remembered⟩
  | again => exact ⟨running, .inr rfl⟩
  | rest workers pending =>
    -- The worker has started and nothing is remembered, so nothing was owed.
    simp [workers, pending] at owed
  | cancel => exact ⟨running, owed⟩

theorem Orderly.owing_of_asks {state next : State} {move : Move} (orderly : state.Orderly)
    (asked : move.asks = true) (moved : state.move? move = some next) : next.Owing := by
  rw [move?, (Move.action?_eq_request_iff move).mpr asked] at moved
  exact (orderly.turn moved).owing_of_request

theorem Owing.move {state next : State} {move : Move} (owing : state.Owing)
    (orderly : state.Orderly) (unstarted : move.starts = false)
    (moved : state.move? move = some next) : next.Owing := by
  rw [move?] at moved
  split at moved
  · rename_i action taken
    apply (orderly.turn moved).owing _ owing
    rintro worker rfl
    simp [Move.starts_of_action?_eq_start taken] at unstarted
  · cases moved
    exact owing

theorem Owing.run {state last : State} {moves : List Move} (owing : state.Owing)
    (orderly : state.Orderly) (unstarted : ∀ move ∈ moves, move.starts = false)
    (ran : state.run? moves = some last) : last.Owing := by
  refine (run?_induction (fun state => state.Orderly ∧ state.Owing) ?_ ⟨orderly, owing⟩ ran).2
  intro move member current next kept moved
  exact ⟨kept.1.move moved, kept.2.move kept.1 (unstarted move member) moved⟩

end State

/-- No request is lost, whatever the order of moves.  While no execution has
started since a request, the session runs and remembers a request or has a
worker that is yet to start; so once the session is idle, an execution has
started after each request. -/
theorem request_followed_by_start {moves : List Move} {last : State}
    (ran : State.run? {} moves = some last) {before after : List Move} {request : Move}
    (split : moves = before ++ request :: after) (asked : request.asks = true) :
    ((∀ move ∈ after, move.starts = false) →
      last.running = true ∧ (last.pending = true ∨ last.workers = [.starting])) ∧
    (last.idle = true → ∃ move ∈ after, move.starts = true) := by
  have owes : (∀ move ∈ after, move.starts = false) → last.Owing := by
    intro unstarted
    rw [split, State.run?_append_eq_some_iff] at ran
    obtain ⟨middle, ranBefore, ranAfter⟩ := ran
    obtain ⟨asking, moved, ranAfter⟩ := State.run?_cons_eq_some_iff.mp ranAfter
    have orderly : middle.Orderly := State.orderly_new.run ranBefore
    exact (orderly.owing_of_asks asked moved).run (orderly.move moved) unstarted ranAfter
  refine ⟨owes, ?_⟩
  intro idle
  by_cases started : ∃ move ∈ after, move.starts = true
  · exact started
  · have unstarted : ∀ move ∈ after, move.starts = false := by simpa using started
    simp [(owes unstarted).not_idle] at idle

/-- A change during a pass, after which the session comes to rest. -/
theorem change_during_pass_followed_by_start :
    let after := [Move.finish 0 none, .check 0, .start 0, .finish 0 none, .check 0]
    State.run? {} ([.pass, .start 0] ++ .change ⟨"a.proto", ChangeBits.write⟩ :: after) =
        some { passes := 2 } ∧
      ∃ move ∈ after, move.starts = true := by
  have ran : State.run? {} ([.pass, .start 0] ++ .change ⟨"a.proto", ChangeBits.write⟩ ::
      [.finish 0 none, .check 0, .start 0, .finish 0 none, .check 0]) =
        some { passes := 2 } := by decide
  exact ⟨ran, (request_followed_by_start ran rfl (by decide)).2 rfl⟩

end Protoclass.Session
