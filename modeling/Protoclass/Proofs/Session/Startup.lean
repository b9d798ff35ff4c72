import Protoclass.Proofs.Session.Directories
import Protoclass.Proofs.Session.Passes

/-!
# Starting to watch

A watch starts with a pass, and only then adds the directories to the notifier,
one after another; after that it handles what the notifier reports.  Meanwhile
files are edited and workers move, in any order.  The notifier reports an edit
if the directory of the file was added before, and not otherwise.

A run is any sequence of such moves.  `Step` lists what a move can do, and what
holds of every reachable state is derived from that list.  The watch of a session
is one of the runs.
-/

namespace Protoclass.Watching

/-- What is watched: the files below a directory that a filter accepts. -/
structure Scene where
  system : FileSystem
  root : Text
  filter : WatchFilter

/-- An edit of a file in a directory. -/
structure Edit where
  directory : Text
  file : Text
  bits : ChangeBits := ChangeBits.write
  deriving DecidableEq, Repr

/-- The change that a notifier reports for an edit. -/
def Edit.change (edit : Edit) : Change := ⟨edit.directory ++ "/" ++ edit.file, edit.bits⟩

/-- Whether a change asks for a pass: it is one of a file that the filter accepts, and
the session accepts it. -/
def Scene.isSource (scene : Scene) (change : Change) : Bool :=
  scene.filter.accepts change.path && Session.accepts change

/-- How far a watch has come. -/
inductive Phase where
  /-- It has not begun. -/
  | fresh
  /-- It runs the first pass. -/
  | passing
  /-- It adds directories; these are left. -/
  | adding (left : List Text)
  /-- It handles what the notifier reports. -/
  | listening
  deriving DecidableEq, Repr

/-- A watch: how far it has come, its session, its notifier, and what was reported
and not handled yet. -/
structure State where
  phase : Phase := .fresh
  session : Session.State := {}
  notifier : Notifier
  events : List Change := []
  deriving DecidableEq, Repr

/-- A move of some part of a watch. -/
inductive Move where
  /-- A file is edited. -/
  | edit (edit : Edit)
  /-- The watch begins with a pass. -/
  | begin
  /-- A worker moves, or the session is cancelled. -/
  | own (move : Session.Move)
  /-- The first pass is over, and the directories to add are found. -/
  | create
  /-- A directory is added. -/
  | add
  /-- All directories are added. -/
  | listen
  /-- A reported change is handled. -/
  | deliver

namespace State

/-- Whether edits in a directory are reported. -/
def watches (state : State) (directory : Text) : Bool :=
  state.notifier.watched.any (· = directory)

/-- The state after a move, if the move can be made. -/
def step? (scene : Scene) (state : State) : Move → Option State
  | .edit edit =>
    if state.watches edit.directory then
      some { state with events := state.events ++ [edit.change] }
    else some state
  | .begin =>
    if state.phase = .fresh then
      (state.session.move? .pass).map fun session => { state with phase := .passing, session }
    else none
  | .own move =>
    if move.asks then none
    else (state.session.move? move).map fun session => { state with session }
  | .create =>
    match state.phase, Notifier.directories scene.system scene.filter scene.root with
    | .passing, .ok found =>
      if state.session.running then none else some { state with phase := .adding found }
    | _, _ => none
  | .add =>
    match state.phase with
    | .adding (path :: left) =>
      some { state with phase := .adding left, notifier := state.notifier.watch path }
    | _ => none
  | .listen => if state.phase = .adding [] then some { state with phase := .listening } else none
  | .deliver =>
    match state.phase, state.events with
    | .listening, change :: events =>
      let handled := (state.notifier.handle scene.system (.change change)).value
      (state.session.run? (handled.passedOn.map .change)).map fun session =>
        { state with session, notifier := handled.notifier, events }
    | _, _ => none

/-- The state after a sequence of moves, if they can be made one after another. -/
def run? (scene : Scene) (state : State) : List Move → Option State
  | [] => some state
  | move :: rest => (state.step? scene move).bind fun next => next.run? scene rest

/-- A watch that has not begun. -/
def new (scene : Scene) : State := { notifier := { filter := scene.filter } }

/-! ## Steps -/

/-- What a move can do to a watch. -/
inductive Step (scene : Scene) (state : State) : Move → State → Prop where
  | reported {edit : Edit} (watched : state.watches edit.directory = true) :
      Step scene state (.edit edit) { state with events := state.events ++ [edit.change] }
  | missed {edit : Edit} (unwatched : state.watches edit.directory = false) :
      Step scene state (.edit edit) state
  | begin {session : Session.State} (fresh : state.phase = .fresh)
      (asked : state.session.move? .pass = some session) :
      Step scene state .begin { state with phase := .passing, session }
  | own {move : Session.Move} {session : Session.State} (quiet : move.asks = false)
      (moved : state.session.move? move = some session) :
      Step scene state (.own move) { state with session }
  | create {found : List Text} (passing : state.phase = .passing)
      (readable : Notifier.directories scene.system scene.filter scene.root = .ok found)
      (resting : state.session.running = false) :
      Step scene state .create { state with phase := .adding found }
  | add {path : Text} {left : List Text} (adding : state.phase = .adding (path :: left)) :
      Step scene state .add
        { state with phase := .adding left, notifier := state.notifier.watch path }
  | listen (added : state.phase = .adding []) :
      Step scene state .listen { state with phase := .listening }
  | deliver {change : Change} {events : List Change} {session : Session.State}
      {handled : Notifier.Handled} (listening : state.phase = .listening)
      (first : state.events = change :: events)
      (handling : (state.notifier.handle scene.system (.change change)).value = handled)
      (moved : state.session.run? (handled.passedOn.map .change) = some session) :
      Step scene state .deliver
        { state with session, notifier := handled.notifier, events }

theorem step?_eq_some_iff {scene : Scene} {state next : State} {move : Move} :
    state.step? scene move = some next ↔ Step scene state move next := by
  constructor
  · intro stepped
    cases move with
    | edit edit =>
      rw [step?] at stepped
      split at stepped
      next watched =>
        cases stepped
        exact .reported watched
      next unwatched =>
        cases stepped
        exact .missed (Bool.eq_false_iff.mpr unwatched)
    | begin =>
      rw [step?] at stepped
      split at stepped
      next fresh =>
        rcases Option.map_eq_some_iff.mp stepped with ⟨session, asked, rfl⟩
        exact .begin fresh asked
      next => contradiction
    | own move =>
      rw [step?] at stepped
      split at stepped
      next => contradiction
      next quiet =>
        rcases Option.map_eq_some_iff.mp stepped with ⟨session, moved, rfl⟩
        exact .own (Bool.eq_false_iff.mpr quiet) moved
    | create =>
      rw [step?] at stepped
      split at stepped
      next found passing readable =>
        split at stepped
        next => contradiction
        next resting =>
          cases stepped
          exact .create passing readable (Bool.eq_false_iff.mpr resting)
      next => contradiction
    | add =>
      rw [step?] at stepped
      split at stepped
      next path left adding =>
        cases stepped
        exact .add adding
      next => contradiction
    | listen =>
      rw [step?] at stepped
      split at stepped
      next added =>
        cases stepped
        exact .listen added
      next => contradiction
    | deliver =>
      rw [step?] at stepped
      split at stepped
      next change events listening first =>
        rcases Option.map_eq_some_iff.mp stepped with ⟨session, moved, rfl⟩
        exact .deliver listening first rfl moved
      next => contradiction
  · intro step
    cases step with
    | reported watched => rw [step?, if_pos watched]
    | missed unwatched => rw [step?, if_neg (Bool.eq_false_iff.mp unwatched)]
    | begin fresh asked => rw [step?, if_pos fresh, asked, Option.map_some]
    | own quiet moved => rw [step?, if_neg (Bool.eq_false_iff.mp quiet), moved, Option.map_some]
    | create passing readable resting => simp [step?, passing, readable, resting]
    | add adding => simp [step?, adding]
    | listen added => rw [step?, if_pos added]
    | deliver listening first handling moved =>
      simp only [step?, listening, first, handling, moved, Option.map_some]

theorem run?_cons_eq_some_iff {scene : Scene} {state last : State} {move : Move}
    {rest : List Move} :
    state.run? scene (move :: rest) = some last ↔
      ∃ next, Step scene state move next ∧ next.run? scene rest = some last := by
  simp only [← step?_eq_some_iff]
  exact Option.bind_eq_some_iff

theorem run?_append {scene : Scene} {state middle : State} {before : List Move}
    (ran : state.run? scene before = some middle) (after : List Move) :
    state.run? scene (before ++ after) = middle.run? scene after := by
  induction before generalizing state with
  | nil =>
    cases ran
    rfl
  | cons move rest ih =>
    rcases Option.bind_eq_some_iff.mp ran with ⟨next, stepped, ran⟩
    rw [List.cons_append, run?, stepped]
    exact ih ran

/-- What every step keeps, a run keeps. -/
theorem run?_induction {scene : Scene} (kept : State → Prop)
    (step : ∀ state move next, kept state → Step scene state move next → kept next)
    {state last : State} {moves : List Move} (start : kept state)
    (ran : state.run? scene moves = some last) : kept last := by
  induction moves generalizing state with
  | nil =>
    cases ran
    exact start
  | cons move rest ih =>
    rcases run?_cons_eq_some_iff.mp ran with ⟨next, stepped, ran⟩
    exact ih (step state move next start stepped) ran

/-! ## What holds along a run -/

/-- What holds of a watch at any time: its session is orderly, it has its filter, and
what it does not have to add any more is watched. -/
structure Sound (scene : Scene) (state : State) : Prop where
  orderly : state.session.Orderly
  filter : state.notifier.filter = scene.filter
  added : ∀ left, state.phase = .adding left ∨ (state.phase = .listening ∧ left = []) →
    ∃ found, Notifier.directories scene.system scene.filter scene.root = .ok found ∧
      ∀ path ∈ found, path ∈ left ∨ Path.clean path ∈ state.notifier.watched

theorem sound_new (scene : Scene) : (new scene).Sound scene where
  orderly := Session.State.orderly_new
  filter := rfl
  added := by simp [new]

/-- Handling a change leaves the session as it is, or asks for a pass. -/
theorem Sound.deliver {scene : Scene} {state : State} {change : Change}
    {handled : Notifier.Handled} {session : Session.State} (sound : state.Sound scene)
    (handling : (state.notifier.handle scene.system (.change change)).value = handled)
    (moved : state.session.run? (handled.passedOn.map .change) = some session) :
    state.session.move? (.change change) = some session ∧ scene.isSource change = true
      ∨ session = state.session ∧ scene.isSource change = false := by
  rcases state.notifier.exists_handle_change scene.system change with ⟨after, -, same⟩
  rw [same] at handling
  subst handling
  rw [sound.filter] at moved
  unfold Scene.isSource
  cases accepted : scene.filter.accepts change.path with
  | false =>
    rw [accepted, if_neg Bool.false_ne_true] at moved
    cases moved
    exact .inr ⟨rfl, rfl⟩
  | true =>
    rw [accepted, if_pos rfl, List.map_singleton, Session.State.run?_singleton] at moved
    cases asks : Session.accepts change with
    | true => exact .inl ⟨moved, rfl⟩
    | false =>
      rw [Session.State.move?, Session.Move.action?, if_neg (by simp [asks])] at moved
      cases moved
      exact .inr ⟨rfl, rfl⟩

theorem Step.sound {scene : Scene} {state next : State} {move : Move}
    (step : Step scene state move next) (sound : state.Sound scene) : next.Sound scene := by
  cases step with
  | reported => exact ⟨sound.orderly, sound.filter, sound.added⟩
  | missed => exact sound
  | begin fresh asked => exact ⟨sound.orderly.move asked, sound.filter, by simp⟩
  | own quiet moved => exact ⟨sound.orderly.move moved, sound.filter, sound.added⟩
  | @create found passing readable resting =>
    refine ⟨sound.orderly, sound.filter, ?_⟩
    rintro left (adding | ⟨listening, -⟩)
    · cases adding
      exact ⟨found, readable, fun path member => .inl member⟩
    · contradiction
  | @add path left adding =>
    refine ⟨sound.orderly, (Notifier.filter_watch _ _).trans sound.filter, ?_⟩
    rintro left' (same | ⟨listening, -⟩)
    · cases same
      rcases sound.added _ (.inl adding) with ⟨found, readable, each⟩
      refine ⟨found, readable, fun other member => ?_⟩
      rcases each other member with among | watched
      · rcases List.mem_cons.mp among with rfl | later
        · exact .inr ((Notifier.mem_watched_watch _).mpr (.inr rfl))
        · exact .inl later
      · exact .inr ((Notifier.mem_watched_watch _).mpr (.inl watched))
    · contradiction
  | listen added =>
    refine ⟨sound.orderly, sound.filter, ?_⟩
    rintro left (adding | ⟨-, rfl⟩)
    · contradiction
    · exact sound.added [] (.inl added)
  | @deliver change events session handled listening first handling moved =>
    rcases state.notifier.exists_handle_change scene.system change with ⟨after, ⟨kept, more⟩, same⟩
    have notifier : handled.notifier = after := by rw [← handling, same]
    refine ⟨?_, by rw [notifier, kept, sound.filter], ?_⟩
    · rcases sound.deliver handling moved with ⟨asked, -⟩ | ⟨rfl, -⟩
      · exact sound.orderly.move asked
      · exact sound.orderly
    · intro left phase
      rcases sound.added left phase with ⟨found, readable, each⟩
      refine ⟨found, readable, fun path member => ?_⟩
      rcases each path member with among | watched
      · exact .inl among
      · exact .inr (notifier ▸ more watched)

theorem Sound.run {scene : Scene} {state last : State} {moves : List Move}
    (sound : state.Sound scene) (ran : state.run? scene moves = some last) : last.Sound scene :=
  run?_induction (Sound scene) (fun _ _ _ kept step => step.sound kept) sound ran

/-- A session that is cancelled stays so. -/
theorem Step.active {scene : Scene} {state next : State} {move : Move}
    (step : Step scene state move next) (sound : state.Sound scene)
    (active : next.session.cancelled = false) : state.session.cancelled = false := by
  cases step with
  | reported | missed | create | add | listen => exact active
  | begin fresh asked => exact sound.orderly.active_of_move asked active
  | own quiet moved => exact sound.orderly.active_of_move moved active
  | deliver listening first handling moved =>
    rcases sound.deliver handling moved with ⟨asked, -⟩ | ⟨rfl, -⟩
    · exact sound.orderly.active_of_move asked active
    · exact active

theorem active_of_run {scene : Scene} {state last : State} {moves : List Move}
    (sound : state.Sound scene) (ran : state.run? scene moves = some last)
    (active : last.session.cancelled = false) : state.session.cancelled = false := by
  induction moves generalizing state with
  | nil =>
    cases ran
    exact active
  | cons move rest ih =>
    rcases run?_cons_eq_some_iff.mp ran with ⟨next, step, ran⟩
    exact step.active sound (ih (step.sound sound) ran)

end State

/-! ## The watch of a session -/

theorem State.run?_replicate_add {scene : Scene} {state : State} {left : List Text}
    (adding : state.phase = .adding left) :
    state.run? scene (List.replicate left.length .add)
      = some { state with phase := .adding [], notifier := left.foldl Notifier.watch state.notifier } := by
  induction left generalizing state with
  | nil =>
    rcases state with ⟨phase, session, notifier, events⟩
    cases adding
    rfl
  | cons path left ih =>
    have step : Step scene state .add _ := .add adding
    exact run?_cons_eq_some_iff.mpr ⟨_, step, ih rfl⟩

/-- A session that is cancelled in its first pass, without any edit, watches by such a
run: the directories are added after the pass. -/
theorem exists_run?_watch (scene : Scene) {found : List Text}
    (readable : Notifier.directories scene.system scene.filter scene.root = .ok found)
    (outcome : Option Text) :
    ∃ state, (State.new scene).run? scene ([.begin, .own (.start 0), .own .cancel,
        .own (.finish 0 outcome), .own (.check 0)]
          ++ .create :: (List.replicate found.length .add ++ [.listen])) = some state
      ∧ state.phase = .listening
      ∧ (Session.watch { root := scene.root } scene.system scene.filter false outcome).value
        = ({ root := scene.root, state := state.session }, .ok ()) := by
  let passed : State :=
    { phase := .passing
      session := { cancelled := true, passes := 1 }
      notifier := { filter := scene.filter } }
  let adding : State := { passed with phase := .adding found }
  let added : State :=
    { adding with phase := .adding [], notifier := found.foldl Notifier.watch adding.notifier }
  have first : (State.new scene).run? scene [.begin, .own (.start 0), .own .cancel,
      .own (.finish 0 outcome), .own (.check 0)] = some passed := rfl
  have create : State.Step scene passed .create adding := .create rfl readable rfl
  have add : adding.run? scene (List.replicate found.length .add) = some added :=
    State.run?_replicate_add rfl
  have listen : State.Step scene added .listen { added with phase := .listening } := .listen rfl
  refine ⟨{ added with phase := .listening }, ?_, rfl, ?_⟩
  · rw [State.run?_append first]
    apply State.run?_cons_eq_some_iff.mpr ⟨adding, create, ?_⟩
    rw [State.run?_append add]
    exact State.run?_cons_eq_some_iff.mpr ⟨_, listen, rfl⟩
  · apply Logged.value_eq_of_result
    have begun : Session.cancel (Session.requestPass { root := scene.root })
        = { root := scene.root
            state := { running := true, cancelled := true, workers := [.executing], passes := 1 } } :=
      rfl
    have finished : (Session.finishPass (Session.cancel (Session.requestPass { root := scene.root }))
        outcome).result = .ok { root := scene.root, state := passed.session } := by
      rw [begun]
      cases outcome <;> rfl
    have watched := Notifier.result_addDirectory { filter := scene.filter } scene.system scene.root
    rw [readable] at watched
    simp only [Session.watch, if_neg Bool.false_ne_true, Logged.result_bind, finished, Result.ok_bind,
      Logged.result_attempt, watched, Except.map, Logged.result_info, Logged.result_pure]
    rfl

end Protoclass.Watching
