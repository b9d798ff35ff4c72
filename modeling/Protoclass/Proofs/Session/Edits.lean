import Protoclass.Proofs.Session.Requests
import Protoclass.Proofs.Session.Startup

/-!
# Edits that are missed

An edit is sure to be followed by a pass, however the watch goes on until it
rests, in two cases: its directory has been added, or a pass is due anyway.
Between the start of the first pass and the adding of its directory an edit can
be missed.
-/

namespace Protoclass

namespace Session.State

variable {state next : State} {move : Move}

/-- A move starts no pass or one, and what a session owes stays owed until then, unless
the session is cancelled. -/
theorem Orderly.owing_or_pass (orderly : state.Orderly) (moved : state.move? move = some next)
    (active : next.cancelled = false) :
    state.passes ≤ next.passes ∧ (state.Owing → next.Owing ∨ state.passes < next.passes) := by
  by_cases started : move.starts = true
  · rcases orderly.cases_move moved with ⟨action, taken, turn⟩ | ⟨reported, rfl, -, -⟩
    · rcases Move.marks_of_action? taken with ⟨-, starts, -, -⟩
      rw [started] at starts
      cases turn with
      | start => exact ⟨Nat.le_succ _, fun _ => .inr (Nat.lt_succ_self _)⟩
      | startCancelled _ cancelled => simp [cancelled] at active
      | begin | remember | finish | again | rest | cancel => contradiction
    · contradiction
  · have unstarted : move.starts = false := Bool.eq_false_iff.mpr started
    refine ⟨?_, fun owing => .inl (owing.move orderly unstarted moved)⟩
    rcases orderly.cases_move moved with ⟨action, -, turn⟩ | ⟨reported, -, -, rfl⟩
    · cases turn with
      | start => exact Nat.le_succ _
      | begin | remember | startCancelled | finish | again | rest | cancel => exact Nat.le_refl _
    · exact Nat.le_refl _

end Session.State

namespace Watching

namespace State

/-- Nothing is left to handle, and no pass runs or is to run, but more may be reported. -/
structure AtRest (state : State) : Prop where
  listening : state.phase = .listening
  handled : state.events = []
  idle : state.session.idle = true
  active : state.session.cancelled = false

/-- A pass is still to start: the first one, one that the session owes, or one for
something that was reported. -/
def Due (scene : Scene) (state : State) : Prop :=
  state.phase = .fresh ∨ state.session.Owing ∨ ∃ change ∈ state.events, scene.isSource change

/-! ## Passes that are due -/

/-- A step starts no pass or one, and a pass that is due stays due until one starts. -/
theorem Step.due_or_pass {scene : Scene} {state next : State} {move : Move}
    (step : Step scene state move next) (sound : state.Sound scene)
    (active : next.session.cancelled = false) :
    state.session.passes ≤ next.session.passes ∧
      (state.Due scene → next.Due scene ∨ state.session.passes < next.session.passes) := by
  cases step with
  | reported =>
    refine ⟨Nat.le_refl _, ?_⟩
    rintro (fresh | owing | ⟨change, member, source⟩)
    · exact .inl (.inl fresh)
    · exact .inl (.inr (.inl owing))
    · exact .inl (.inr (.inr ⟨change, List.mem_append_left _ member, source⟩))
  | missed => exact ⟨Nat.le_refl _, .inl⟩
  | begin fresh asked =>
    have owing := sound.orderly.owing_of_asks rfl asked
    exact ⟨(sound.orderly.owing_or_pass asked active).1, fun _ => .inl (.inr (.inl owing))⟩
  | own quiet moved =>
    rcases sound.orderly.owing_or_pass moved active with ⟨more, kept⟩
    refine ⟨more, ?_⟩
    rintro (fresh | owing | reported)
    · exact .inl (.inl fresh)
    · exact (kept owing).imp (fun owing => .inr (.inl owing)) id
    · exact .inl (.inr (.inr reported))
  | create passing =>
    refine ⟨Nat.le_refl _, ?_⟩
    rintro (fresh | owing)
    · rw [passing] at fresh
      contradiction
    · exact .inl (.inr owing)
  | add adding =>
    refine ⟨Nat.le_refl _, ?_⟩
    rintro (fresh | owing)
    · rw [adding] at fresh
      contradiction
    · exact .inl (.inr owing)
  | listen added =>
    refine ⟨Nat.le_refl _, ?_⟩
    rintro (fresh | owing)
    · rw [added] at fresh
      contradiction
    · exact .inl (.inr owing)
  | @deliver change events session handled listening first handling moved =>
    rcases sound.deliver handling moved with ⟨asked, source⟩ | ⟨rfl, other⟩
    · have asks : (Session.Move.change change).asks = true := (Bool.and_eq_true_iff.mp source).2
      have owing := sound.orderly.owing_of_asks asks asked
      exact ⟨(sound.orderly.owing_or_pass asked active).1, fun _ => .inl (.inr (.inl owing))⟩
    · refine ⟨Nat.le_refl _, ?_⟩
      rintro (fresh | owing | ⟨reported, member, source⟩)
      · rw [listening] at fresh
        contradiction
      · exact .inl (.inr (.inl owing))
      · rw [first, List.mem_cons] at member
        rcases member with rfl | later
        · rw [other] at source
          contradiction
        · exact .inl (.inr (.inr ⟨reported, later, source⟩))

theorem due_or_pass_of_run {scene : Scene} {state last : State} {moves : List Move}
    (sound : state.Sound scene) (ran : state.run? scene moves = some last)
    (active : last.session.cancelled = false) :
    state.session.passes ≤ last.session.passes ∧
      (state.Due scene → last.Due scene ∨ state.session.passes < last.session.passes) := by
  induction moves generalizing state with
  | nil =>
    cases ran
    exact ⟨Nat.le_refl _, .inl⟩
  | cons move rest ih =>
    rcases run?_cons_eq_some_iff.mp ran with ⟨next, step, ran⟩
    have nextSound := step.sound sound
    rcases step.due_or_pass sound (active_of_run nextSound ran active) with ⟨first, kept⟩
    rcases ih nextSound ran with ⟨more, later⟩
    refine ⟨Nat.le_trans first more, fun due => ?_⟩
    rcases kept due with due | started
    · exact (later due).imp_right fun started => by omega
    · exact .inr (by omega)

theorem AtRest.not_due {scene : Scene} {state : State} (rests : state.AtRest) :
    ¬ state.Due scene := by
  rintro (fresh | owing | ⟨change, member, -⟩)
  · rw [rests.listening] at fresh
    contradiction
  · simpa [rests.idle] using owing.not_idle
  · rw [rests.handled] at member
    contradiction

/-- A pass that is due has started once the watch rests. -/
theorem Due.passes_lt {scene : Scene} {state last : State} {moves : List Move}
    (due : state.Due scene) (sound : state.Sound scene)
    (ran : state.run? scene moves = some last) (rests : last.AtRest) :
    state.session.passes < last.session.passes :=
  ((due_or_pass_of_run sound ran rests.active).2 due).resolve_left rests.not_due

/-! ## Coming to rest -/

/-- A state from which the watch can come to rest without starting a pass. -/
def Settles (scene : Scene) (state : State) : Prop :=
  ∃ moves last, state.run? scene moves = some last ∧ last.AtRest ∧
    last.session.passes = state.session.passes

theorem Settles.of_step {scene : Scene} {state next : State} {move : Move}
    (step : Step scene state move next) (same : next.session.passes = state.session.passes)
    (settles : next.Settles scene) : state.Settles scene := by
  rcases settles with ⟨moves, last, ran, rests, kept⟩
  exact ⟨move :: moves, last, run?_cons_eq_some_iff.mpr ⟨next, step, ran⟩, rests, kept.trans same⟩

/-- A watch that listens handles what was reported, if none of it asks for a pass. -/
theorem settles_of_listening {scene : Scene} {state : State} (sound : state.Sound scene)
    (listening : state.phase = .listening) (idle : state.session.idle = true)
    (active : state.session.cancelled = false)
    (quiet : ∀ change ∈ state.events, scene.isSource change = false) : state.Settles scene := by
  generalize reported : state.events = events at quiet
  induction events generalizing state with
  | nil => exact ⟨[], state, rfl, ⟨listening, reported, idle, active⟩, rfl⟩
  | cons change events ih =>
    rw [List.forall_mem_cons] at quiet
    obtain ⟨session, moved⟩ : ∃ session, state.session.run?
        ((state.notifier.handle scene.system (.change change)).value.passedOn.map .change)
          = some session := by
      rcases state.notifier.exists_handle_change scene.system change with ⟨after, -, same⟩
      rw [same, sound.filter]
      have other := quiet.1
      unfold Scene.isSource at other
      cases accepted : scene.filter.accepts change.path with
      | false => exact ⟨state.session, rfl⟩
      | true =>
        rw [accepted, Bool.true_and] at other
        refine ⟨state.session, ?_⟩
        rw [if_pos rfl, List.map_singleton, Session.State.run?_singleton, Session.State.move?,
          Session.Move.action?, if_neg (by simp [other])]
    have step := Step.deliver listening reported rfl moved
    have same : session = state.session := by
      rcases sound.deliver rfl moved with ⟨-, source⟩ | ⟨same, -⟩
      · rw [quiet.1] at source
        contradiction
      · exact same
    subst same
    exact .of_step step rfl (ih (step.sound sound) listening idle active rfl quiet.2)

theorem settles_of_adding {scene : Scene} {state : State} {left : List Text}
    (sound : state.Sound scene) (adding : state.phase = .adding left)
    (idle : state.session.idle = true) (active : state.session.cancelled = false)
    (quiet : ∀ change ∈ state.events, scene.isSource change = false) : state.Settles scene := by
  induction left generalizing state with
  | nil =>
    have step : Step scene state .listen _ := .listen adding
    exact .of_step step rfl (settles_of_listening (step.sound sound) rfl idle active quiet)
  | cons path left ih =>
    have step : Step scene state .add _ := .add adding
    exact .of_step step rfl (ih (step.sound sound) rfl idle active quiet)

/-- A worker that is past its start ends without another pass, if nothing is
remembered. -/
theorem exists_run?_idle {scene : Scene} {state : State} (sound : state.Sound scene)
    (settled : ¬ state.session.Owing) :
    ∃ moves session, state.run? scene moves = some { state with session } ∧
      session.idle = true ∧ session.passes = state.session.passes ∧
        session.cancelled = state.session.cancelled := by
  cases sound.orderly with
  | resting workers running pending =>
    exact ⟨[], state.session, rfl, by simp [Session.State.idle, running, pending], rfl, rfl⟩
  | working worker workers running =>
    have forgotten : state.session.pending = false := by
      rw [← Bool.not_eq_true]
      exact fun pending => settled ⟨running, .inl pending⟩
    let ended : Session.State := { state.session with workers := [.checking] }
    let rested : Session.State := { state.session with workers := [], running := false }
    have checked : ended.move? (.check 0) = some rested := by
      simp [ended, rested, Session.State.move?, Session.Move.action?, Session.State.step?, forgotten]
    have idle : rested.idle = true := by simp [rested, Session.State.idle, forgotten]
    cases worker with
    | starting => exact absurd ⟨running, .inr workers⟩ settled
    | executing =>
      have finished : state.session.move? (.finish 0 none) = some ended := by
        simp [ended, Session.State.move?, Session.Move.action?, Session.State.step?, workers]
      refine ⟨[.own (.finish 0 none), .own (.check 0)], rested, ?_, idle, rfl, rfl⟩
      exact run?_cons_eq_some_iff.mpr ⟨_, .own rfl finished,
        run?_cons_eq_some_iff.mpr ⟨_, .own rfl checked, rfl⟩⟩
    | checking =>
      have ended : state.session.move? (.check 0) = some rested := by
        simp [rested, Session.State.move?, Session.Move.action?, Session.State.step?, workers,
          forgotten]
      refine ⟨[.own (.check 0)], rested, ?_, idle, rfl, rfl⟩
      exact run?_cons_eq_some_iff.mpr ⟨_, .own rfl ended, rfl⟩

theorem settles_of_idle {scene : Scene} {state : State} {found : List Text}
    (sound : state.Sound scene) (begun : state.phase ≠ .fresh) (idle : state.session.idle = true)
    (active : state.session.cancelled = false)
    (readable : Notifier.directories scene.system scene.filter scene.root = .ok found)
    (quiet : ∀ change ∈ state.events, scene.isSource change = false) : state.Settles scene := by
  cases phase : state.phase with
  | fresh => exact absurd phase begun
  | passing =>
    have resting : state.session.running = false := by
      simpa using (Bool.and_eq_true_iff.mp idle).1
    have step : Step scene state .create _ := .create phase readable resting
    exact .of_step step rfl (settles_of_adding (step.sound sound) rfl idle active quiet)
  | adding left => exact settles_of_adding sound phase idle active quiet
  | listening => exact settles_of_listening sound phase idle active quiet

/-- A watch in which no pass is due can come to rest without one. -/
theorem settles_of_not_due {scene : Scene} {state : State} {found : List Text}
    (sound : state.Sound scene) (active : state.session.cancelled = false)
    (readable : Notifier.directories scene.system scene.filter scene.root = .ok found)
    (undue : ¬ state.Due scene) : state.Settles scene := by
  rw [Due, not_or, not_or] at undue
  rcases undue with ⟨begun, settled, unreported⟩
  have quiet : ∀ change ∈ state.events, scene.isSource change = false := by
    intro change member
    rw [← Bool.not_eq_true]
    exact fun source => unreported ⟨change, member, source⟩
  rcases exists_run?_idle sound settled with ⟨moves, session, ran, idle, same, kept⟩
  have rests := settles_of_idle (sound.run ran) begun idle (kept.trans active) readable quiet
  rcases rests with ⟨more, last, ranMore, atRest, passes⟩
  exact ⟨moves ++ more, last, (run?_append ran more).trans ranMore, atRest, passes.trans same⟩

/-- Once all directories are added, edits of accepted files below the root are
reported. -/
theorem Sound.watches_of_listening {scene : Scene} {state : State} {directory file : Text}
    (sound : state.Sound scene) (listening : state.phase = .listening)
    (named : scene.system.NamesBelow scene.root)
    (below : scene.system.HasBelow scene.root directory)
    (accepted : scene.filter.accepts (directory ++ "/" ++ file) = true) :
    state.watches directory = true := by
  rcases sound.added [] (.inr ⟨listening, rfl⟩) with ⟨found, readable, each⟩
  rcases Notifier.mem_directories_of_accepts named below accepted readable with ⟨path, member, rfl⟩
  rcases each path member with none | watched
  · contradiction
  · simpa [watches] using watched

end State

/-- An edit of a source, at any moment of a watch, is followed by a pass in every
continuation that comes to rest, exactly if its directory has been added to the notifier
by then or a pass is due anyway.  Once all directories are added, this is so for every
source below the root; before, an edit after the start of the first pass can be missed. -/
theorem edit_followed_by_pass_iff (scene : Scene) {found : List Text}
    (readable : Notifier.directories scene.system scene.filter scene.root = .ok found)
    {before : List Move} {state : State} (reached : (State.new scene).run? scene before = some state)
    (active : state.session.cancelled = false) {edit : Edit}
    (source : scene.isSource edit.change = true) :
    ((∀ after last, state.run? scene (.edit edit :: after) = some last → last.AtRest →
        state.session.passes < last.session.passes) ↔
      state.watches edit.directory = true ∨ state.Due scene)
    ∧ (state.phase = .listening → scene.system.NamesBelow scene.root →
      scene.system.HasBelow scene.root edit.directory → state.watches edit.directory = true) := by
  have sound := (State.sound_new scene).run reached
  constructor
  · constructor
    · intro followed
      by_contra missed
      rw [not_or, Bool.not_eq_true] at missed
      rcases State.settles_of_not_due sound active readable missed.2 with
        ⟨after, last, ran, rests, same⟩
      have edited := State.run?_cons_eq_some_iff.mpr ⟨state, .missed missed.1, ran⟩
      exact Nat.ne_of_gt (followed after last edited rests) same
    · intro sure after last ran rests
      rcases State.run?_cons_eq_some_iff.mp ran with ⟨next, step, ran⟩
      have nextSound := step.sound sound
      cases step with
      | reported =>
        have due : ({ state with events := state.events ++ [edit.change] } : State).Due scene :=
          .inr (.inr ⟨edit.change, by simp, source⟩)
        exact due.passes_lt nextSound ran rests
      | missed unwatched =>
        rcases sure with watched | due
        · rw [unwatched] at watched
          contradiction
        · exact due.passes_lt sound ran rests
  · intro listening named below
    exact sound.watches_of_listening listening named below (Bool.and_eq_true_iff.mp source).1

/-- One schema file in a project. -/
def sampleScene : Scene where
  system := { entries := [.directory "project" [.file "a.proto" []]] }
  root := "/project"
  filter := { patterns := ["*.proto"] }

/-- An edit of that file. -/
def sampleEdit : Edit := { directory := "/project", file := "a.proto" }

theorem sampleEdit_followed_by_pass : ∃ state,
    (State.new sampleScene).run? sampleScene [.begin, .own (.start 0), .own (.finish 0 none),
      .own (.check 0), .create, .add, .listen] = some state
    ∧ ∀ after last, state.run? sampleScene (.edit sampleEdit :: after) = some last → last.AtRest →
      state.session.passes < last.session.passes := by
  have reached : (State.new sampleScene).run? sampleScene [.begin, .own (.start 0),
      .own (.finish 0 none), .own (.check 0), .create, .add, .listen] = some _ := rfl
  have source : sampleScene.isSource sampleEdit.change = true := by decide +kernel
  have resolved : sampleScene.system.resolve sampleScene.root
      = .ok (.directory "project" [.file "a.proto" []]) := rfl
  have named : sampleScene.system.NamesBelow sampleScene.root := by
    intro tree same
    cases resolved.symm.trans same
    exact ⟨⟨by decide, by decide⟩, trivial, trivial⟩
  have below : sampleScene.system.HasBelow sampleScene.root sampleEdit.directory :=
    ⟨_, sampleScene.root, "project", [.file "a.proto" []], resolved, by simp [FileTree.visit], rfl⟩
  have both := edit_followed_by_pass_iff sampleScene rfl reached rfl source
  exact ⟨_, reached, both.1.mpr (.inl (both.2 rfl named below))⟩

/-- An edit after the start of the first pass and before the directory is added: the
watch comes to rest with no pass after it. -/
theorem edit_missed_before_adding :
    sampleScene.isSource sampleEdit.change = true
      ∧ ∃ edited last, (State.new sampleScene).run? sampleScene
          [.begin, .own (.start 0), .edit sampleEdit] = some edited
        ∧ edited.run? sampleScene [.own (.finish 0 none), .own (.check 0), .create, .add, .listen]
          = some last
        ∧ last.AtRest ∧ last.session.passes = edited.session.passes := by
  refine ⟨by decide +kernel, _, _, rfl, rfl, ?_, rfl⟩
  exact ⟨rfl, rfl, rfl, rfl⟩

end Watching

end Protoclass
