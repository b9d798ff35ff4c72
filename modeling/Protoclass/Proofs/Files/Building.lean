import Protoclass.CommandLine.Run
import Protoclass.Proofs.Command.Written
import Protoclass.Proofs.Files.Below

/-!
# Building file systems

A file system is built from an empty one by putting files and directories into it and
by the operations of its disk.  Each of these puts an entry at the place of its name, so
that the names stay in order, and takes the names from a path that starts at the root, so
that they can stand in one.  What is built this way is sound (`Built.rooted`), and the
program leaves it sound, whatever it is run for (`CommandLine.run_keeps_rooted`).
-/

namespace Protoclass

open Protoclass.Path (Proper)
open Text (slash)

/-! ## Entries -/

namespace FileTree

/-- A node that can be an entry of a directory. -/
structure IsSound (tree : FileTree) : Prop where
  proper : Proper tree.name ∧ slash ∉ tree.name
  named : tree.HasNames
  ordered : tree.Ordered

/-- Nodes that can be the entries of one directory. -/
structure AreSound (entries : List FileTree) : Prop where
  named : HaveNames entries
  ordered : AreOrdered entries

variable {entry : FileTree} {entries rest : List FileTree} {name : Text} {path : List Text}

theorem areSound_nil : AreSound [] := by
  constructor
  · rw [HaveNames]
    trivial
  · rw [AreOrdered]
    trivial

theorem areSound_cons_iff :
    AreSound (entry :: rest) ↔
      entry.IsSound ∧ (∀ other ∈ rest, entry.name < other.name) ∧ AreSound rest := by
  constructor
  · rintro ⟨named, ordered⟩
    rw [HaveNames] at named
    rw [AreOrdered] at ordered
    exact ⟨⟨named.1, named.2.1, ordered.2.1⟩, ordered.1, named.2.2, ordered.2.2⟩
  · rintro ⟨first, before, others⟩
    constructor
    · rw [HaveNames]
      exact ⟨first.proper, first.named, others.named⟩
    · rw [AreOrdered]
      exact ⟨before, first.ordered, others.ordered⟩

theorem isSound_file (proper : Proper name ∧ slash ∉ name) (content : Text) :
    (FileTree.file name content).IsSound := by
  refine ⟨proper, ?_, ?_⟩
  · rw [HasNames]
    trivial
  · rw [Ordered]
    trivial

theorem AreSound.directory (sound : AreSound entries) (proper : Proper name ∧ slash ∉ name) :
    (FileTree.directory name entries).IsSound := by
  refine ⟨proper, ?_, ?_⟩
  · rw [HasNames]
    exact sound.named
  · rw [Ordered]
    exact sound.ordered

theorem mem_putEntry {other : FileTree} (among : other ∈ putEntry entry entries) :
    other = entry ∨ other ∈ entries := by
  induction entries with
  | nil => exact .inl (List.mem_singleton.mp among)
  | cons first rest ih =>
    rw [putEntry] at among
    split_ifs at among
    · rcases List.mem_cons.mp among with same | later
      · exact .inl same
      · exact .inr (List.mem_cons_of_mem first later)
    · exact List.mem_cons.mp among
    · rcases List.mem_cons.mp among with rfl | later
      · exact .inr List.mem_cons_self
      · exact (ih later).imp_right (List.mem_cons_of_mem first)

theorem AreSound.putEntry (sound : AreSound entries) (isSound : entry.IsSound) :
    AreSound (putEntry entry entries) := by
  induction entries with
  | nil => exact areSound_cons_iff.mpr ⟨isSound, List.forall_mem_nil _, areSound_nil⟩
  | cons first rest ih =>
    rcases areSound_cons_iff.mp sound with ⟨firstSound, before, others⟩
    rw [FileTree.putEntry]
    split_ifs with same small
    · rw [same] at before
      exact areSound_cons_iff.mpr ⟨isSound, before, others⟩
    · rw [Text.le, decide_eq_true_iff, List.le_iff_lt_or_eq] at small
      have less : entry.name < first.name := small.resolve_right (Ne.symm same)
      refine areSound_cons_iff.mpr ⟨isSound, List.forall_mem_cons.mpr ⟨less, ?_⟩, sound⟩
      intro other among
      exact List.lt_trans less (before other among)
    · rw [Text.le, decide_eq_true_iff, List.not_le] at small
      refine areSound_cons_iff.mpr ⟨firstSound, ?_, ih others⟩
      intro other among
      rcases mem_putEntry among with rfl | later
      · exact small
      · exact before other later

theorem AreSound.entriesOf (sound : AreSound entries) (name : Text) :
    AreSound (entriesOf name entries) := by
  rw [FileTree.entriesOf]
  cases found : entries.find? fun entry => entry.name = name with
  | none => exact areSound_nil
  | some entry =>
    have among := List.mem_of_find?_eq_some found
    have named := (sound.named.of_mem among).2
    have ordered := (sound.ordered.of_mem among).1
    cases entry with
    | file own content => exact areSound_nil
    | directory own below =>
      rw [HasNames] at named
      rw [Ordered] at ordered
      exact ⟨named, ordered⟩

theorem AreSound.putDirectory (sound : AreSound entries)
    (proper : ∀ name ∈ path, Proper name ∧ slash ∉ name) : AreSound (putDirectory path entries) := by
  induction path generalizing entries with
  | nil => exact sound
  | cons name path ih =>
    rw [List.forall_mem_cons] at proper
    exact sound.putEntry ((ih (sound.entriesOf name) proper.2).directory proper.1)

theorem AreSound.putFile (sound : AreSound entries)
    (proper : ∀ name ∈ path, Proper name ∧ slash ∉ name) (content : Text) :
    AreSound (putFile content path entries) := by
  induction path generalizing entries with
  | nil => exact sound
  | cons name path ih =>
    rw [List.forall_mem_cons] at proper
    cases path with
    | nil => exact sound.putEntry (isSound_file proper.1 content)
    | cons next path =>
      exact sound.putEntry ((ih (sound.entriesOf name) proper.2).directory proper.1)

end FileTree

/-! ## Systems -/

namespace FileSystem

variable {system next : FileSystem} {path content : Text}

theorem sound_iff : system.Sound ↔ FileTree.AreSound system.entries := by
  constructor
  · rintro ⟨named, ordered⟩
    rw [root, FileTree.HasNames] at named
    rw [root, FileTree.Ordered] at ordered
    exact ⟨named, ordered⟩
  · rintro ⟨named, ordered⟩
    constructor
    · rw [root, FileTree.HasNames]
      exact named
    · rw [root, FileTree.Ordered]
      exact ordered

theorem Sound.putFile (sound : system.Sound) (rooted : Path.isAbsolute path = true)
    (content : Text) : (system.putFile path content).Sound :=
  sound_iff.mpr ((sound_iff.mp sound).putFile (fun _ => Path.proper_of_mem_elements rooted) content)

theorem Sound.putDirectory (sound : system.Sound) (rooted : Path.isAbsolute path = true) :
    (system.putDirectory path).Sound :=
  sound_iff.mpr ((sound_iff.mp sound).putDirectory fun _ => Path.proper_of_mem_elements rooted)

/-- A sound system whose working directory starts at the root, as then all paths do. -/
structure Rooted (system : FileSystem) : Prop where
  sound : system.Sound
  workingDirectory : Path.isAbsolute system.workingDirectory = true

namespace Rooted

theorem isAbsolute_fromRoot (rooted : system.Rooted) (path : Text) :
    Path.isAbsolute (system.fromRoot path) = true := by
  rw [fromRoot]
  split_ifs with absolute
  · exact absolute
  · have starts := rooted.workingDirectory
    rw [Path.isAbsolute, decide_eq_true_iff] at starts ⊢
    rw [List.append_assoc, List.head?_append, starts, Option.some_or]

theorem putDirectory (rooted : system.Rooted) (absolute : Path.isAbsolute path = true) :
    (system.putDirectory path).Rooted :=
  ⟨rooted.sound.putDirectory absolute, rooted.workingDirectory⟩

theorem putFile (rooted : system.Rooted) (absolute : Path.isAbsolute path = true)
    (content : Text) : (system.putFile path content).Rooted :=
  ⟨rooted.sound.putFile absolute content, rooted.workingDirectory⟩

theorem makeDirectory (rooted : system.Rooted) (made : system.makeDirectory path = .ok next) :
    next.Rooted := by
  rw [FileSystem.makeDirectory] at made
  split at made
  · contradiction
  · cases made
    exact rooted.putDirectory (rooted.isAbsolute_fromRoot path)

theorem writeFile (rooted : system.Rooted) (written : system.writeFile path content = .ok next) :
    next.Rooted := by
  have put := rooted.putFile (rooted.isAbsolute_fromRoot path) content
  rw [FileSystem.writeFile] at written
  split at written
  · contradiction
  · cases written
    exact put
  · split at written
    · cases written
      exact put
    · contradiction

end Rooted

/-- The systems that can be built. -/
inductive Built : FileSystem → Prop where
  | empty {directory : Text} (rooted : Path.isAbsolute directory = true) :
    Built { workingDirectory := directory }
  | putDirectory {system : FileSystem} {path : Text} (built : Built system)
    (absolute : Path.isAbsolute path = true) : Built (system.putDirectory path)
  | putFile {system : FileSystem} {path : Text} (built : Built system)
    (absolute : Path.isAbsolute path = true) (content : Text) :
    Built (system.putFile path content)
  | makeDirectory {system next : FileSystem} {path : Text} (built : Built system)
    (made : system.makeDirectory path = .ok next) : Built next
  | writeFile {system next : FileSystem} {path content : Text} (built : Built system)
    (written : system.writeFile path content = .ok next) : Built next

theorem Built.rooted (built : system.Built) : system.Rooted := by
  induction built with
  | empty rooted => exact ⟨sound_iff.mpr FileTree.areSound_nil, rooted⟩
  | putDirectory built absolute ih => exact ih.putDirectory absolute
  | putFile built absolute content ih => exact ih.putFile absolute content
  | makeDirectory built made ih => exact ih.makeDirectory made
  | writeFile built written ih => exact ih.writeFile written

end FileSystem

/-! ## Commands -/

theorem Generate.run_keeps_rooted (yaml : Yaml.Library) (system : FileSystem)
    (workingDirectory : Except Text Text) (compiler : Compiler) (languages : Languages)
    (flags : Flags) {state : FileSystem} (rooted : state.Rooted) :
    (run yaml system workingDirectory compiler languages FileSystem.disk flags
      state).value.state.Rooted := by
  rw [value_run]
  cases plan yaml system workingDirectory compiler languages flags with
  | error e => exact rooted
  | ok planned =>
    apply write_keeps _ _ _ _ _ rooted
    · intro path state made holds making
      exact holds.makeDirectory (Result.mapError_eq_ok_iff.mp making)
    · intro path content state after holds writing
      exact holds.writeFile (Result.mapError_eq_ok_iff.mp writing)

/-- What a first pass wrote is what the command has written once it watches. -/
theorem WatchCommand.exists_pass_of_start {yaml : Yaml.Library} {system : FileSystem}
    {pass : Flags → FileSystem → Logged Empty (Generate.Written FileSystem)} {flags : Flags}
    {written : Generate.Written FileSystem} {found : Project × Flags}
    (started : (start yaml system pass flags).result = .ok (written, found)) :
    ∃ passFlags, written = (pass passFlags system).value := by
  rw [start, Logged.result_bind] at started
  rcases Result.bind_eq_ok_iff.mp started with ⟨⟨project, next⟩, -, passed⟩
  rcases Result.map_eq_ok_iff.mp passed with ⟨_, -, same⟩
  cases same
  exact ⟨next, rfl⟩

/-- What a command that starts a project gives back is what writing the file gave. -/
theorem Init.exists_writeFile_of_run {σ : Type} {yaml : Yaml.Library}
    {workingDirectory : Except Text Text} {hasPath : Text → Bool}
    {writeFile : (path content : Text) → Except Text σ} {answers : Answers} {state : σ}
    (ran : (run yaml workingDirectory hasPath writeFile answers).result = .ok state) :
    ∃ path content, writeFile path content = .ok state := by
  rw [run, Logged.result_bind] at ran
  rcases Result.bind_eq_ok_iff.mp ran with ⟨path, -, rest⟩
  rw [Logged.result_bind] at rest
  rcases Result.bind_eq_ok_iff.mp rest with ⟨written, wrote, last⟩
  cases last
  exact ⟨path, _, Result.mapError_eq_ok_iff.mp wrote⟩

namespace CommandLine

variable {around : Surroundings} {outcome : Outcome}

theorem rooted_runGenerate (rooted : around.system.Rooted) (flags : Flags) :
    (runGenerate flags around outcome).system.Rooted :=
  Generate.run_keeps_rooted _ _ _ _ _ _ rooted

theorem rooted_runWatch (rooted : around.system.Rooted) (before : outcome.system.Rooted)
    (flags : Flags) : (runWatch flags around outcome).system.Rooted := by
  rw [runWatch]
  split
  next written found started =>
    rcases WatchCommand.exists_pass_of_start started with ⟨passFlags, rfl⟩
    exact Generate.run_keeps_rooted _ _ _ _ _ _ rooted
  next => exact before

theorem rooted_runInit (rooted : around.system.Rooted) (before : outcome.system.Rooted) :
    (runInit around outcome).system.Rooted := by
  rw [runInit]
  split
  next after written ran =>
    rw [Logged.result_bind] at ran
    rcases Result.bind_eq_ok_iff.mp ran with ⟨_, -, asked⟩
    rw [Logged.result_bind] at asked
    rcases Result.bind_eq_ok_iff.mp asked with ⟨answers, -, started⟩
    rcases Init.exists_writeFile_of_run started with ⟨path, content, wrote⟩
    rcases Result.map_eq_ok_iff.mp wrote with ⟨system, writing, same⟩
    cases same
    exact rooted.writeFile (Result.mapError_eq_ok_iff.mp writing)
  next => exact before

/-- The program leaves a sound file system sound, whatever it is run for and however far
it comes. -/
theorem run_keeps_rooted (around : Surroundings) (arguments : List Text)
    (rooted : around.system.Rooted) : (run around arguments).system.Rooted := by
  rw [run]
  split
  · exact rooted
  · exact rooted
  · exact rooted
  · split
    · exact rooted
    · split
      · exact rooted_runGenerate rooted _
      · exact rooted_runWatch rooted rooted _
      · exact rooted_runInit rooted rooted
      · rw [runPlugin]
        split <;> exact rooted

end CommandLine

end Protoclass
