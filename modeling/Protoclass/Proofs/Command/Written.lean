import Protoclass.Command.Generate
import Protoclass.Proofs.Result

/-!
# Writing what was generated

All that can fail before a file is written is done first: a project that cannot be
resolved, found, compiled or generated leaves the disk as it was.  After that the files
are written in order, each after its directory was made, until an operation fails.  So
what was done to the disk is known from the number of files that were written, and the
command fails with the failure of the first operation that failed.
-/

namespace Protoclass

/-! ## Operations on a disk -/

namespace Disk

variable {σ : Type}

/-- An operation on a disk. -/
inductive Operation where
  | makeDirectory (path : Text)
  | writeFile (path content : Text)
  deriving DecidableEq, Repr

/-- The file that an operation writes. -/
def Operation.file? : Operation → Option OutputFile
  | .makeDirectory _ => none
  | .writeFile path content => some { path, content }

/-- Do an operation. -/
def perform (disk : Disk σ) (state : σ) : Operation → Except Text σ
  | .makeDirectory path => disk.makeDirectory path state
  | .writeFile path content => disk.writeFile path content state

/-- The same disk, with a record of the operations that succeeded, in order. -/
def recorded (disk : Disk σ) : Disk (σ × List Operation) where
  makeDirectory path before :=
    (disk.makeDirectory path before.1).map fun state => (state, before.2 ++ [.makeDirectory path])
  writeFile path content before :=
    (disk.writeFile path content before.1).map fun state =>
      (state, before.2 ++ [.writeFile path content])

section Recorded

variable {disk : Disk σ} {path content cause : Text} {before : σ × List Operation}

theorem makeDirectory_recorded_of_error
    (failed : disk.makeDirectory path before.1 = .error cause) :
    disk.recorded.makeDirectory path before = .error cause :=
  congrArg (Except.map _) failed

theorem makeDirectory_recorded_of_ok {after : σ}
    (made : disk.makeDirectory path before.1 = .ok after) :
    disk.recorded.makeDirectory path before = .ok (after, before.2 ++ [.makeDirectory path]) :=
  congrArg (Except.map _) made

theorem writeFile_recorded_of_error {state : σ} {record : List Operation}
    (failed : disk.writeFile path content state = .error cause) :
    disk.recorded.writeFile path content (state, record) = .error cause :=
  congrArg (Except.map _) failed

theorem writeFile_recorded_of_ok {state after : σ} {record : List Operation}
    (written : disk.writeFile path content state = .ok after) :
    disk.recorded.writeFile path content (state, record)
      = .ok (after, record ++ [.writeFile path content]) :=
  congrArg (Except.map _) written

end Recorded

theorem foldlM_perform_snoc {disk : Disk σ} {performed : List Operation} {operation : Operation}
    {before middle after : σ} (first : performed.foldlM disk.perform before = .ok middle)
    (last : disk.perform middle operation = .ok after) :
    (performed ++ [operation]).foldlM disk.perform before = .ok after := by
  rw [List.foldlM_append, first]
  exact (bind_pure _).trans last

end Disk

namespace Generate

open Disk (Operation)

variable {σ : Type}

/-- A file at its place below a directory. -/
def placed (out : Text) (file : OutputFile) : OutputFile :=
  { path := Path.join out file.path, content := file.content }

/-- What is done for a file: its directory is made, and it is written there. -/
def operations (out : Text) (file : OutputFile) : List Operation :=
  [.makeDirectory (Path.parent (placed out file).path),
    .writeFile (placed out file).path (placed out file).content]

/-- How the writing of files ends, on a disk that it has brought to a state: with the files
that are left, the operations that were done for the first of them, and the failure. -/
inductive Ends (disk : Disk σ) (out : Text) (state : σ) :
    List OutputFile → List Operation → Option Error → Prop where
  | complete : Ends disk out state [] [] none
  | unmade {file : OutputFile} {rest : List OutputFile} {cause : Text}
      (failed : disk.makeDirectory (Path.parent (placed out file).path) state = .error cause) :
      Ends disk out state (file :: rest) [] (some (.directory cause))
  | unwritten {file : OutputFile} {rest : List OutputFile} {cause : Text}
      (failed : disk.writeFile (placed out file).path file.content state = .error cause) :
      Ends disk out state (file :: rest) [.makeDirectory (Path.parent (placed out file).path)]
        (some (.write (placed out file).path cause))

theorem Ends.failure_eq_none_iff {disk : Disk σ} {out : Text} {state : σ}
    {left : List OutputFile} {begun : List Operation} {failure : Option Error}
    (ends : Ends disk out state left begun failure) : failure = none ↔ left = [] := by
  cases ends with
  | complete | unmade | unwritten => simp

theorem Ends.filterMap_begun {disk : Disk σ} {out : Text} {state : σ}
    {left : List OutputFile} {begun : List Operation} {failure : Option Error}
    (ends : Ends disk out state left begun failure) : begun.filterMap Operation.file? = [] := by
  cases ends with
  | complete | unmade | unwritten => rfl

theorem filterMap_operations (out : Text) (files : List OutputFile) :
    (files.flatMap (operations out)).filterMap Operation.file? = files.map (placed out) := by
  induction files with
  | nil => rfl
  | cons file rest ih =>
    rw [List.flatMap_cons, List.filterMap_append, ih]
    rfl

/-! ## Writing -/

section Write

variable {disk : Disk σ} {out : Text} {file : OutputFile} {rest : List OutputFile}
  {written : Written σ} {cause : Text} {made after : σ}

theorem value_write_of_unmade
    (failed : disk.makeDirectory (Path.parent (placed out file).path) written.state
      = .error cause) :
    (write disk out (file :: rest) written).value
      = { written with failure := some (.directory cause) } := by
  rw [placed] at failed
  rw [write, failed]
  rfl

theorem value_write_of_unwritten
    (making : disk.makeDirectory (Path.parent (placed out file).path) written.state = .ok made)
    (failed : disk.writeFile (placed out file).path file.content made = .error cause) :
    (write disk out (file :: rest) written).value
      = { written with
          state := made
          directories := written.directories ++ [Path.parent (placed out file).path]
          failure := some (.write (placed out file).path cause) } := by
  rw [placed] at making failed
  rw [write, making]
  simp only [failed]
  rfl

theorem value_write_of_written
    (making : disk.makeDirectory (Path.parent (placed out file).path) written.state = .ok made)
    (writing : disk.writeFile (placed out file).path file.content made = .ok after) :
    (write disk out (file :: rest) written).value
      = (write disk out rest
          { written with
            state := after
            directories := written.directories ++ [Path.parent (placed out file).path]
            files := written.files ++ [placed out file] }).value := by
  rw [placed] at making writing
  rw [write, making]
  simp only [writing]
  rw [Logged.value_bind]
  rfl

end Write

/-- What every operation of a disk keeps, writing keeps. -/
theorem write_keeps {disk : Disk σ} {kept : σ → Prop}
    (making : ∀ path state made, kept state → disk.makeDirectory path state = .ok made → kept made)
    (writing : ∀ path content state after, kept state →
      disk.writeFile path content state = .ok after → kept after)
    (out : Text) (files : List OutputFile) (written : Written σ) (holds : kept written.state) :
    kept (write disk out files written).value.state := by
  induction files generalizing written with
  | nil => exact holds
  | cons file rest ih =>
    cases made : disk.makeDirectory (Path.parent (placed out file).path) written.state with
    | error cause =>
      rw [value_write_of_unmade made]
      exact holds
    | ok state =>
      have holdsMade := making _ _ _ holds made
      cases wrote : disk.writeFile (placed out file).path file.content state with
      | error cause =>
        rw [value_write_of_unwritten made wrote]
        exact holdsMade
      | ok after =>
        rw [value_write_of_written made wrote]
        exact ih _ (writing _ _ _ _ holdsMade wrote)

/-- What was done, without the record of it. -/
def Written.unrecorded (written : Written (σ × List Operation)) : Written σ where
  state := written.state.1
  directories := written.directories
  files := written.files
  failure := written.failure

/-- A record changes nothing. -/
theorem value_write_unrecorded (disk : Disk σ) (out : Text) (files : List OutputFile)
    (written : Written (σ × List Operation)) :
    (write disk out files written.unrecorded).value
      = (write disk.recorded out files written).value.unrecorded := by
  induction files generalizing written with
  | nil => rfl
  | cons file rest ih =>
    cases making : disk.makeDirectory (Path.parent (placed out file).path)
        written.unrecorded.state with
    | error cause =>
      rw [value_write_of_unmade making,
        value_write_of_unmade (Disk.makeDirectory_recorded_of_error making)]
      rfl
    | ok made =>
      have recorded := Disk.makeDirectory_recorded_of_ok making
      cases writing : disk.writeFile (placed out file).path file.content made with
      | error cause =>
        rw [value_write_of_unwritten making writing,
          value_write_of_unwritten recorded (Disk.writeFile_recorded_of_error writing)]
        rfl
      | ok after =>
        rw [value_write_of_written making writing,
          value_write_of_written recorded (Disk.writeFile_recorded_of_ok writing), ← ih]
        rfl

/-- What holds while files are written on a disk with a record: the operations for the files
that are done succeeded, and no others were done. -/
structure Holds (disk : Disk σ) (out : Text) (state : σ) (done : List OutputFile)
    (written : Written (σ × List Operation)) : Prop where
  performed : written.state.2.foldlM disk.perform state = .ok written.state.1
  record : written.state.2 = done.flatMap (operations out)
  files : written.files = done.map (placed out)
  failure : written.failure = none

/-- What writing has come to: the files that are done, and how it ended. -/
structure Stopped (disk : Disk σ) (out : Text) (state : σ) (done left : List OutputFile)
    (written : Written (σ × List Operation)) : Prop where
  performed : written.state.2.foldlM disk.perform state = .ok written.state.1
  files : written.files = done.map (placed out)
  ends : ∃ begun, written.state.2 = done.flatMap (operations out) ++ begun ∧
    Ends disk out written.state.1 left begun written.failure

theorem Stopped.failure_eq_none_iff {disk : Disk σ} {out : Text} {state : σ}
    {done left : List OutputFile} {written : Written (σ × List Operation)}
    (stopped : Stopped disk out state done left written) :
    written.failure = none ↔ left = [] := by
  rcases stopped.ends with ⟨begun, -, ends⟩
  exact ends.failure_eq_none_iff

theorem Stopped.filterMap_record {disk : Disk σ} {out : Text} {state : σ}
    {done left : List OutputFile} {written : Written (σ × List Operation)}
    (stopped : Stopped disk out state done left written) :
    written.state.2.filterMap Operation.file? = done.map (placed out) := by
  rcases stopped.ends with ⟨begun, record, ends⟩
  rw [record, List.filterMap_append, ends.filterMap_begun, List.append_nil, filterMap_operations]

section Holds

variable {disk : Disk σ} {out : Text} {state made after : σ} {done : List OutputFile}
  {file : OutputFile} {rest : List OutputFile} {written : Written (σ × List Operation)}
  {cause : Text}

theorem holds_start (disk : Disk σ) (out : Text) (state : σ) :
    Holds disk out state [] { state := (state, []) } where
  performed := rfl
  record := rfl
  files := rfl
  failure := rfl

/-- A file that is written is done. -/
theorem Holds.step (holds : Holds disk out state done written)
    (making : disk.makeDirectory (Path.parent (placed out file).path) written.state.1
      = .ok made)
    (writing : disk.writeFile (placed out file).path file.content made = .ok after) :
    Holds disk out state (done ++ [file])
      { written with
        state := (after, written.state.2 ++ [.makeDirectory (Path.parent (placed out file).path)]
          ++ [.writeFile (placed out file).path file.content])
        directories := written.directories ++ [Path.parent (placed out file).path]
        files := written.files ++ [placed out file] } where
  performed := Disk.foldlM_perform_snoc (Disk.foldlM_perform_snoc holds.performed making) writing
  record := by
    rw [holds.record, List.append_assoc, List.flatMap_append]
    rfl
  files := by
    rw [holds.files, List.map_append]
    rfl
  failure := holds.failure

theorem Holds.complete (holds : Holds disk out state done written) :
    Stopped disk out state done [] written where
  performed := holds.performed
  files := holds.files
  ends := by
    refine ⟨[], holds.record.trans (List.append_nil _).symm, ?_⟩
    rw [holds.failure]
    exact .complete

theorem Holds.unmade (holds : Holds disk out state done written)
    (failed : disk.makeDirectory (Path.parent (placed out file).path) written.state.1
      = .error cause) :
    Stopped disk out state done (file :: rest)
      { written with failure := some (.directory cause) } where
  performed := holds.performed
  files := holds.files
  ends := ⟨[], holds.record.trans (List.append_nil _).symm, .unmade failed⟩

theorem Holds.unwritten (holds : Holds disk out state done written)
    (making : disk.makeDirectory (Path.parent (placed out file).path) written.state.1
      = .ok made)
    (failed : disk.writeFile (placed out file).path file.content made = .error cause) :
    Stopped disk out state done (file :: rest)
      { written with
        state :=
          (made, written.state.2 ++ [.makeDirectory (Path.parent (placed out file).path)])
        directories := written.directories ++ [Path.parent (placed out file).path]
        failure := some (.write (placed out file).path cause) } where
  performed := Disk.foldlM_perform_snoc holds.performed making
  files := holds.files
  ends := by
    refine ⟨[.makeDirectory (Path.parent (placed out file).path)], ?_, .unwritten failed⟩
    rw [holds.record]

end Holds

/-- Files are written, in order, until an operation fails. -/
theorem Holds.write {disk : Disk σ} {out : Text} {state : σ} {done : List OutputFile}
    {written : Written (σ × List Operation)} (holds : Holds disk out state done written)
    (files : List OutputFile) :
    ∃ more left, files = more ++ left ∧
      Stopped disk out state (done ++ more) left
        (Generate.write disk.recorded out files written).value := by
  induction files generalizing done written with
  | nil =>
    refine ⟨[], [], rfl, ?_⟩
    rw [List.append_nil]
    exact holds.complete
  | cons file rest ih =>
    cases making : disk.makeDirectory (Path.parent (placed out file).path) written.state.1 with
    | error cause =>
      refine ⟨[], file :: rest, rfl, ?_⟩
      rw [value_write_of_unmade (Disk.makeDirectory_recorded_of_error making), List.append_nil]
      exact holds.unmade making
    | ok made =>
      have recorded := Disk.makeDirectory_recorded_of_ok making
      cases writing : disk.writeFile (placed out file).path file.content made with
      | error cause =>
        refine ⟨[], file :: rest, rfl, ?_⟩
        rw [value_write_of_unwritten recorded (Disk.writeFile_recorded_of_error writing),
          List.append_nil]
        exact holds.unwritten making writing
      | ok after =>
        rcases ih (holds.step making writing) with ⟨more, left, rfl, stopped⟩
        refine ⟨file :: more, left, rfl, ?_⟩
        rw [value_write_of_written recorded (Disk.writeFile_recorded_of_ok writing),
          List.append_cons]
        exact stopped

/-! ## Generating -/

/-- What there is to write, and below which directory: the outcome of everything that is done
before the disk is touched. -/
def plan (yaml : Yaml.Library) (system : FileSystem) (workingDirectory : Except Text Text)
    (compiler : Compiler) (languages : Languages) (flags : Flags) :
    Except Error (Text × List OutputFile) := do
  let (project, _) ← (Project.resolve yaml system workingDirectory flags).result.mapError .project
  let settings := project.settings
  let files ← files system settings
  let descriptors ← (compiler settings.importPaths files).result.mapError .compilation
  let request : RunRequest :=
    { files := descriptors, requested := files, options := settings.options }
  let output ← (request.run languages).result.mapError .run
  return (settings.out, output)

theorem plan_eq (yaml : Yaml.Library) (system : FileSystem) (workingDirectory : Except Text Text)
    (compiler : Compiler) (languages : Languages) (flags : Flags) :
    plan yaml system workingDirectory compiler languages flags
      = (Project.resolve yaml system workingDirectory flags).result.mapError .project >>=
          fun resolved => (output system compiler languages resolved.1.settings).result.map
            fun files => (resolved.1.settings.out, files) := by
  apply bind_congr
  intro resolved
  rw [output]
  simp only [Logged.result_bind, Logged.result_lift, Logged.result_info, Result.ok_bind,
    Logged.result_mapError]
  cases files system resolved.1.settings with
  | error e => rfl
  | ok found =>
    rw [Result.ok_bind, Result.ok_bind]
    cases (compiler resolved.1.settings.importPaths found).result with
    | error e => rfl
    | ok descriptors => exact Result.bind_ok _ _

theorem value_run (yaml : Yaml.Library) (system : FileSystem) (workingDirectory : Except Text Text)
    (compiler : Compiler) (languages : Languages) (disk : Disk σ) (flags : Flags) (state : σ) :
    (run yaml system workingDirectory compiler languages disk flags state).value
      = match plan yaml system workingDirectory compiler languages flags with
        | .error e => { state, failure := some e }
        | .ok (out, files) => (write disk out files { state }).value := by
  rw [plan_eq, run, Logged.value_bind, Logged.value_attempt, Logged.result_mapError]
  cases (Project.resolve yaml system workingDirectory flags).result with
  | error e => rfl
  | ok resolved =>
    simp only [Except.mapError, Result.ok_bind, Logged.value_bind, Logged.value_attempt]
    cases (output system compiler languages resolved.1.settings).result with
    | error e => rfl
    | ok files =>
      simp only [Except.map, Logged.value_bind]
      -- The last entry of the log says whether all was written; the value does not.
      split <;> rfl

theorem value_run_unrecorded (yaml : Yaml.Library) (system : FileSystem)
    (workingDirectory : Except Text Text) (compiler : Compiler) (languages : Languages)
    (disk : Disk σ) (flags : Flags) (state : σ) :
    (run yaml system workingDirectory compiler languages disk flags state).value
      = (run yaml system workingDirectory compiler languages disk.recorded flags
          (state, [])).value.unrecorded := by
  rw [value_run, value_run]
  cases plan yaml system workingDirectory compiler languages flags with
  | error e => rfl
  | ok planned =>
    exact value_write_unrecorded disk planned.1 planned.2 { state := (state, []) }

/-- What to write is settled before the disk is touched: where that fails, nothing is done.
Otherwise the operations that succeed are, in order, those for the first of the files, each
written after its directory was made; and the command succeeds exactly if these are all the
files, and otherwise fails with the failure of the operation that comes next. -/
theorem run_writes_in_order (yaml : Yaml.Library) (system : FileSystem)
    (workingDirectory : Except Text Text) (compiler : Compiler) (languages : Languages)
    (disk : Disk σ) (flags : Flags) (state : σ) :
    let outcome :=
      (run yaml system workingDirectory compiler languages disk.recorded flags (state, [])).value
    (run yaml system workingDirectory compiler languages disk flags state).value
      = outcome.unrecorded ∧
    match plan yaml system workingDirectory compiler languages flags with
    | .error e =>
      outcome.failure = some e ∧ outcome.state = (state, []) ∧ outcome.files = []
    | .ok (out, files) =>
      outcome.state.2.foldlM disk.perform state = .ok outcome.state.1 ∧
        ∃ done left begun, files = done ++ left ∧
          outcome.state.2 = done.flatMap (operations out) ++ begun ∧
          outcome.state.2.filterMap Operation.file? = done.map (placed out) ∧
          outcome.files = done.map (placed out) ∧
          (outcome.failure = none ↔ left = []) ∧
          Ends disk out outcome.state.1 left begun outcome.failure := by
  intro outcome
  refine ⟨value_run_unrecorded yaml system workingDirectory compiler languages disk flags state, ?_⟩
  have value : outcome = _ :=
    value_run yaml system workingDirectory compiler languages disk.recorded flags (state, [])
  cases planned : plan yaml system workingDirectory compiler languages flags with
  | error e =>
    rw [planned] at value
    rw [value]
    exact ⟨rfl, rfl, rfl⟩
  | ok planning =>
    rcases planning with ⟨out, files⟩
    rw [planned] at value
    rcases (holds_start disk out state).write files with ⟨done, left, parts, stopped⟩
    rw [List.nil_append] at stopped
    rw [← show outcome = (write disk.recorded out files { state := (state, []) }).value from value]
      at stopped
    rcases stopped.ends with ⟨begun, record, ends⟩
    exact ⟨stopped.performed, done, left, begun, parts, record, stopped.filterMap_record,
      stopped.files, stopped.failure_eq_none_iff, ends⟩

end Generate

end Protoclass
