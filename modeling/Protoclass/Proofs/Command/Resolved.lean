import Protoclass.Command.Project
import Protoclass.Proofs.Paths.Parents
import Protoclass.Proofs.Result

/-!
# Resolving a project again

A command that is asked for its project several times keeps the flags that the last time
left.  The first time that a project is found, the import paths of the flags are made
absolute from its root, and they stay so.  All else of a later project is what a new
command would find at that moment; its import paths are so only if its root makes the
same of those of the flags as the first root does.
-/

namespace Protoclass

namespace Path

theorem isAbsolute_absolute {root : Text} (rooted : isAbsolute root = true) (path : Text) :
    isAbsolute (absolute root path) = true := by
  have given : root ≠ [] := by
    rintro rfl
    contradiction
  rw [absolute]
  split
  next already => rw [isAbsolute_clean, already]
  next => rw [isAbsolute_join_eq given, rooted]

theorem clean_absolute {root : Text} (rooted : isAbsolute root = true) (path : Text) :
    clean (absolute root path) = absolute root path := by
  rw [absolute]
  split
  · exact clean_clean path
  · rw [join, if_neg (by rintro empty; simp_all [isAbsolute]), clean_clean]

/-- A path that was made absolute stays as it is. -/
theorem absolute_absolute {first : Text} (rooted : isAbsolute first = true) (root path : Text) :
    absolute root (absolute first path) = absolute first path := by
  rw [absolute, if_pos (isAbsolute_absolute rooted path), clean_absolute rooted]

end Path

theorem Settings.isAbsolute_of_mem_ancestors {limit : Nat} {start directory : Text}
    (rooted : Path.isAbsolute start = true) (member : directory ∈ ancestors limit start) :
    Path.isAbsolute directory = true := by
  induction limit generalizing start with
  | zero => contradiction
  | succ limit ih =>
    rw [ancestors, List.mem_cons] at member
    rcases member with rfl | member
    · exact rooted
    · split at member
      · contradiction
      · exact ih (Path.isAbsolute_parent rooted) member

theorem Settings.isAbsolute_of_find {yaml : Yaml.Library} {system : FileSystem}
    {start root : Text} {settings : Settings} (rooted : Path.isAbsolute start = true)
    (found : find yaml system start = .ok (settings, root)) : Path.isAbsolute root = true := by
  unfold find at found
  split at found
  next => contradiction
  next home located =>
    rcases Result.map_eq_ok_iff.mp found with ⟨loaded, -, same⟩
    cases same
    exact isAbsolute_of_mem_ancestors rooted (List.mem_of_find?_eq_some located)

/-- The flags with their import paths absolute. -/
def Flags.rootedAt (root : Text) (flags : Flags) : Flags :=
  { flags with importPaths := flags.importPaths.map (Path.absolute root) }

namespace Project

/-- What a command finds around it when it resolves its project.  The working directory starts
at the root, wherever it is asked for. -/
structure Moment where
  system : FileSystem
  workingDirectory : Except Text Text
  rooted : Path.isAbsolute system.workingDirectory = true
  known : ∀ directory, workingDirectory = .ok directory → Path.isAbsolute directory = true

/-- What a command with some flags finds: a project, and the flags for the next time. -/
def resolveAt (yaml : Yaml.Library) (flags : Flags) (moment : Moment) :
    Except Error (Project × Flags) :=
  (resolve yaml moment.system moment.workingDirectory flags).result

/-- What a new command finds. -/
def fresh (yaml : Yaml.Library) (flags : Flags) (moment : Moment) : Except Error Project :=
  Prod.fst <$> resolveAt yaml flags moment

/-- What one command finds at one moment after the other. -/
def resolveEach (yaml : Yaml.Library) (flags : Flags) : List Moment → List (Except Error Project)
  | [] => []
  | moment :: later =>
    match resolveAt yaml flags moment with
    | .error e => .error e :: resolveEach yaml flags later
    | .ok (project, next) => .ok project :: resolveEach yaml next later

/-- The root of the first project that a command finds; empty if it finds none. -/
def firstRoot (yaml : Yaml.Library) (flags : Flags) : List Moment → Text
  | [] => []
  | moment :: later =>
    match fresh yaml flags moment with
    | .error _ => firstRoot yaml flags later
    | .ok project => project.root

/-- A project with the import paths of the flags, where they have some, from another root. -/
def importsFrom (flags : Flags) (first : Text) (project : Project) : Project :=
  { project with
    settings := { project.settings with
      importPaths := Settings.orElse (flags.importPaths.map (Path.absolute first))
        project.settings.importPaths } }

/-! ## One time -/

variable {yaml : Yaml.Library} {flags : Flags} {moment : Moment}

/-- The settings and the root that a command starts from. -/
def located (yaml : Yaml.Library) (flags : Flags) (moment : Moment) :
    Except Error (Settings × Text) :=
  (locate yaml moment.system moment.workingDirectory flags).result

/-- The project that flags make of settings and a root. -/
def ofLocated (flags : Flags) (found : Settings × Text) : Project :=
  { root := found.2, settings := (flags.apply found.1).rootedAt found.2 }

theorem resolveAt_eq (yaml : Yaml.Library) (flags : Flags) (moment : Moment) :
    resolveAt yaml flags moment =
      (fun found => (ofLocated flags found, flags.rootedAt found.2))
        <$> located yaml flags moment := by
  rw [resolveAt, resolve, Logged.result_bind]
  exact Result.bind_ok _ _

theorem fresh_eq (yaml : Yaml.Library) (flags : Flags) (moment : Moment) :
    fresh yaml flags moment = ofLocated flags <$> located yaml flags moment := by
  rw [fresh, resolveAt_eq]
  cases located yaml flags moment <;> rfl

theorem isAbsolute_of_located {found : Settings × Text}
    (success : located yaml flags moment = .ok found) : Path.isAbsolute found.2 = true := by
  unfold located locate at success
  split at success
  · rw [Logged.result_bind] at success
    rcases Result.bind_eq_ok_iff.mp success with ⟨settings, -, same⟩
    cases same
    exact Path.isAbsolute_absolute moment.rooted _
  · split at success
    next found searched =>
      cases success
      exact Settings.isAbsolute_of_find moment.rooted searched
    next =>
      rw [Logged.result_bind, Logged.result_debug, Result.ok_bind, Logged.result_bind,
        Logged.result_lift] at success
      rcases Result.bind_eq_ok_iff.mp success with ⟨root, given, same⟩
      cases same
      exact moment.known root (Result.mapError_eq_ok_iff.mp given)
    next => contradiction

/-! ## Import paths from another root -/

/-- With import paths from one root, flags ask for these whatever the root. -/
theorem ofLocated_rootedAt {first : Text} (rooted : Path.isAbsolute first = true)
    (found : Settings × Text) :
    ofLocated (flags.rootedAt first) found = importsFrom flags first (ofLocated flags found) := by
  have kept : (flags.importPaths.map (Path.absolute first)).map (Path.absolute found.2)
      = flags.importPaths.map (Path.absolute first) := by
    rw [List.map_map]
    exact List.map_congr_left fun path _ => Path.absolute_absolute rooted found.2 path
  by_cases none : flags.importPaths = []
  · simp [ofLocated, importsFrom, Flags.apply, Flags.rootedAt, Settings.rootedAt, Settings.orElse,
      none]
  · simp [ofLocated, importsFrom, Flags.apply, Flags.rootedAt, Settings.rootedAt, Settings.orElse,
      none, kept]

/-- Another root makes no difference if it makes the same of the import paths of the flags. -/
theorem importsFrom_ofLocated_iff {first : Text} (found : Settings × Text) :
    importsFrom flags first (ofLocated flags found) = ofLocated flags found ↔
      flags.importPaths.map (Path.absolute first)
        = flags.importPaths.map (Path.absolute found.2) := by
  by_cases none : flags.importPaths = []
  · simp [ofLocated, importsFrom, Flags.apply, Settings.rootedAt, Settings.orElse, none]
  · simp [ofLocated, importsFrom, Flags.apply, Settings.rootedAt, Settings.orElse, none]

/-! ## One time after the other -/

/-- Once the import paths of the flags are absolute, the flags stay as they are. -/
theorem resolveEach_rootedAt {first : Text} (rooted : Path.isAbsolute first = true)
    (moments : List Moment) :
    resolveEach yaml (flags.rootedAt first) moments
      = moments.map fun moment => importsFrom flags first <$> fresh yaml flags moment := by
  induction moments with
  | nil => rfl
  | cons moment later ih =>
    have same : located yaml (flags.rootedAt first) moment = located yaml flags moment := rfl
    have settled (root : Text) : (flags.rootedAt first).rootedAt root = flags.rootedAt first := by
      simp [Flags.rootedAt, Path.absolute_absolute rooted]
    rw [resolveEach, resolveAt_eq, same, List.map_cons, fresh_eq]
    cases located yaml flags moment with
    | error e => exact congrArg (_ :: ·) ih
    | ok found =>
      show .ok (ofLocated (flags.rootedAt first) found)
        :: resolveEach yaml ((flags.rootedAt first).rootedAt found.2) later = _
      rw [settled, ih, ofLocated_rootedAt rooted]
      rfl

/-- One command finds what new ones would, but for the import paths of the flags: they are
those from the first root. -/
theorem resolveEach_eq (yaml : Yaml.Library) (flags : Flags) (moments : List Moment) :
    resolveEach yaml flags moments
      = moments.map fun moment =>
          importsFrom flags (firstRoot yaml flags moments) <$> fresh yaml flags moment := by
  induction moments with
  | nil => rfl
  | cons moment later ih =>
    rw [resolveEach, firstRoot, resolveAt_eq, List.map_cons, fresh_eq]
    cases success : located yaml flags moment with
    | error e => exact congrArg (_ :: ·) ih
    | ok found =>
      have own : importsFrom flags found.2 (ofLocated flags found) = ofLocated flags found :=
        (importsFrom_ofLocated_iff found).mpr rfl
      show .ok (ofLocated flags found) :: resolveEach yaml (flags.rootedAt found.2) later
        = .ok (importsFrom flags found.2 (ofLocated flags found)) :: _
      rw [resolveEach_rootedAt (isAbsolute_of_located success), own]
      rfl

/-- One command finds what new ones would, but for the import paths of the flags, which are
those from the first root.  So it finds the same exactly if each root makes the same of
them as the first one. -/
theorem resolveEach_agrees_iff (yaml : Yaml.Library) (flags : Flags) (moments : List Moment) :
    resolveEach yaml flags moments
        = moments.map (fun moment =>
            importsFrom flags (firstRoot yaml flags moments) <$> fresh yaml flags moment) ∧
      (resolveEach yaml flags moments = moments.map (fresh yaml flags) ↔
        ∀ moment ∈ moments, ∀ project, fresh yaml flags moment = .ok project →
          flags.importPaths.map (Path.absolute (firstRoot yaml flags moments))
            = flags.importPaths.map (Path.absolute project.root)) := by
  refine ⟨resolveEach_eq yaml flags moments, ?_⟩
  rw [resolveEach_eq, List.map_inj_left]
  apply forall₂_congr
  intro moment _
  rw [fresh_eq]
  cases located yaml flags moment with
  | error e =>
    constructor
    · intro _ project found
      contradiction
    · intro _
      rfl
  | ok found =>
    show Except.ok _ = Except.ok _ ↔ _
    rw [Except.ok.injEq, importsFrom_ofLocated_iff]
    constructor
    · rintro same _ ⟨⟩
      exact same
    · intro same
      exact same _ rfl

/-- A project whose directory gets settings of its own. -/
def movedRoot : List Moment :=
  let outer : FileTree := .file Settings.fileName ""
  let before : FileSystem :=
    { entries := [.directory "work" [.directory "inner" [], outer]]
      workingDirectory := "/work/inner" }
  let after : FileSystem :=
    { entries := [.directory "work" [.directory "inner" [.file Settings.fileName ""], outer]]
      workingDirectory := "/work/inner" }
  [⟨before, .ok "/work/inner", by decide, by rintro _ ⟨⟩; decide⟩,
    ⟨after, .ok "/work/inner", by decide, by rintro _ ⟨⟩; decide⟩]

theorem resolveEach_of_movedRoot :
    resolveEach .standard { importPaths := ["proto"] } movedRoot
      ≠ movedRoot.map (fresh .standard { importPaths := ["proto"] }) := by
  intro same
  have paths := congrArg
    (List.map fun result => (result.map fun project => project.settings.importPaths).toOption) same
  revert paths
  decide

/-- Import paths that start at the root of the file system are the same from every directory. -/
theorem resolveEach_of_absolute_imports :
    resolveEach .standard { importPaths := ["/proto"] } movedRoot
      = movedRoot.map (fresh .standard { importPaths := ["/proto"] }) := by
  apply (resolveEach_agrees_iff .standard { importPaths := ["/proto"] } movedRoot).2.mpr
  intro moment _ project _
  rfl

end Project

end Protoclass
