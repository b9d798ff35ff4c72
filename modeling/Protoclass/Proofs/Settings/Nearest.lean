import Mathlib.Data.Nat.Find
import Protoclass.Proofs.Files.Following
import Protoclass.Settings

/-!
# The nearest settings

The settings that apply in a directory are looked for in it and then in its parents, one
above the other.  The limit of the search is never met, since the parents come to a
highest one before.  What is found are the settings of the nearest of these directories
that holds a file for them: whatever is wrong with that file, those above are not looked
at.
-/

namespace Protoclass.Settings

/-- A file for settings, of whatever content, is where a directory would hold it. -/
def HeldBy (system : FileSystem) (directory : Text) : Prop :=
  system.hasPath (Path.join directory fileName) = true

instance (system : FileSystem) (directory : Text) : Decidable (HeldBy system directory) :=
  inferInstanceAs (Decidable (_ = _))

/-! ## The search -/

section Search

variable {holds : Text → Bool} {limit : Nat} {start : Text}

/-- If the parents come to an end within the limit, so they do from the first parent on, with
one step less. -/
theorem ends_parent (higher : Path.parent start ≠ start)
    (ends : ∃ count < limit + 1,
      Path.parent (Path.parent^[count] start) = Path.parent^[count] start) :
    ∃ count < limit, Path.parent (Path.parent^[count] (Path.parent start))
      = Path.parent^[count] (Path.parent start) := by
  rcases ends with ⟨count, small, highest⟩
  cases count with
  | zero => contradiction
  | succ count => exact ⟨count, Nat.lt_of_succ_lt_succ small, highest⟩

/-- Within the limit, the search stops at the first of all parents that it is made for. -/
theorem find?_ancestors_of_first
    (ends : ∃ count < limit, Path.parent (Path.parent^[count] start) = Path.parent^[count] start)
    {k : Nat} (held : holds (Path.parent^[k] start) = true)
    (nearer : ∀ j < k, holds (Path.parent^[j] start) = false) :
    (ancestors limit start).find? holds = some (Path.parent^[k] start) := by
  induction limit generalizing start k with
  | zero =>
    rcases ends with ⟨count, none, -⟩
    contradiction
  | succ limit ih =>
    rw [ancestors]
    cases k with
    | zero => exact List.find?_cons_of_pos held
    | succ k =>
      have first : holds start = false := nearer 0 (Nat.succ_pos k)
      have higher : Path.parent start ≠ start := by
        intro highest
        rw [Function.iterate_fixed highest, first] at held
        contradiction
      rw [List.find?_cons_of_neg (by simpa using first), if_neg higher]
      exact ih (ends_parent higher ends) held fun j small => nearer (j + 1) (Nat.succ_lt_succ small)

/-- Within the limit, the search finds nothing only if there is nothing to find. -/
theorem find?_ancestors_eq_none_iff
    (ends : ∃ count < limit, Path.parent (Path.parent^[count] start) = Path.parent^[count] start) :
    (ancestors limit start).find? holds = none ↔ ∀ k, holds (Path.parent^[k] start) = false := by
  constructor
  · intro nothing k
    by_contra some
    have held : ∃ k, holds (Path.parent^[k] start) = true := ⟨k, by simpa using some⟩
    have nearer : ∀ j < Nat.find held, holds (Path.parent^[j] start) = false :=
      fun j small => by simpa using Nat.find_min held small
    rw [find?_ancestors_of_first ends (Nat.find_spec held) nearer] at nothing
    contradiction
  · intro nothing
    clear ends
    induction limit generalizing start with
    | zero => rfl
    | succ limit ih =>
      have first : holds start = false := nothing 0
      rw [ancestors, List.find?_cons_of_neg (by simpa using first)]
      split
      · rfl
      · exact ih fun k => nothing (k + 1)

end Search

/-! ## What is found -/

variable {yaml : Yaml.Library} {system : FileSystem} {start : Text}

theorem ends_within (start : Text) :
    ∃ count < start.length + 2,
      Path.parent (Path.parent^[count] start) = Path.parent^[count] start := by
  rcases Path.exists_highest start with ⟨count, few, highest⟩
  exact ⟨count, Nat.lt_succ_of_le few, highest⟩

theorem find_of_nearest {k : Nat} (held : HeldBy system (Path.parent^[k] start))
    (nearer : ∀ j < k, ¬HeldBy system (Path.parent^[j] start)) :
    find yaml system start = (load yaml system (Path.join (Path.parent^[k] start) fileName)).map
      fun settings => (settings, Path.parent^[k] start) := by
  have found : home? system start = some (Path.parent^[k] start) :=
    find?_ancestors_of_first (ends_within start) held
      fun j small => Bool.eq_false_iff.mpr (nearer j small)
  rw [find, found]

theorem home?_eq_none_iff :
    home? system start = none ↔ ∀ k, ¬HeldBy system (Path.parent^[k] start) := by
  rw [home?, find?_ancestors_eq_none_iff (ends_within start)]
  simp only [HeldBy, Bool.not_eq_true]

theorem load_ne_notFound (path directory : Text) :
    load yaml system path ≠ .error (.notFound directory) := by
  unfold load
  split
  · simp
  · split <;> simp

/-- Nothing is found exactly if none of the parents holds a file. -/
theorem find_eq_notFound_iff (directory : Text) :
    find yaml system start = .error (.notFound directory) ↔
      directory = start ∧ ∀ k, ¬HeldBy system (Path.parent^[k] start) := by
  rw [← home?_eq_none_iff, find]
  cases home? system start with
  | none => simp [eq_comm]
  | some home =>
    cases loaded : load yaml system (Path.join home fileName) with
    | ok settings => simp [Except.map, loaded]
    | error cause =>
      have other : cause ≠ .notFound directory := by
        rintro rfl
        exact load_ne_notFound _ _ loaded
      simp [Except.map, loaded, other]

/-- The directories above the nearest one that holds a file do not count. -/
theorem find_congr {other : FileSystem} {k : Nat} (held : HeldBy system (Path.parent^[k] start))
    (nearer : ∀ j < k, ¬HeldBy system (Path.parent^[j] start))
    (same : ∀ j ≤ k, other.resolve (Path.join (Path.parent^[j] start) fileName)
      = system.resolve (Path.join (Path.parent^[j] start) fileName)) :
    find yaml other start = find yaml system start := by
  have alike : ∀ j ≤ k, HeldBy other (Path.parent^[j] start)
      ↔ HeldBy system (Path.parent^[j] start) := by
    intro j near
    rw [HeldBy, HeldBy, FileSystem.hasPath, FileSystem.hasPath, same j near]
  have held' : HeldBy other (Path.parent^[k] start) := (alike k (Nat.le_refl k)).mpr held
  have nearer' : ∀ j < k, ¬HeldBy other (Path.parent^[j] start) :=
    fun j small => mt (alike j (Nat.le_of_lt small)).mp (nearer j small)
  rw [find_of_nearest held nearer, find_of_nearest held' nearer', load, load, FileSystem.readFile,
    FileSystem.readFile, same k (Nat.le_refl k)]

/-! ## Directories that are there -/

/-- A directory that is there holds what is among its entries. -/
theorem heldBy_iff {directory own : Text} {entries : List FileTree}
    (resolved : system.resolve directory = .ok (.directory own entries)) :
    HeldBy system directory ↔ ∃ entry ∈ entries, entry.name = fileName := by
  rw [HeldBy, FileSystem.hasPath, FileSystem.resolve_join_name resolved (by decide) (by decide)]
  cases found : entries.find? fun entry => entry.name = fileName with
  | none => simpa using found
  | some entry =>
    have named : entry.name = fileName := by simpa using List.find?_some found
    simpa using ⟨entry, List.mem_of_find?_eq_some found, named⟩

/-- Above a directory that is there, all are there. -/
theorem exists_resolve_iterate (there : system.hasDirectory start = true) (k : Nat) :
    ∃ own entries, system.resolve (Path.parent^[k] start) = .ok (.directory own entries) := by
  induction k with
  | zero => exact FileSystem.hasDirectory_iff.mp there
  | succ k ih =>
    rcases ih with ⟨own, entries, resolved⟩
    rw [Function.iterate_succ_apply']
    exact FileSystem.exists_resolve_parent resolved

/-- The settings that apply in a directory are those of the nearest one, among it and its
parents, that holds a file for them, and nothing farther counts.  There are finitely many
parents, and none are found exactly if no parent holds a file.  Where the directory is
there, a parent holds the file if it is one of its entries. -/
theorem find_takes_nearest (yaml : Yaml.Library) (system : FileSystem) (start : Text) :
    (∃ count ≤ start.length + 1,
      Path.parent (Path.parent^[count] start) = Path.parent^[count] start) ∧
    (∀ k, HeldBy system (Path.parent^[k] start) →
      (∀ j < k, ¬HeldBy system (Path.parent^[j] start)) →
      find yaml system start = (load yaml system (Path.join (Path.parent^[k] start) fileName)).map
          (fun settings => (settings, Path.parent^[k] start)) ∧
        ∀ other : FileSystem,
          (∀ j ≤ k, other.resolve (Path.join (Path.parent^[j] start) fileName)
            = system.resolve (Path.join (Path.parent^[j] start) fileName)) →
          find yaml other start = find yaml system start) ∧
    (∀ directory, find yaml system start = .error (.notFound directory) ↔
      directory = start ∧ ∀ k, ¬HeldBy system (Path.parent^[k] start)) ∧
    (system.hasDirectory start = true → ∀ k, ∃ own entries,
      system.resolve (Path.parent^[k] start) = .ok (.directory own entries) ∧
        (HeldBy system (Path.parent^[k] start) ↔ ∃ entry ∈ entries, entry.name = fileName)) := by
  refine ⟨Path.exists_highest start, ?_, find_eq_notFound_iff, ?_⟩
  · intro k held nearer
    exact ⟨find_of_nearest held nearer, fun other => find_congr held nearer⟩
  · intro there k
    rcases exists_resolve_iterate there k with ⟨own, entries, resolved⟩
    exact ⟨own, entries, resolved, heldBy_iff resolved⟩

/-- A project inside another one. -/
def nestedProjects : FileSystem where
  entries :=
    [.directory "work" [.directory "inner" [.directory "src" [], .file fileName "out: ./gen"],
      .file fileName "out: ["]]

theorem find_takes_nearest_of_nested :
    find .standard nestedProjects "/work/inner//src/" =
        (load .standard nestedProjects "/work/inner/tracgen.yaml").map
          (fun settings => (settings, Text.ofString "/work/inner")) ∧
      ∃ own entries, nestedProjects.resolve "/work" = .ok (.directory own entries) ∧
        (HeldBy nestedProjects "/work" ↔ ∃ entry ∈ entries, entry.name = fileName) := by
  rcases find_takes_nearest .standard nestedProjects "/work/inner//src/" with ⟨-, nearest, -, there⟩
  constructor
  · exact (nearest 2 (by decide) (by decide)).1
  · exact there (by decide) 3

end Protoclass.Settings
