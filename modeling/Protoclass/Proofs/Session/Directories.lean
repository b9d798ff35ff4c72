import Protoclass.Proofs.Paths.Cleaning
import Protoclass.Proofs.Result
import Protoclass.Watch.Notifier

/-!
# The directories that are watched

Adding a directory to a notifier adds the directories below it that are not
excluded.  A file whose path the filter accepts never lies in an excluded
directory, so wherever it lies below the directory that was added, its own
directory is among those that are watched.
-/

namespace Protoclass

open Protoclass.Path (Proper)
open Text (slash)

namespace FileTree

mutual

/-- The entries below a node have names that can stand in a path. -/
def HasNames : FileTree → Prop
  | .file _ _ => True
  | .directory _ entries => HaveNames entries

/-- Entries, and those below them, have names that can stand in a path. -/
def HaveNames : List FileTree → Prop
  | [] => True
  | entry :: rest => (Proper entry.name ∧ slash ∉ entry.name) ∧ entry.HasNames ∧ HaveNames rest

end

section Visits

variable {skip : FileTree → Bool} {excluded : Text → Bool}

mutual

/-- A visit that skips some names comes to each node that is reached without
them. -/
theorem mem_visit_of_names (skips : ∀ tree, skip tree = excluded tree.name) :
    (tree : FileTree) → (start : Text) → tree.HasNames → start ≠ [] →
    ∀ visited ∈ tree.visit (fun _ => false) start, ∃ through,
      Path.elements visited.1 = Path.elements start ++ through ∧
        ((∀ name ∈ through, excluded name = false) → visited ∈ tree.visit skip start)
  | .file name content, start, _, _, visited, member => by
    rw [visit, List.mem_singleton] at member
    subst member
    exact ⟨[], by simp, fun _ => by simp [visit]⟩
  | .directory name entries, start, named, given, visited, member => by
    rw [visit, List.mem_cons] at member
    rw [HasNames] at named
    rcases member with rfl | member
    · exact ⟨[], by simp, fun _ => by simp [visit]⟩
    · rcases mem_visitEntries_of_names skips entries start named given visited member with
        ⟨through, same, reached⟩
      refine ⟨through, same, fun allowed => ?_⟩
      rw [visit]
      exact List.mem_cons_of_mem _ (reached allowed)

theorem mem_visitEntries_of_names (skips : ∀ tree, skip tree = excluded tree.name) :
    (entries : List FileTree) → (start : Text) → HaveNames entries → start ≠ [] →
    ∀ visited ∈ visitEntries (fun _ => false) start entries, ∃ through,
      Path.elements visited.1 = Path.elements start ++ through ∧
        ((∀ name ∈ through, excluded name = false) → visited ∈ visitEntries skip start entries)
  | [], _, _, _, visited, member => by
    rw [visitEntries] at member
    contradiction
  | entry :: rest, start, named, given, visited, member => by
    rw [HaveNames] at named
    rcases named with ⟨⟨proper, undivided⟩, below, others⟩
    rw [visitEntries, if_neg Bool.false_ne_true, List.mem_append] at member
    rcases member with member | member
    · rcases mem_visit_of_names skips entry (Path.join start entry.name) below
        (Path.join_ne_nil given _) visited member with ⟨through, same, reached⟩
      refine ⟨entry.name :: through, ?_, fun allowed => ?_⟩
      · rw [same, Path.elements_join_name given proper undivided, List.append_assoc,
          List.singleton_append]
      · rw [List.forall_mem_cons] at allowed
        rw [visitEntries, skips, allowed.1, if_neg Bool.false_ne_true]
        exact List.mem_append_left _ (reached allowed.2)
    · rcases mem_visitEntries_of_names skips rest start others given visited member with
        ⟨through, same, reached⟩
      refine ⟨through, same, fun allowed => ?_⟩
      rw [visitEntries]
      exact List.mem_append_right _ (reached allowed)

end

end Visits

end FileTree

theorem WatchFilter.not_excluded_of_accepts {filter : WatchFilter} {path element : Text}
    (accepted : filter.accepts path = true) (member : element ∈ path.splitOn slash)
    (given : element ≠ []) : isExcluded filter.exclude element = false := by
  rw [WatchFilter.accepts, Bool.and_eq_true, Bool.not_eq_true', List.any_eq_false] at accepted
  simpa [given] using accepted.1 element member

namespace FileSystem

/-- A directory below another one, by its cleaned path. -/
def HasBelow (system : FileSystem) (root directory : Text) : Prop :=
  ∃ tree path name entries, system.resolve root = .ok tree ∧
    (path, FileTree.directory name entries) ∈ tree.visit (fun _ => false) root ∧
      directory = Path.clean path

/-- What lies below a directory has names that can stand in a path. -/
def NamesBelow (system : FileSystem) (root : Text) : Prop :=
  ∀ tree, system.resolve root = .ok tree → tree.HasNames

end FileSystem

theorem Logged.value_eq_of_result {α : Type} {x : Logged Empty α} {a : α}
    (result : x.result = .ok a) : x.value = a := by
  unfold Logged.value
  split
  next b same => exact Except.ok.inj (same.symm.trans result)

/-! ## Notifiers -/

namespace Notifier

variable (notifier : Notifier) (system : FileSystem)

theorem filter_watch (path : Text) : (notifier.watch path).filter = notifier.filter := by
  unfold watch
  split <;> rfl

theorem filter_foldl_watch (paths : List Text) :
    (paths.foldl watch notifier).filter = notifier.filter := by
  induction paths generalizing notifier with
  | nil => rfl
  | cons path paths ih => rw [List.foldl_cons, ih, filter_watch]

theorem mem_watched_watch {path directory : Text} :
    directory ∈ (notifier.watch path).watched ↔
      directory ∈ notifier.watched ∨ directory = Path.clean path := by
  unfold watch
  split
  next already =>
    have present : Path.clean path ∈ notifier.watched := by simpa using already
    constructor
    · exact .inl
    · rintro (member | rfl)
      · exact member
      · exact present
  next => simp

theorem watched_subset_foldl_watch (paths : List Text) :
    notifier.watched ⊆ (paths.foldl watch notifier).watched := by
  induction paths generalizing notifier with
  | nil => exact List.Subset.refl _
  | cons path paths ih =>
    intro directory member
    exact ih (notifier.watch path) (notifier.mem_watched_watch.mpr (.inl member))

theorem result_foldlM_debug (message : Text) (fields : Text → List (Text × Log.Value))
    (paths : List Text) :
    (paths.foldlM (fun _ path => Logged.debug message (fields path)) PUnit.unit :
      Logged SystemError PUnit).result = .ok PUnit.unit := by
  induction paths with
  | nil => rfl
  | cons path paths ih =>
    rw [List.foldlM_cons, Logged.result_bind, Logged.result_debug, Result.ok_bind]
    exact ih

theorem result_addDirectory (path : Text) :
    (notifier.addDirectory system path).result =
      (directories system notifier.filter path).map fun paths => paths.foldl watch notifier := by
  unfold addDirectory
  rw [Logged.result_bind, Logged.result_lift]
  cases directories system notifier.filter path with
  | error cause => rfl
  | ok paths => simp [result_foldlM_debug, Except.map]

theorem extends_of_addDirectory {path : Text} {added : Notifier}
    (result : (notifier.addDirectory system path).result = .ok added) :
    added.filter = notifier.filter ∧ notifier.watched ⊆ added.watched := by
  rw [result_addDirectory] at result
  rcases Result.map_eq_ok_iff.mp result with ⟨paths, -, rfl⟩
  exact ⟨filter_foldl_watch notifier paths, watched_subset_foldl_watch notifier paths⟩

/-- A change is passed on if the filter accepts its path.  The filter stays, and what is
watched stays watched. -/
theorem exists_handle_change (change : Change) :
    ∃ after : Notifier, (after.filter = notifier.filter ∧ notifier.watched ⊆ after.watched) ∧
      (notifier.handle system (.change change)).value =
        { notifier := after
          passedOn := if notifier.filter.accepts change.path then [change] else [] } := by
  by_cases creates : change.bits.has ChangeBits.create && system.hasDirectory change.path
  · cases result : (notifier.addDirectory system change.path).result with
    | ok added =>
      refine ⟨added, extends_of_addDirectory notifier system result, ?_⟩
      apply Logged.value_eq_of_result
      simp only [handle, if_pos creates, Logged.result_bind, Logged.result_attempt, result,
        Result.ok_bind, Logged.result_pure]
    | error cause =>
      refine ⟨notifier, ⟨rfl, List.Subset.refl _⟩, ?_⟩
      apply Logged.value_eq_of_result
      simp only [handle, if_pos creates, Logged.result_bind, Logged.result_attempt, result,
        Result.ok_bind, Logged.result_warn, Logged.result_pure]
  · refine ⟨notifier, ⟨rfl, List.Subset.refl _⟩, ?_⟩
    simp only [handle, if_neg creates]
    rfl

end Notifier

/-- A directory below the one that is added is watched, if it holds a file that the
filter accepts. -/
theorem Notifier.mem_directories_of_accepts {system : FileSystem} {filter : WatchFilter}
    {root directory file : Text} {found : List Text} (named : system.NamesBelow root)
    (below : system.HasBelow root directory)
    (accepted : filter.accepts (directory ++ "/" ++ file) = true)
    (added : Notifier.directories system filter root = .ok found) :
    ∃ path ∈ found, directory = Path.clean path := by
  rcases below with ⟨tree, path, name, entries, resolved, member, rfl⟩
  have given : root ≠ [] := by
    rintro rfl
    simp [FileSystem.resolve] at resolved
  have skips : ∀ tree : FileTree, isExcluded filter.exclude tree.name
      = isExcluded filter.exclude tree.name := fun _ => rfl
  rcases FileTree.mem_visit_of_names skips tree root (named tree resolved) given _ member with
    ⟨through, same, reached⟩
  have allowed : ∀ name ∈ through, isExcluded filter.exclude name = false := by
    intro name among
    have element : name ∈ Path.elements path := by
      rw [same]
      exact List.mem_append_right _ among
    apply WatchFilter.not_excluded_of_accepts accepted
    · rw [List.append_assoc, Text.ofString_slash, List.singleton_append, Text.splitOn_append_cons]
      exact List.mem_append_left _ (Path.mem_splitOn_clean element)
    · exact (Path.ne_nil_of_mem_elements element).1
  have visited := reached allowed
  simp only [Notifier.directories, FileSystem.visit, resolved] at added
  cases added
  exact ⟨path, List.mem_filterMap.mpr ⟨_, visited, rfl⟩, rfl⟩

end Protoclass
