import Protoclass.Proofs.Files.Walk
import Protoclass.Proofs.Paths.Parents

/-!
# Following a path

A path is followed one element at a time, from a place to the next: a place is a node
with the directories above it.  Where a path leads anywhere, the cleaned path leads to
the same place, since each way up undoes the name before it.  So a name joined to the
path of a directory leads to the entry of that name, however the path is written.
-/

namespace Protoclass

open Protoclass.Path (Proper)
open Text (slash)

namespace FileTree

/-- A node, and the directories above it, nearest first. -/
abbrev Standpoint := FileTree × List FileTree

/-- Where one element of a path leads. -/
def step : Standpoint → Text → Except Cause Standpoint
  | (.file _ _, _), _ => .error .notDirectory
  | (.directory name entries, above), element =>
    if element = [] ∨ element = "." then .ok (.directory name entries, above)
    else if element = ".." then
      match above with
      | [] => .ok (.directory name entries, [])
      | parent :: more => .ok (parent, more)
    else
      match entries.find? fun entry => entry.name = element with
      | some entry => .ok (entry, .directory name entries :: above)
      | none => .error .notFound

theorem step_directory (name : Text) (entries above : List FileTree) (element : Text) :
    step (.directory name entries, above) element =
      if element = [] ∨ element = "." then .ok (.directory name entries, above)
      else if element = ".." then
        match above with
        | [] => .ok (.directory name entries, [])
        | parent :: more => .ok (parent, more)
      else
        match entries.find? fun entry => entry.name = element with
        | some entry => .ok (entry, .directory name entries :: above)
        | none => .error .notFound := rfl

theorem follow_eq_foldlM (elements : List Text) (here : FileTree) (above : List FileTree) :
    follow here above elements = Prod.fst <$> elements.foldlM step (here, above) := by
  induction elements generalizing here above with
  | nil => cases here <;> rfl
  | cons element rest ih =>
    rw [List.foldlM_cons]
    cases here with
    | file name content => rfl
    | directory name entries =>
      unfold follow
      rw [step_directory]
      split
      · exact ih _ _
      · split
        · cases above with
          | nil => exact ih _ _
          | cons parent more => exact ih _ _
        · cases entries.find? fun entry => entry.name = element with
          | some entry => exact ih _ _
          | none => rfl

section Steps

variable {place next last : Standpoint} {element name : Text}

/-- An element is followed from a directory only. -/
theorem isDirectory_of_step (stepped : step place element = .ok next) :
    place.1.isDirectory = true := by
  rcases place with ⟨tree, above⟩
  cases tree with
  | file name content => contradiction
  | directory name entries => rfl

theorem step_stay (stays : element = [] ∨ element = ".")
    (isDirectory : place.1.isDirectory = true) :
    step place element = .ok place := by
  rcases place with ⟨tree, above⟩
  cases tree with
  | file name content => contradiction
  | directory name entries => rw [step_directory, if_pos stays]

theorem step_name (proper : Proper name) (own : Text) (entries above : List FileTree) :
    step (.directory own entries, above) name =
      match entries.find? fun entry => entry.name = name with
      | some entry => .ok (entry, .directory own entries :: above)
      | none => .error .notFound := by
  rw [step_directory, if_neg (not_or.mpr ⟨proper.1, proper.2.1⟩), if_neg proper.2.2]

theorem step_up_of_nil (isDirectory : place.1.isDirectory = true) (highest : place.2 = []) :
    step place ".." = .ok place := by
  rcases place with ⟨tree, above⟩
  cases tree with
  | file name content => contradiction
  | directory name entries =>
    cases highest
    rfl

/-- A way up undoes the name before it. -/
theorem step_name_up (proper : Proper name) (down : step place name = .ok next)
    (up : step next ".." = .ok last) : last = place := by
  rcases place with ⟨tree, above⟩
  cases tree with
  | file name content => contradiction
  | directory own entries =>
    rw [step_name proper] at down
    split at down
    next entry found =>
      cases down
      cases entry with
      | file name content => contradiction
      | directory name inner =>
        cases up
        rfl
    next => contradiction

end Steps

/-! ## Cleaning -/

section Cleaning

variable {rooted : Bool} {start place next last : Standpoint} {stack : List Text} {element : Text}

/-- One more element on a cleaned list leads where it leads from the place that the list
leads to.  At the root, where a way up stays, nothing lies above the start. -/
theorem foldlM_reverse_push (highest : rooted = true → start.2 = [])
    (settled : Path.Settled rooted stack) (reached : stack.reverse.foldlM step start = .ok place)
    (stepped : step place element = .ok next) :
    (Path.push rooted stack element).reverse.foldlM step start = .ok next := by
  have further {top : Text} (same : top = element) :
      (top :: stack).reverse.foldlM step start = .ok next := by
    rw [List.reverse_cons, List.foldlM_append, reached, same, Result.ok_bind, List.foldlM_cons,
      stepped]
    rfl
  by_cases stays : element = [] ∨ element = "."
  · rw [Path.push.eq_def, if_pos stays]
    rw [step_stay stays (isDirectory_of_step stepped)] at stepped
    rw [reached, stepped]
  · by_cases up : element = ".."
    · rw [Path.push.eq_def, if_neg stays, if_pos up]
      cases settled with
      | nil =>
        cases rooted with
        | true =>
          have same : start = place := Except.ok.inj reached
          subst same up
          rw [step_up_of_nil (isDirectory_of_step stepped) (highest rfl)] at stepped
          exact stepped
        | false => exact further up.symm
      | up relative only below => exact further up.symm
      | @name top rest proper below =>
        simp only [if_neg proper.2.2]
        rw [List.reverse_cons, List.foldlM_append] at reached
        rcases Result.bind_eq_ok_iff.mp reached with ⟨before, reached, down⟩
        rw [List.foldlM_cons] at down
        rcases Result.bind_eq_ok_iff.mp down with ⟨after, down, same⟩
        cases same
        subst up
        rw [reached, step_name_up proper down stepped]
    · rw [Path.push.eq_def, if_neg stays, if_neg up]
      exact further rfl

/-- The elements of a path lead where the path does, once they are cleaned. -/
theorem foldlM_cleaned (highest : rooted = true → start.2 = []) {parts : List Text}
    (followed : parts.foldlM step start = .ok last) :
    (parts.foldl (Path.push rooted) []).reverse.foldlM step start = .ok last := by
  have each : ∀ (parts stack : List Text) (place : Standpoint), Path.Settled rooted stack →
      stack.reverse.foldlM step start = .ok place → parts.foldlM step place = .ok last →
      (parts.foldl (Path.push rooted) stack).reverse.foldlM step start = .ok last := by
    intro parts
    induction parts with
    | nil =>
      intro stack place _ reached followed
      cases followed
      exact reached
    | cons element parts ih =>
      intro stack place settled reached followed
      rw [List.foldlM_cons] at followed
      rcases Result.bind_eq_ok_iff.mp followed with ⟨next, stepped, followed⟩
      exact ih _ next (settled.push element)
        (foldlM_reverse_push highest settled reached stepped) followed
  exact each parts [] start .nil rfl followed

end Cleaning

/-! ## Names -/

/-- Names are followed to a node that they lead to. -/
theorem leadsTo_of_foldlM {through : List Text} (sound : ∀ name ∈ through, Proper name)
    {place last : Standpoint} (followed : through.foldlM step place = .ok last) :
    LeadsTo place.1 through last.1 := by
  induction through generalizing place with
  | nil =>
    cases followed
    exact .here _
  | cons name through ih =>
    rw [List.forall_mem_cons] at sound
    rw [List.foldlM_cons] at followed
    rcases Result.bind_eq_ok_iff.mp followed with ⟨next, stepped, followed⟩
    rcases place with ⟨tree, above⟩
    cases tree with
    | file name content => contradiction
    | directory own entries =>
      rw [step_name sound.1] at stepped
      split at stepped
      next entry found =>
        cases stepped
        have same : entry.name = name := by simpa using List.find?_some found
        rw [← same]
        exact .down (List.mem_of_find?_eq_some found) (ih sound.2 followed)
      next => contradiction

theorem kept_of_step {kept : FileTree → Prop}
    (inside : ∀ name entries entry, kept (.directory name entries) → entry ∈ entries → kept entry)
    {place next : Standpoint} {element : Text}
    (all : kept place.1 ∧ ∀ parent ∈ place.2, kept parent)
    (stepped : step place element = .ok next) :
    kept next.1 ∧ ∀ parent ∈ next.2, kept parent := by
  rcases place with ⟨tree, above⟩
  cases tree with
  | file name content => contradiction
  | directory name entries =>
    rw [step_directory] at stepped
    split at stepped
    · cases stepped
      exact all
    · split at stepped
      · cases above with
        | nil =>
          cases stepped
          exact all
        | cons parent more =>
          cases stepped
          exact List.forall_mem_cons.mp all.2
      · split at stepped
        next entry found =>
          cases stepped
          constructor
          · exact inside name entries entry all.1 (List.mem_of_find?_eq_some found)
          · exact List.forall_mem_cons.mpr all
        next => contradiction

/-- What holds of a node and of the directories above it, and goes over from each directory
to its entries, holds of each node that is followed to. -/
theorem follow_induction (kept : FileTree → Prop)
    (inside : ∀ name entries entry, kept (.directory name entries) → entry ∈ entries → kept entry)
    {elements : List Text} {here found : FileTree} {above : List FileTree} (start : kept here)
    (higher : ∀ parent ∈ above, kept parent) (followed : follow here above elements = .ok found) :
    kept found := by
  rw [follow_eq_foldlM] at followed
  rcases Result.map_eq_ok_iff.mp followed with ⟨place, reached, rfl⟩
  have all := Result.foldlM_induction
    (fun place : Standpoint => kept place.1 ∧ ∀ parent ∈ place.2, kept parent)
    (fun _ _ _ => kept_of_step inside) ⟨start, higher⟩ reached
  exact all.1

end FileTree

/-! ## In a file system -/

namespace FileSystem

open FileTree (Standpoint step)

variable {system : FileSystem} {path name : Text}

/-- The place that paths are followed from: the root, or the working directory. -/
def start (system : FileSystem) (rooted : Bool) : Except FileTree.Cause Standpoint :=
  if rooted then .ok (system.root, [])
  else (system.workingDirectory.splitOn slash).foldlM step (system.root, [])

/-- The place that a path leads to. -/
def placeOf (system : FileSystem) (path : Text) : Except FileTree.Cause Standpoint := do
  (path.splitOn slash).foldlM step (← system.start (Path.isAbsolute path))

theorem resolve_eq_map_placeOf (given : path ≠ []) :
    system.resolve path = Prod.fst <$> system.placeOf path := by
  rw [resolve, if_neg (by simpa using given), FileTree.follow_eq_foldlM, placeOf, start, fromRoot]
  cases Path.isAbsolute path with
  | true => rfl
  | false =>
    rw [if_neg Bool.false_ne_true, if_neg Bool.false_ne_true, List.append_assoc,
      Text.ofString_slash, List.singleton_append, Text.splitOn_append_cons, List.foldlM_append]

/-- A path leads to a node at some place. -/
theorem resolve_eq_ok_iff {tree : FileTree} :
    system.resolve path = .ok tree ↔
      path ≠ [] ∧ ∃ above, system.placeOf path = .ok (tree, above) := by
  by_cases given : path = []
  · simp [given, resolve]
  · rw [resolve_eq_map_placeOf given, Result.map_eq_ok_iff]
    simp [given]

theorem hasDirectory_iff :
    system.hasDirectory path = true ↔
      ∃ name entries, system.resolve path = .ok (.directory name entries) := by
  unfold hasDirectory
  cases system.resolve path with
  | error cause => simp
  | ok tree => cases tree <;> simp [FileTree.isDirectory]

theorem snd_of_start {place : Standpoint} (started : system.start true = .ok place) :
    place.2 = [] := by
  cases started
  rfl

/-- The elements of a path lead where the path does. -/
theorem foldlM_elements_of_placeOf {place : Standpoint}
    (reached : system.placeOf path = .ok place) :
    ∃ first, system.start (Path.isAbsolute path) = .ok first ∧ first.1.isDirectory = true ∧
      (Path.elements path).foldlM step first = .ok place := by
  rcases Result.bind_eq_ok_iff.mp reached with ⟨first, started, followed⟩
  refine ⟨first, started, ?_, ?_⟩
  · rcases Text.exists_splitOn_eq_cons slash path with ⟨piece, pieces, split⟩
    rw [split, List.foldlM_cons] at followed
    rcases Result.bind_eq_ok_iff.mp followed with ⟨next, stepped, -⟩
    exact FileTree.isDirectory_of_step stepped
  · apply FileTree.foldlM_cleaned _ followed
    intro rooted
    rw [rooted] at started
    exact snd_of_start started

/-- A path that is written as its elements leads where they do. -/
theorem placeOf_ofElements {rooted : Bool} {parts : List Text}
    (sound : ∀ part ∈ parts, part ≠ [] ∧ slash ∉ part) {first : Standpoint}
    (started : system.start rooted = .ok first) (isDirectory : first.1.isDirectory = true) :
    system.placeOf (Path.ofElements rooted parts) = parts.foldlM step first := by
  have stay := FileTree.step_stay (.inl rfl) isDirectory
  rw [placeOf, Path.isAbsolute_ofElements sound, started, Result.ok_bind]
  by_cases empty : parts = []
  · subst empty
    cases rooted with
    | true =>
      show List.foldlM step first [[], []] = _
      rw [List.foldlM_cons, stay, Result.ok_bind, List.foldlM_cons, stay]
      rfl
    | false =>
      show List.foldlM step first [Text.ofString "."] = _
      rw [List.foldlM_cons, FileTree.step_stay (.inr rfl) isDirectory]
      rfl
  · rw [Path.splitOn_ofElements rooted empty fun part member => (sound part member).2]
    cases rooted with
    | true => rw [if_pos rfl, List.foldlM_cons, stay, Result.ok_bind]
    | false => rw [if_neg Bool.false_ne_true]

/-- What a path leads to, the cleaned path leads to. -/
theorem resolve_clean {tree : FileTree} (resolved : system.resolve path = .ok tree) :
    system.resolve (Path.clean path) = .ok tree := by
  rcases resolve_eq_ok_iff.mp resolved with ⟨-, above, reached⟩
  rcases foldlM_elements_of_placeOf reached with ⟨first, started, isDirectory, followed⟩
  have sound : ∀ part ∈ Path.elements path, part ≠ [] ∧ slash ∉ part :=
    fun _ member => Path.ne_nil_of_mem_elements member
  rw [resolve_eq_ok_iff]
  constructor
  · exact Path.clean_ne_nil path
  · exact ⟨above, (placeOf_ofElements sound started isDirectory).trans followed⟩

/-- A name joined to the path of a directory leads to the entry of that name. -/
theorem resolve_join_name {own : Text} {entries : List FileTree}
    (resolved : system.resolve path = .ok (.directory own entries)) (proper : Proper name)
    (undivided : slash ∉ name) :
    system.resolve (Path.join path name) =
      match entries.find? fun entry => entry.name = name with
      | some entry => .ok entry
      | none => .error .notFound := by
  rcases resolve_eq_ok_iff.mp resolved with ⟨given, above, reached⟩
  rcases foldlM_elements_of_placeOf reached with ⟨first, started, isDirectory, followed⟩
  have sound : ∀ part ∈ Path.elements path ++ [name], part ≠ [] ∧ slash ∉ part := by
    rw [List.forall_mem_append]
    exact ⟨fun _ member => Path.ne_nil_of_mem_elements member, by simpa using ⟨proper.1, undivided⟩⟩
  have leads : Path.Leads name [name] :=
    Path.leads_join (List.cons_ne_nil name []) (by simpa using ⟨proper, undivided⟩)
  rw [resolve_eq_map_placeOf (Path.join_ne_nil given name), leads.join_eq_ofElements given,
    placeOf_ofElements sound started isDirectory, List.foldlM_append, followed, Result.ok_bind,
    List.foldlM_cons, FileTree.step_name proper]
  cases entries.find? fun entry => entry.name = name <;> rfl

/-- Above what a path leads to, its parent leads to a directory. -/
theorem exists_resolve_parent {tree : FileTree} (resolved : system.resolve path = .ok tree) :
    ∃ own entries, system.resolve (Path.parent path) = .ok (.directory own entries) := by
  have holds {node : FileTree} (isDirectory : node.isDirectory = true) :
      ∃ own entries, node = .directory own entries := by
    cases node with
    | file name content => contradiction
    | directory own entries => exact ⟨own, entries, rfl⟩
  rcases resolve_eq_ok_iff.mp resolved with ⟨-, above, reached⟩
  rcases Path.exists_eq_append path with ⟨front, name, lead, undivided, rfl⟩
  rw [Path.parent_append lead undivided]
  rcases lead with rfl | ⟨rest, rfl⟩
  · -- a name alone is looked up in the working directory
    have relative : Path.isAbsolute ([] ++ name) = false := by
      cases name with
      | nil => rfl
      | cons b name => simpa [Path.isAbsolute, eq_comm] using List.ne_of_not_mem_cons undivided
    rcases foldlM_elements_of_placeOf reached with ⟨first, started, isDirectory, -⟩
    rw [relative] at started
    have here := placeOf_ofElements (List.forall_mem_nil _) started isDirectory
    rcases holds isDirectory with ⟨own, entries, same⟩
    refine ⟨own, entries, resolve_eq_ok_iff.mpr ⟨Path.clean_ne_nil [], first.2, ?_⟩⟩
    rw [← same]
    exact here
  · rw [List.append_assoc, List.singleton_append] at reached
    rcases Result.bind_eq_ok_iff.mp reached with ⟨first, started, followed⟩
    rw [Text.splitOn_append_cons, Text.splitOn_eq_singleton undivided, List.foldlM_append]
      at followed
    rcases Result.bind_eq_ok_iff.mp followed with ⟨middle, followed, last⟩
    rw [List.foldlM_cons] at last
    rcases Result.bind_eq_ok_iff.mp last with ⟨next, stepped, -⟩
    have isDirectory := FileTree.isDirectory_of_step stepped
    have rooted : Path.isAbsolute (rest ++ [slash]) = Path.isAbsolute (rest ++ slash :: name) := by
      cases rest <;> rfl
    have there : system.placeOf (rest ++ [slash]) = .ok middle := by
      rw [placeOf, rooted, started, Result.ok_bind, Text.splitOn_append_cons, List.foldlM_append,
        followed, Result.ok_bind, Text.splitOn_nil, List.foldlM_cons,
        FileTree.step_stay (.inl rfl) isDirectory]
      rfl
    rcases holds isDirectory with ⟨own, entries, same⟩
    refine ⟨own, entries, resolve_clean (resolve_eq_ok_iff.mpr ⟨by simp, middle.2, ?_⟩)⟩
    rw [← same]
    exact there

end FileSystem

end Protoclass
