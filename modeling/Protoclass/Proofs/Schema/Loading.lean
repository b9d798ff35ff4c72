import Mathlib.Data.List.Nodup
import Mathlib.Data.List.Perm.Subperm
import Mathlib.Logic.Relation
import Protoclass.Proofs.Result
import Protoclass.Schema.Loading

/-!
# Loading files

`loadAll` starts from some paths and reads their files and what these need, one file
after another.  `InOrder` says that files were added so that each comes after all
that it needs.  Whatever is loaded is in order and holds the files that are reached
from the requested ones, and no others.  Loading succeeds if and only if all of these
can be read and none of them needs itself.
-/

namespace Protoclass.Schema

open Relation

variable {α : Type} {read : Text → Except Error α} {needs : α → List Text}

/-- The file of one path needs that of another, without a file between them. -/
def Needs (read : Text → Except Error α) (needs : α → List Text) (path other : Text) : Prop :=
  ∃ file, read path = .ok file ∧ other ∈ needs file

/-- A path is one of the requested ones, or needed by their files, directly or not. -/
def Reached (read : Text → Except Error α) (needs : α → List Text) (requested : List Text)
    (path : Text) : Prop :=
  ∃ root ∈ requested, ReflTransGen (Needs read needs) root path

theorem Reached.mono {requested wider : List Text} {path : Text}
    (reached : Reached read needs requested path) (sub : requested ⊆ wider) :
    Reached read needs wider path := by
  rcases reached with ⟨root, asked, route⟩
  exact ⟨root, sub asked, route⟩

theorem reached_singleton {root path : Text} :
    Reached read needs [root] path ↔ ReflTransGen (Needs read needs) root path := by
  simp [Reached]

/-! ## Files in order -/

theorem mem_paths {files : Files α} {path : Text} :
    path ∈ files.paths ↔ ∃ file, (path, file) ∈ files := by
  simp [Files.paths]

@[simp]
theorem paths_append (files more : Files α) : (files ++ more).paths = files.paths ++ more.paths :=
  List.map_append

@[simp]
theorem paths_singleton (path : Text) (file : α) : Files.paths [(path, file)] = [path] := rfl

/-- Files that were read and added one by one, none twice, and each after all those
that it needs. -/
inductive InOrder (read : Text → Except Error α) (needs : α → List Text) : Files α → Prop where
  | nil : InOrder read needs []
  | add {files : Files α} {path : Text} {file : α} (before : InOrder read needs files)
      (new : path ∉ files.paths) (found : read path = .ok file)
      (met : ∀ other ∈ needs file, other ∈ files.paths) :
      InOrder read needs (files ++ [(path, file)])

namespace InOrder

variable {files : Files α}

theorem nodup (ordered : InOrder read needs files) : files.paths.Nodup := by
  induction ordered with
  | nil => exact List.nodup_nil
  | add _ new _ _ ih =>
    rw [paths_append, paths_singleton, ← List.concat_eq_append]
    exact List.Nodup.concat new ih

theorem read_eq (ordered : InOrder read needs files) {path : Text} {file : α}
    (member : (path, file) ∈ files) : read path = .ok file := by
  induction ordered with
  | nil => cases member
  | add _ _ found _ ih =>
    rcases List.mem_append.mp member with earlier | last
    · exact ih earlier
    · cases List.mem_singleton.mp last
      exact found

/-- What a file needs stands before it. -/
theorem met_before (ordered : InOrder read needs files) {before after : Files α} {path : Text}
    {file : α} (split : files = before ++ (path, file) :: after) {other : Text}
    (needed : other ∈ needs file) : other ∈ before.paths := by
  induction ordered generalizing after with
  | nil => simp at split
  | @add earlier last lastFile _ _ _ met ih =>
    rcases List.eq_nil_or_concat after with rfl | ⟨init, final, rfl⟩
    · rcases List.append_inj' split rfl with ⟨rfl, same⟩
      cases same
      exact met other needed
    · rw [List.concat_eq_append, ← List.cons_append, ← List.append_assoc] at split
      exact ih (List.append_inj' split rfl).1

theorem closed (ordered : InOrder read needs files) {path other : Text}
    (member : path ∈ files.paths) (needed : Needs read needs path other) :
    other ∈ files.paths := by
  rcases mem_paths.mp member with ⟨file, among⟩
  rcases needed with ⟨file', found, inNeeds⟩
  rw [ordered.read_eq among] at found
  cases found
  rcases List.append_of_mem among with ⟨before, after, rfl⟩
  rw [paths_append]
  exact List.mem_append_left _ (ordered.met_before rfl inNeeds)

theorem closed_route (ordered : InOrder read needs files) {path other : Text}
    (member : path ∈ files.paths) (route : ReflTransGen (Needs read needs) path other) :
    other ∈ files.paths := by
  induction route with
  | refl => exact member
  | tail _ step ih => exact ordered.closed ih step

/-- No file in order needs itself: a route back to the file added last would have to
lead through the files before it, which need nothing outside. -/
theorem acyclic (ordered : InOrder read needs files) {path : Text}
    (member : path ∈ files.paths) : ¬ TransGen (Needs read needs) path path := by
  induction ordered generalizing path with
  | nil => simp [Files.paths] at member
  | @add earlier last file before new found met ih =>
    intro cycle
    by_cases old : path ∈ earlier.paths
    · exact ih old cycle
    · have isLast : path = last := by simpa [old] using member
      subst isLast
      rcases TransGen.head'_iff.mp cycle with ⟨next, ⟨file', found', needed⟩, back⟩
      rw [found] at found'
      cases found'
      exact new (before.closed_route (met next needed) back)

end InOrder

/-! ## What is loaded -/

/-- From files to more files, with some paths added and nothing but what these
need. -/
structure Adds (read : Text → Except Error α) (needs : α → List Text) (paths : List Text)
    (files more : Files α) : Prop where
  ordered : InOrder read needs more
  kept : files.paths ⊆ more.paths
  added : paths ⊆ more.paths
  reached : ∀ path ∈ more.paths, path ∈ files.paths ∨ Reached read needs paths path

theorem Adds.of_foldlM {step : Files α → Text → Except Error (Files α)} {paths : List Text}
    (one : ∀ path files more, InOrder read needs files → step files path = .ok more →
      Adds read needs [path] files more) {files more : Files α}
    (ordered : InOrder read needs files) (found : paths.foldlM step files = .ok more) :
    Adds read needs paths files more := by
  induction paths generalizing files with
  | nil =>
    cases found
    exact ⟨ordered, List.Subset.refl _, List.nil_subset _, fun _ => .inl⟩
  | cons path rest ih =>
    rw [List.foldlM_cons] at found
    rcases Result.bind_eq_ok_iff.mp found with ⟨middle, first, others⟩
    have start := one path files middle ordered first
    have finish := ih start.ordered others
    constructor
    · exact finish.ordered
    · exact List.Subset.trans start.kept finish.kept
    · exact List.cons_subset.mpr ⟨finish.kept (start.added List.mem_cons_self), finish.added⟩
    · intro other member
      rcases finish.reached other member with inMiddle | reached
      · rcases start.reached other inMiddle with old | reached
        · exact .inl old
        · exact .inr (reached.mono (by simp))
      · exact .inr (reached.mono (List.subset_cons_self _ _))

theorem load_succ (limit : Nat) (above : List Text) (files : Files α) (path : Text) :
    load read needs (limit + 1) above files path
      = if path ∈ files.paths then .ok files
        else if path ∈ above then .error (.cycle path)
        else do
          let file ← read path
          let files ← (needs file).foldlM (load read needs limit (path :: above)) files
          return files ++ [(path, file)] :=
  rfl

theorem load_adds {limit : Nat} {above : List Text} {files more : Files α} {path : Text}
    (ordered : InOrder read needs files)
    (loaded : load read needs limit above files path = .ok more) :
    Adds read needs [path] files more := by
  induction limit generalizing above files path more with
  | zero => cases loaded
  | succ limit ih =>
    rw [load_succ] at loaded
    split at loaded
    · cases loaded
      rename_i there
      exact ⟨ordered, List.Subset.refl _, by simpa using there, fun _ => .inl⟩
    · split at loaded
      · cases loaded
      · rename_i new _
        rcases Result.bind_eq_ok_iff.mp loaded with ⟨file, found, loaded⟩
        rcases Result.bind_eq_ok_iff.mp loaded with ⟨middle, others, made⟩
        cases made
        have below : Adds read needs (needs file) files middle :=
          Adds.of_foldlM (fun _ _ _ => ih) ordered others
        -- The file itself is still new: else it would need itself.
        have stillNew : path ∉ middle.paths := by
          intro there
          rcases below.reached path there with old | ⟨child, needed, back⟩
          · exact new old
          · exact below.ordered.acyclic there (TransGen.head' ⟨file, found, needed⟩ back)
        constructor
        · exact below.ordered.add stillNew found fun _ needed => below.added needed
        · rw [paths_append]
          exact List.Subset.trans below.kept (List.subset_append_left _ _)
        · simp
        · intro other member
          rw [paths_append, paths_singleton, List.mem_append, List.mem_singleton] at member
          rcases member with inMiddle | rfl
          · rcases below.reached other inMiddle with old | ⟨child, needed, route⟩
            · exact .inl old
            · exact .inr (reached_singleton.mpr (.head ⟨file, found, needed⟩ route))
          · exact .inr (reached_singleton.mpr .refl)

/-- The files that are loaded are in order, and are those that are reached. -/
theorem loadAll_spec {limit : Nat} {requested : List Text} {files : Files α}
    (found : loadAll read needs limit requested = .ok files) :
    InOrder read needs files ∧ ∀ path, path ∈ files.paths ↔ Reached read needs requested path := by
  have adds : Adds read needs requested [] files :=
    Adds.of_foldlM (fun _ _ _ => load_adds) .nil found
  constructor
  · exact adds.ordered
  · intro path
    constructor
    · intro member
      exact (adds.reached path member).resolve_left (by simp [Files.paths])
    · rintro ⟨root, asked, route⟩
      exact adds.ordered.closed_route (adds.added asked) route

/-! ## When loading succeeds -/

theorem exists_foldlM {step : Files α → Text → Except Error (Files α)} {paths : List Text}
    (one : ∀ path ∈ paths, ∀ files, ∃ more, step files path = .ok more) (files : Files α) :
    ∃ more, paths.foldlM step files = .ok more := by
  induction paths generalizing files with
  | nil => exact ⟨files, rfl⟩
  | cons path rest ih =>
    rcases one path List.mem_cons_self files with ⟨middle, first⟩
    rw [List.foldlM_cons, first, Result.ok_bind]
    exact ih (fun other later => one other (List.mem_cons_of_mem path later)) middle

/-- The files that wait for one another are different, and all but the first are
needed by another one; so the limit is never met. -/
theorem exists_load {needed : List Text}
    (listed : ∀ path other, Needs read needs path other → other ∈ needed) {limit : Nat}
    {above : List Text} {path : Text} (files : Files α)
    (readable : ∀ other, ReflTransGen (Needs read needs) path other → ∃ file, read other = .ok file)
    (acyclic : ∀ other, ReflTransGen (Needs read needs) path other →
      ¬ TransGen (Needs read needs) other other)
    (waiting : ∀ other ∈ above, TransGen (Needs read needs) other path)
    (distinct : above.Nodup) (inner : above.dropLast ⊆ needed)
    (isNeeded : above ≠ [] → path ∈ needed) (room : above.length + limit = needed.length + 2) :
    ∃ more, load read needs limit above files path = .ok more := by
  induction limit generalizing above path files with
  | zero =>
    have few : above.dropLast.length ≤ needed.length :=
      ((distinct.sublist (List.dropLast_sublist above)).subperm inner).length_le
    rw [List.length_dropLast] at few
    omega
  | succ limit ih =>
    rw [load_succ]
    split
    · exact ⟨files, rfl⟩
    · have notAbove : path ∉ above := fun member => acyclic path .refl (waiting path member)
      rw [if_neg notAbove]
      rcases readable path .refl with ⟨file, found⟩
      rw [found, Result.ok_bind]
      have below : ∃ middle,
          (needs file).foldlM (load read needs limit (path :: above)) files = .ok middle := by
        apply exists_foldlM
        intro other inNeeds files
        have step : Needs read needs path other := ⟨file, found, inNeeds⟩
        apply ih
        · exact fun later route => readable later (.head step route)
        · exact fun later route => acyclic later (.head step route)
        · intro earlier member
          rcases List.mem_cons.mp member with rfl | farther
          · exact .single step
          · exact (waiting earlier farther).tail step
        · exact List.nodup_cons.mpr ⟨notAbove, distinct⟩
        · cases above with
          | nil => simp
          | cons next rest =>
            exact List.cons_subset.mpr ⟨isNeeded (List.cons_ne_nil next rest), inner⟩
        · exact fun _ => listed path other step
        · rw [List.length_cons]
          omega
      rcases below with ⟨middle, others⟩
      exact ⟨middle ++ [(path, file)], by rw [others]; rfl⟩

/-- With room for all files that are needed, loading succeeds exactly when all files
that are reached can be read and none of them needs itself. -/
theorem exists_loadAll_iff {needed : List Text}
    (listed : ∀ path other, Needs read needs path other → other ∈ needed) (requested : List Text) :
    (∃ files, loadAll read needs (needed.length + 2) requested = .ok files) ↔
      ∀ path, Reached read needs requested path →
        (∃ file, read path = .ok file) ∧ ¬ TransGen (Needs read needs) path path := by
  constructor
  · rintro ⟨files, found⟩ path reached
    rcases loadAll_spec found with ⟨ordered, among_iff⟩
    have member := (among_iff path).mpr reached
    rcases mem_paths.mp member with ⟨file, among⟩
    exact ⟨⟨file, ordered.read_eq among⟩, ordered.acyclic member⟩
  · intro sound
    apply exists_foldlM
    intro root asked files
    apply exists_load listed
    · exact fun other route => (sound other ⟨root, asked, route⟩).1
    · exact fun other route => (sound other ⟨root, asked, route⟩).2
    · simp
    · exact List.nodup_nil
    · simp
    · exact fun nonempty => absurd rfl nonempty
    · simp

end Protoclass.Schema
