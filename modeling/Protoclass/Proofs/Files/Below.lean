import Protoclass.Proofs.Files.Following

/-!
# What lies below a directory

Names lead from one path to another if the other is the first one with the names joined
to it.  There is at most one such list of names, and it can be read off the elements of
the paths.  In a file system whose directories have their entries in the order of their
names, a directory lies below another one exactly if its path leads to a directory and
names lead there from the path of the other one.
-/

namespace Protoclass

open Protoclass.Path (Proper)
open Text (slash)

/-! ## From path to path -/

namespace Path

/-- Names lead down from one path to another. -/
structure Between (root path : Text) (through : List Text) : Prop where
  sound : ∀ name ∈ through, Proper name ∧ slash ∉ name
  same : clean path = clean (through.foldl Path.join root)

theorem clean_eq_clean_iff {path path' : Text} :
    clean path = clean path' ↔
      isAbsolute path = isAbsolute path' ∧ elements path = elements path' := by
  constructor
  · intro same
    rw [← isAbsolute_clean path, ← elements_clean path, same, isAbsolute_clean, elements_clean]
    exact ⟨rfl, rfl⟩
  · rintro ⟨rooted, same⟩
    rw [clean, clean, rooted, same]

section Between

variable {root path path' : Text} {through through' : List Text}

theorem isAbsolute_foldl_join (given : root ≠ []) (through : List Text) :
    isAbsolute (through.foldl Path.join root) = isAbsolute root := by
  induction through generalizing root with
  | nil => rfl
  | cons name through ih =>
    rw [List.foldl_cons, ih (join_ne_nil given name), isAbsolute_join_eq given]

theorem elements_foldl_join (given : root ≠ [])
    (sound : ∀ name ∈ through, Proper name ∧ slash ∉ name) :
    elements (through.foldl Path.join root) = elements root ++ through := by
  induction through generalizing root with
  | nil => exact (List.append_nil _).symm
  | cons name through ih =>
    rw [List.forall_mem_cons] at sound
    rw [List.foldl_cons, ih (join_ne_nil given name) sound.2,
      elements_join_name given sound.1.1 sound.1.2, List.append_assoc, List.singleton_append]

/-- The names between two paths are the elements that the second has more. -/
theorem between_iff (given : root ≠ []) :
    Between root path through ↔
      (∀ name ∈ through, Proper name ∧ slash ∉ name) ∧
        isAbsolute path = isAbsolute root ∧ elements path = elements root ++ through := by
  constructor
  · rintro ⟨sound, same⟩
    rw [clean_eq_clean_iff, isAbsolute_foldl_join given, elements_foldl_join given sound] at same
    exact ⟨sound, same⟩
  · rintro ⟨sound, same⟩
    refine ⟨sound, ?_⟩
    rwa [clean_eq_clean_iff, isAbsolute_foldl_join given, elements_foldl_join given sound]

theorem between_self (root : Text) : Between root root [] where
  sound := by simp
  same := rfl

theorem between_clean_iff : Between root (clean path) through ↔ Between root path through := by
  have again := clean_clean path
  constructor
  · rintro ⟨sound, same⟩
    exact ⟨sound, again.symm.trans same⟩
  · rintro ⟨sound, same⟩
    exact ⟨sound, again.trans same⟩

theorem Between.unique (given : root ≠ []) (between : Between root path through)
    (between' : Between root path through') : through = through' := by
  rw [between_iff given] at between between'
  exact List.append_cancel_left (between.2.2.symm.trans between'.2.2)

theorem Between.trans (given : root ≠ []) (given' : path ≠ [])
    (between : Between root path through) (between' : Between path path' through') :
    Between root path' (through ++ through') := by
  rw [between_iff given] at between ⊢
  rw [between_iff given'] at between'
  refine ⟨List.forall_mem_append.mpr ⟨between.1, between'.1⟩,
    between'.2.1.trans between.2.1, ?_⟩
  rw [between'.2.2, between.2.2, List.append_assoc]

/-- Of two paths above a third one, one is above the other. -/
theorem Between.split {other : Text} (given : root ≠ []) (given' : other ≠ [])
    (between : Between root path through) (between' : Between other path through') :
    (∃ first, Between root other first ∧ through = first ++ through') ∨
      ∃ first, Between other root first ∧ through' = first ++ through := by
  rw [between_iff given] at between
  rw [between_iff given'] at between'
  have rooted := between'.2.1.symm.trans between.2.1
  rcases List.append_eq_append_iff.mp (between.2.2.symm.trans between'.2.2) with
    ⟨first, longer, split⟩ | ⟨first, longer, split⟩
  · left
    refine ⟨first, (between_iff given).mpr ⟨?_, rooted, longer⟩, split⟩
    intro name among
    exact between.1 name (split ▸ List.mem_append_left _ among)
  · right
    refine ⟨first, (between_iff given').mpr ⟨?_, rooted.symm, longer⟩, split⟩
    intro name among
    exact between'.1 name (split ▸ List.mem_append_left _ among)

end Between

end Path

/-! ## In a tree -/

namespace FileTree

/-- A walk that skips some names comes to what is led to without them. -/
theorem mem_walk_names_iff (excluded : Text → Bool) {tree node : FileTree} {through : List Text} :
    (through, node) ∈ tree.walk (fun tree => excluded tree.name) ↔
      LeadsTo tree through node ∧ ∀ name ∈ through, excluded name = false := by
  apply mem_walk_iff_of_open (List.forall_mem_nil _)
  intro entry through _
  rw [List.forall_mem_cons]

theorem AreOrdered.of_mem {entries : List FileTree} {entry : FileTree}
    (ordered : AreOrdered entries) (among : entry ∈ entries) :
    entry.Ordered ∧ entries.find? (fun other => other.name = entry.name) = some entry := by
  induction entries with
  | nil => contradiction
  | cons first rest ih =>
    rw [AreOrdered] at ordered
    rcases List.mem_cons.mp among with rfl | later
    · exact ⟨ordered.2.1, by simp⟩
    · have other : first.name ≠ entry.name := by
        intro same
        have less := ordered.1 entry later
        rw [same] at less
        exact List.lt_irrefl _ less
      rcases ih ordered.2.2 later with ⟨below, found⟩
      exact ⟨below, by simp [other, found]⟩

end FileTree

/-! ## In a file system -/

namespace FileSystem

open FileTree (LeadsTo)
open Protoclass.Path (Between)

/-- The entries of all directories have names that can stand in a path, and are in the order
of these. -/
structure Sound (system : FileSystem) : Prop where
  named : system.root.HasNames
  ordered : system.root.Ordered

variable {system : FileSystem} {root path : Text} {tree node : FileTree} {through : List Text}

theorem Sound.of_resolve (sound : system.Sound) (resolved : system.resolve path = .ok tree) :
    tree.HasNames ∧ tree.Ordered := by
  rw [resolve] at resolved
  split at resolved
  · contradiction
  · apply FileTree.follow_induction (fun tree => tree.HasNames ∧ tree.Ordered) _
      ⟨sound.named, sound.ordered⟩ (List.forall_mem_nil _) resolved
    rintro name entries entry ⟨named, ordered⟩ among
    rw [FileTree.HasNames] at named
    rw [FileTree.Ordered] at ordered
    exact ⟨(named.of_mem among).2, (ordered.of_mem among).1⟩

/-- The names that lead to a node, joined to the path of the first one, lead there. -/
theorem resolve_foldl_join (leads : LeadsTo tree through node)
    (resolved : system.resolve path = .ok tree) (named : tree.HasNames)
    (ordered : tree.Ordered) : system.resolve (through.foldl Path.join path) = .ok node := by
  induction leads generalizing path with
  | here tree => exact resolved
  | @down name entries entry node through among below ih =>
    rw [FileTree.HasNames] at named
    rw [FileTree.Ordered] at ordered
    rcases named.of_mem among with ⟨⟨proper, undivided⟩, inner⟩
    rcases ordered.of_mem among with ⟨sorted, found⟩
    have next := resolve_join_name resolved proper undivided
    rw [found] at next
    exact ih next inner sorted

/-- The names between two paths lead from the node of the first to that of the second. -/
theorem leadsTo_of_between (above : system.resolve root = .ok tree)
    (resolved : system.resolve path = .ok node) (between : Between root path through) :
    LeadsTo tree through node := by
  rcases resolve_eq_ok_iff.mp above with ⟨given, highers, reached⟩
  rcases resolve_eq_ok_iff.mp resolved with ⟨-, highers', reached'⟩
  rcases foldlM_elements_of_placeOf reached with ⟨first, started, -, followed⟩
  rcases foldlM_elements_of_placeOf reached' with ⟨first', started', -, followed'⟩
  rcases (Path.between_iff given).mp between with ⟨sound, rooted, split⟩
  rw [rooted, started] at started'
  cases started'
  rw [split, List.foldlM_append, followed] at followed'
  exact FileTree.leadsTo_of_foldlM (fun name among => (sound name among).1) followed'

theorem hasBelow_iff_leadsTo :
    system.HasBelow root path ↔
      ∃ tree through name entries, system.resolve root = .ok tree ∧
        LeadsTo tree through (.directory name entries) ∧
        path = Path.clean (through.foldl Path.join root) := by
  unfold HasBelow
  simp only [FileTree.visit_eq_map_walk, List.mem_map, Prod.mk.injEq, Prod.exists]
  constructor
  · rintro ⟨tree, _, name, entries, resolved, ⟨through, _, member, rfl, rfl⟩, same⟩
    have leads := (FileTree.mem_walk_names_iff fun _ => false).mp member
    exact ⟨tree, through, name, entries, resolved, leads.1, same⟩
  · rintro ⟨tree, through, name, entries, resolved, leads, same⟩
    have member := (FileTree.mem_walk_names_iff fun _ => false).mpr ⟨leads, fun _ _ => rfl⟩
    exact ⟨tree, _, name, entries, resolved, ⟨through, _, member, rfl, rfl⟩, same⟩

/-- What lies below a directory are the directories that names lead to from there. -/
theorem Sound.hasBelow_iff (sound : system.Sound) (resolved : system.resolve root = .ok tree) :
    system.HasBelow root path ↔
      Path.clean path = path ∧ system.hasDirectory path = true ∧
        ∃ through, Between root path through := by
  rw [hasBelow_iff_leadsTo, hasDirectory_iff]
  constructor
  · rintro ⟨_, through, name, entries, above, leads, rfl⟩
    cases resolved.symm.trans above
    rcases sound.of_resolve resolved with ⟨named, ordered⟩
    have between : Between root (through.foldl Path.join root) through :=
      ⟨leads.proper named, rfl⟩
    refine ⟨Path.clean_clean _, ?_, through, Path.between_clean_iff.mpr between⟩
    exact ⟨name, entries, resolve_clean (resolve_foldl_join leads resolved named ordered)⟩
  · rintro ⟨cleaned, ⟨name, entries, directory⟩, through, between⟩
    refine ⟨tree, through, name, entries, resolved, ?_, cleaned.symm.trans between.same⟩
    exact leadsTo_of_between resolved directory between

theorem hasBelow_self (present : system.hasDirectory path = true) :
    system.HasBelow path (Path.clean path) := by
  rcases hasDirectory_iff.mp present with ⟨name, entries, resolved⟩
  exact hasBelow_iff_leadsTo.mpr ⟨_, [], name, entries, resolved, .here _, rfl⟩

theorem exists_resolve_of_hasBelow (below : system.HasBelow root path) :
    ∃ tree, system.resolve root = .ok tree := by
  rcases below with ⟨tree, -, -, -, resolved, -⟩
  exact ⟨tree, resolved⟩

theorem ne_nil_of_hasBelow (below : system.HasBelow root path) : root ≠ [] := by
  rcases exists_resolve_of_hasBelow below with ⟨tree, resolved⟩
  exact (resolve_eq_ok_iff.mp resolved).1

theorem Sound.of_hasBelow (sound : system.Sound) (below : system.HasBelow root path) :
    Path.clean path = path ∧ system.hasDirectory path = true ∧
      ∃ through, Between root path through := by
  rcases exists_resolve_of_hasBelow below with ⟨tree, resolved⟩
  exact (sound.hasBelow_iff resolved).mp below

/-- Below a directory lies what lies below a higher one and is led to from there. -/
theorem Sound.hasBelow_iff_of_hasBelow (sound : system.Sound)
    (higher : system.HasBelow root path) {directory : Text} :
    system.HasBelow path directory ↔
      system.HasBelow root directory ∧ ∃ through, Between path directory through := by
  rcases exists_resolve_of_hasBelow higher with ⟨tree, top⟩
  rcases sound.of_hasBelow higher with ⟨-, present, through, between⟩
  rcases hasDirectory_iff.mp present with ⟨name, entries, resolved⟩
  have given := ne_nil_of_hasBelow higher
  have given' := (resolve_eq_ok_iff.mp resolved).1
  rw [sound.hasBelow_iff resolved, sound.hasBelow_iff top]
  constructor
  · rintro ⟨cleaned, inside, through', between'⟩
    exact ⟨⟨cleaned, inside, _, between.trans given given' between'⟩, through', between'⟩
  · rintro ⟨⟨cleaned, inside, -⟩, through', between'⟩
    exact ⟨cleaned, inside, through', between'⟩

end FileSystem

end Protoclass
