import Protoclass.Proofs.Session.Directories

/-!
# Walks through a tree

A walk lists what a visit does, but by the names that lead to each node instead of a
path: a visit is a walk with the names joined to the path that it starts at.  A walk
comes to exactly the nodes that are led to without a skipped entry, and, if the entries
of each directory are in the order of their names, in the lexical order of the names
that lead to them.
-/

namespace Protoclass.FileTree

open Protoclass.Path (Proper)
open Text (slash)

mutual

/-- A node and what lies below it, with the names that lead there. -/
def walk (skip : FileTree → Bool) : FileTree → List (List Text × FileTree)
  | .file name content => [([], .file name content)]
  | .directory name entries => ([], .directory name entries) :: walkEntries skip entries

/-- Entries and what lies below them, with the names that lead there. -/
def walkEntries (skip : FileTree → Bool) : List FileTree → List (List Text × FileTree)
  | [] => []
  | entry :: rest =>
    (if skip entry then []
      else (walk skip entry).map fun reached => (entry.name :: reached.1, reached.2))
      ++ walkEntries skip rest

end

mutual

/-- The entries of each directory, here and below, are in the order of their names. -/
def Ordered : FileTree → Prop
  | .file _ _ => True
  | .directory _ entries => AreOrdered entries

/-- Entries are in the order of their names, and so are those below them. -/
def AreOrdered : List FileTree → Prop
  | [] => True
  | entry :: rest => (∀ other ∈ rest, entry.name < other.name) ∧ entry.Ordered ∧ AreOrdered rest

end

/-- Names lead from a node to one below it. -/
inductive LeadsTo : FileTree → List Text → FileTree → Prop where
  | here (tree : FileTree) : LeadsTo tree [] tree
  | down {name : Text} {entries : List FileTree} {entry node : FileTree} {through : List Text}
    (among : entry ∈ entries) (below : LeadsTo entry through node) :
    LeadsTo (.directory name entries) (entry.name :: through) node

variable {skip : FileTree → Bool}

/-! ## Visits -/

mutual

/-- A visit is a walk, with the names joined to the path that it starts at. -/
theorem visit_eq_map_walk (skip : FileTree → Bool) : (tree : FileTree) → (path : Text) →
    tree.visit skip path
      = (tree.walk skip).map fun reached => (reached.1.foldl Path.join path, reached.2)
  | .file name content, path => by
    rw [visit, walk]
    rfl
  | .directory name entries, path => by
    rw [visit, walk, visitEntries_eq_map_walkEntries skip entries path]
    rfl

theorem visitEntries_eq_map_walkEntries (skip : FileTree → Bool) :
    (entries : List FileTree) → (path : Text) →
    visitEntries skip path entries
      = (walkEntries skip entries).map fun reached => (reached.1.foldl Path.join path, reached.2)
  | [], path => by
    rw [visitEntries, walkEntries]
    rfl
  | entry :: rest, path => by
    rw [visitEntries, walkEntries, visitEntries_eq_map_walkEntries skip rest path,
      List.map_append]
    congr 1
    split
    · rfl
    · rw [visit_eq_map_walk skip entry (Path.join path entry.name), List.map_map]
      rfl

end

/-! ## What a walk comes to -/

theorem mem_walkEntries_iff {entries : List FileTree} {reached : List Text × FileTree} :
    reached ∈ walkEntries skip entries ↔
      ∃ entry ∈ entries, skip entry = false ∧
        ∃ below ∈ entry.walk skip, (entry.name :: below.1, below.2) = reached := by
  induction entries with
  | nil => simp [walkEntries]
  | cons entry rest ih =>
    rw [walkEntries, List.mem_append, ih, List.exists_mem_cons_iff]
    cases skip entry <;> simp

theorem mem_walk_nil_iff {tree node : FileTree} : ([], node) ∈ tree.walk skip ↔ node = tree := by
  cases tree with
  | file name content => simp [walk]
  | directory name entries => simp [walk, mem_walkEntries_iff]

theorem mem_walk_cons_iff {tree node : FileTree} {name : Text} {through : List Text} :
    (name :: through, node) ∈ tree.walk skip ↔
      ∃ entry ∈ tree.entries, skip entry = false ∧
        (through, node) ∈ entry.walk skip ∧ entry.name = name := by
  cases tree with
  | file name content => simp [walk, entries]
  | directory name entries =>
    rw [walk, List.mem_cons, mem_walkEntries_iff]
    simp [FileTree.entries]

theorem LeadsTo.eq_of_nil {tree node : FileTree} (leads : LeadsTo tree [] node) : node = tree := by
  cases leads
  rfl

/-- A way that goes on starts at a directory. -/
theorem LeadsTo.isDirectory {tree node : FileTree} {through : List Text}
    (leads : LeadsTo tree through node) (further : through ≠ []) : tree.isDirectory = true := by
  cases leads with
  | here => contradiction
  | down => rfl

/-- A walk comes to what is led to on an open way, where a way is open if the first entry on
it is not skipped and the rest of it is open. -/
theorem mem_walk_iff_of_open {tree node : FileTree} {isOpen : List Text → Prop}
    (atEnd : isOpen [])
    (enters : ∀ {entry : FileTree} {through : List Text}, LeadsTo entry through node →
      (skip entry = false ∧ isOpen through ↔ isOpen (entry.name :: through)))
    {through : List Text} :
    (through, node) ∈ tree.walk skip ↔ LeadsTo tree through node ∧ isOpen through := by
  induction through generalizing tree with
  | nil =>
    rw [mem_walk_nil_iff]
    constructor
    · rintro rfl
      exact ⟨.here node, atEnd⟩
    · rintro ⟨leads, -⟩
      exact leads.eq_of_nil
  | cons name through ih =>
    rw [mem_walk_cons_iff]
    constructor
    · rintro ⟨entry, among, unskipped, member, rfl⟩
      obtain ⟨leads, isOpen⟩ := ih.mp member
      refine ⟨?_, (enters leads).mp ⟨unskipped, isOpen⟩⟩
      cases tree with
      | file name content => contradiction
      | directory name entries => exact .down among leads
    · rintro ⟨leads, isOpen⟩
      cases leads with
      | @down _ _ entry _ _ among below =>
        obtain ⟨unskipped, isOpen⟩ := (enters below).mpr isOpen
        exact ⟨entry, among, unskipped, ih.mpr ⟨below, isOpen⟩, rfl⟩

/-- A walk that skips directories of some names comes to a file exactly if no directory
on the way there has one of them. -/
theorem mem_walk_iff {excluded : Text → Bool} {tree node : FileTree} {through : List Text}
    (isFile : node.isDirectory = false) :
    (through, node) ∈ tree.walk (fun tree => tree.isDirectory && excluded tree.name) ↔
      LeadsTo tree through node ∧ ∀ above ∈ through.dropLast, excluded above = false := by
  apply mem_walk_iff_of_open (List.forall_mem_nil _)
  intro entry through leads
  by_cases last : through = []
  · subst last
    simp [← leads.eq_of_nil, isFile]
  · simp [leads.isDirectory last, List.dropLast_cons_of_ne_nil last]

/-! ## Order -/

theorem ne_nil_of_mem_walkEntries {entries : List FileTree} {through : List Text}
    (member : through ∈ (walkEntries skip entries).map Prod.fst) :
    ∃ entry ∈ entries, ∃ rest, through = entry.name :: rest := by
  obtain ⟨reached, among, rfl⟩ := List.mem_map.mp member
  obtain ⟨entry, inside, -, below, -, rfl⟩ := mem_walkEntries_iff.mp among
  exact ⟨entry, inside, below.1, rfl⟩

mutual

/-- A walk comes to its nodes in lexical order. -/
theorem pairwise_walk (skip : FileTree → Bool) : (tree : FileTree) → tree.Ordered →
    ((tree.walk skip).map Prod.fst).Pairwise (· < ·)
  | .file name content, _ => by simp [walk]
  | .directory name entries, ordered => by
    rw [Ordered] at ordered
    rw [walk, List.map_cons, List.pairwise_cons]
    constructor
    · intro through member
      obtain ⟨entry, -, rest, rfl⟩ := ne_nil_of_mem_walkEntries member
      exact List.nil_lt_cons _ _
    · exact pairwise_walkEntries skip entries ordered

theorem pairwise_walkEntries (skip : FileTree → Bool) : (entries : List FileTree) →
    AreOrdered entries → ((walkEntries skip entries).map Prod.fst).Pairwise (· < ·)
  | [], _ => by simp [walkEntries]
  | entry :: rest, ordered => by
    rw [AreOrdered] at ordered
    obtain ⟨first, below, later⟩ := ordered
    have inner := pairwise_walk skip entry below
    have outer := pairwise_walkEntries skip rest later
    rw [walkEntries, List.map_append]
    split
    · exact outer
    · rw [List.map_map, List.pairwise_append]
      refine ⟨?_, outer, ?_⟩
      · rw [List.pairwise_map] at inner ⊢
        exact inner.imp fun less => List.cons_lt_cons_iff.mpr (.inr ⟨rfl, less⟩)
      · intro through member through' member'
        obtain ⟨reached, -, rfl⟩ := List.mem_map.mp member
        obtain ⟨other, among, rest', rfl⟩ := ne_nil_of_mem_walkEntries member'
        exact List.cons_lt_cons_iff.mpr (.inl (first other among))

end

/-! ## The names on the way -/

theorem HaveNames.of_mem {entries : List FileTree} {entry : FileTree} (named : HaveNames entries)
    (among : entry ∈ entries) : (Proper entry.name ∧ slash ∉ entry.name) ∧ entry.HasNames := by
  induction entries with
  | nil => contradiction
  | cons first rest ih =>
    rw [HaveNames] at named
    rcases List.mem_cons.mp among with rfl | later
    · exact ⟨named.1, named.2.1⟩
    · exact ih named.2.2 later

theorem LeadsTo.proper {tree node : FileTree} {through : List Text}
    (leads : LeadsTo tree through node) (named : tree.HasNames) :
    ∀ name ∈ through, Proper name ∧ slash ∉ name := by
  induction leads with
  | here tree => simp
  | down among below ih =>
    rw [HasNames] at named
    obtain ⟨first, rest⟩ := named.of_mem among
    exact List.forall_mem_cons.mpr ⟨first, ih rest⟩

end Protoclass.FileTree
