import Protoclass.FileTree.Basic
import Protoclass.Glob

/-!
# Visiting a tree

A visit lists a node and all that lies below it, with their paths: a directory
before its entries, and entries in the order of their names.  Entries that are
to be skipped are left out with all that lies below them; the node that the
visit starts at never is.
-/

namespace Protoclass

/-- Whether a name matches one of the exclude patterns.  A slash at the end of a
pattern says nothing. -/
def isExcluded (exclude : List Text) (name : Text) : Bool :=
  exclude.any fun pattern => Glob.isMatch (Text.dropTail pattern "/") name

namespace FileTree

mutual

/-- The node at `path` and what lies below it, with their paths. -/
def visit (skip : FileTree → Bool) (path : Text) : FileTree → List (Text × FileTree)
  | .file name content => [(path, .file name content)]
  | .directory name entries =>
    (path, .directory name entries) :: visitEntries skip path entries

/-- The entries of the directory at `path` and what lies below them. -/
def visitEntries (skip : FileTree → Bool) (path : Text) :
    List FileTree → List (Text × FileTree)
  | [] => []
  | entry :: rest =>
    (if skip entry then [] else visit skip (Path.join path entry.name) entry)
      ++ visitEntries skip path rest

end

/-- The files below a node, at `path`, with their paths. -/
def files (path : Text) (tree : FileTree) : List (Text × Text) :=
  (visit (fun _ => false) path tree).filterMap fun
    | (path, .file _ content) => some (path, content)
    | (_, .directory _ _) => none

/-! ## Contents -/

mutual

/-- The contents of the files at and below a node. -/
def contents : FileTree → List Text
  | .file _ content => [content]
  | .directory _ entries => contentsOf entries

/-- The contents of the files at and below nodes. -/
def contentsOf : List FileTree → List Text
  | [] => []
  | entry :: rest => entry.contents ++ contentsOf rest

end

theorem contents_subset_contentsOf {entry : FileTree} {entries : List FileTree}
    (among : entry ∈ entries) : entry.contents ⊆ contentsOf entries := by
  induction entries with
  | nil => cases among
  | cons first rest ih =>
    rw [contentsOf]
    cases among with
    | head => exact List.subset_append_left _ _
    | tail _ later => exact fun _ inside => List.mem_append_right _ (ih later inside)

/-- A path leads to nothing but what is there from the start: in the node that it
is followed from or in the directories above. -/
theorem contents_follow_subset {here found : FileTree} {above : List FileTree}
    {elements : List Text} {texts : List Text} (inside : here.contents ⊆ texts)
    (outside : ∀ parent ∈ above, parent.contents ⊆ texts)
    (followed : follow here above elements = .ok found) : found.contents ⊆ texts := by
  induction elements generalizing here above with
  | nil =>
    have same : here = found := by cases here <;> simpa [follow] using followed
    exact same ▸ inside
  | cons element rest ih =>
    cases here with
    | file name content => cases followed
    | directory name entries =>
      unfold follow at followed
      split at followed
      · exact ih inside outside followed
      · split at followed
        · cases above with
          | nil => exact ih inside outside followed
          | cons parent more =>
            exact ih (outside parent List.mem_cons_self)
              (fun other among => outside other (List.mem_cons_of_mem parent among)) followed
        · split at followed
          case h_1 entry taken =>
            have below : entry.contents ⊆ texts := fun _ within =>
              inside (contents_subset_contentsOf (List.mem_of_find?_eq_some taken) within)
            apply ih below _ followed
            intro parent among
            cases among with
            | head => exact inside
            | tail _ farther => exact outside parent farther
          case h_2 => cases followed

end FileTree

namespace FileSystem

/-- What can be read from a system is the content of one of its files. -/
theorem mem_contents_of_readFile {system : FileSystem} {path text : Text}
    (read : system.readFile path = .ok text) : text ∈ system.root.contents := by
  unfold readFile at read
  split at read
  case h_1 name content resolved =>
    cases read
    unfold resolve at resolved
    split at resolved
    · cases resolved
    · have kept := FileTree.contents_follow_subset (List.Subset.refl _) (by simp) resolved
      exact kept (by simp [FileTree.contents])
  case h_2 => cases read
  case h_3 => cases read

/-- Visit what a path leads to. -/
def visit (system : FileSystem) (skip : FileTree → Bool) (path : Text) :
    Except SystemError (List (Text × FileTree)) :=
  match system.resolve path with
  | .ok tree => .ok (tree.visit skip path)
  | .error cause => .error ⟨"lstat", path, cause⟩

/-- The schema files below a directory, as paths relative to it.  Excluded
directories are not entered. -/
def discover (system : FileSystem) (directory : Text) (exclude : List Text) :
    Except SystemError (List Text) := do
  let visited ←
    system.visit (fun tree => tree.isDirectory && isExcluded exclude tree.name) directory
  return visited.filterMap fun (path, tree) =>
    if !tree.isDirectory && Text.endsWith path ".proto" then Path.relative? directory path
    else none

end FileSystem

end Protoclass
