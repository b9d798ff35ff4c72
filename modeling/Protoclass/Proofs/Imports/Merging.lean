import Protoclass.Proofs.Imports.Resolution
import Protoclass.Proofs.Occurrences

/-!
# Merged import blocks

The imports of a block are the first occurrences among all that its dependencies
ask for.  A block that several files add to, without siblings, therefore has the
imports of other packages that the files have on their own, each once and in order
of first use.  The statement of such an import determines the package, so the same
is true of the statements.
-/

namespace Protoclass

/-! ## Packages and their statements -/

namespace Import

/-- Whether another package is imported, rather than a sibling. -/
def isPackage : Import → Bool
  | .sibling _ => false
  | .package _ => true

theorem lastName_append {package suffix : Text} (noDot : Text.dot ∉ suffix) :
    lastName (package ++ suffix) = lastName package ++ suffix := by
  rw [lastName, lastName, List.reverse_append,
    List.takeWhile_append_of_pos (forall_mem_reverse_bne noDot), List.reverse_append,
    List.reverse_reverse]

theorem moduleOf_below (target below : Text) :
    moduleOf target (TypeHint.reservedRoot ++ "." ++ below) = target ++ "." ++ below := rfl

/-- A package below the reserved root is known by the statement that imports it. -/
theorem statement_package_injective {target first second : Text}
    (same : statement target (.package (TypeHint.reservedRoot ++ "." ++ first)) =
      statement target (.package (TypeHint.reservedRoot ++ "." ++ second))) : first = second := by
  have unended := List.append_cancel_right same
  rw [moduleOf_below, moduleOf_below] at unended
  -- The last name stands twice at the end of the statement, and it has no dot.
  have twice : ∀ below : Text,
      lastName (TypeHint.reservedRoot ++ "." ++ (below ++ (" as " ++ lastName
        (TypeHint.reservedRoot ++ "." ++ below)))) =
        lastName (TypeHint.reservedRoot ++ "." ++ below) ++ (" as " ++ lastName
          (TypeHint.reservedRoot ++ "." ++ below)) := by
    intro below
    rw [← List.append_assoc, lastName_append]
    rw [List.mem_append, not_or]
    exact ⟨by decide, dot_notMem_lastName _⟩
  have written : first ++ (" as " ++ lastName (TypeHint.reservedRoot ++ "." ++ first)) =
      second ++ (" as " ++ lastName (TypeHint.reservedRoot ++ "." ++ second)) := by
    simpa only [List.append_assoc, List.append_cancel_left_eq] using unended
  have names : lastName (TypeHint.reservedRoot ++ "." ++ first) =
      lastName (TypeHint.reservedRoot ++ "." ++ second) := by
    have ends := congrArg (fun text => lastName (TypeHint.reservedRoot ++ "." ++ text)) written
    simp only [twice] at ends
    refine (List.append_inj' ends ?_).1
    have lengths := congrArg List.length ends
    simp only [List.length_append] at lengths ⊢
    omega
  rw [names] at written
  exact List.append_cancel_right written

end Import

theorem Dependency.package_of_ofPath? {path : Text} {dependency : Dependency}
    (read : Dependency.ofPath? path = some dependency) :
    ∃ below, dependency.package = TypeHint.reservedRoot ++ "." ++ below := by
  obtain ⟨directory, lies, package_eq⟩ := ofPath?_eq_some_iff.mp read
  obtain ⟨below, rfl, -⟩ := lies.below
  exact ⟨Text.replaceByte Text.slash Text.dot below, package_eq.trans List.map_append⟩

/-! ## Imports of one file and of several -/

namespace ImportBlock

/-- An import of another package, as a dependency asks for it, is of one below the root. -/
theorem below_of_importOf? {package path name : Text} {skipSiblings : Bool}
    (asked : importOf? package skipSiblings path = some (.package name)) :
    ∃ below, name = TypeHint.reservedRoot ++ "." ++ below := by
  rw [importOf?, Option.bind_eq_bind, Option.bind_eq_some_iff] at asked
  obtain ⟨dependency, read, asked⟩ := asked
  split at asked
  · split at asked <;> cases asked
  · cases asked
    exact Dependency.package_of_ofPath? read

/-- Imports that dependencies ask for are told apart by their statements. -/
theorem statement_injOn_asked {package target : Text} {path path' : Text}
    {skipSiblings skipSiblings' : Bool} {first second : Import}
    (asked : importOf? package skipSiblings path = some first)
    (asked' : importOf? package skipSiblings' path' = some second)
    (same : Import.statement target first = Import.statement target second) : first = second := by
  cases first with
  | sibling module =>
    cases second with
    | sibling module' =>
      have inner := List.append_cancel_left (List.append_cancel_right same)
      rw [inner]
    | package name => exact absurd (List.head_eq_of_cons_eq same) (by decide)
  | package name =>
    cases second with
    | sibling module => exact absurd (List.head_eq_of_cons_eq same) (by decide)
    | package name' =>
      obtain ⟨below, rfl⟩ := below_of_importOf? asked
      obtain ⟨below', rfl⟩ := below_of_importOf? asked'
      rw [Import.statement_package_injective same]

/-- Imports of other packages are told apart by their statements. -/
theorem statement_injOn_packages {package target : Text} {paths : List Text} :
    ∀ first ∈ paths.filterMap (importOf? package true),
      ∀ second ∈ paths.filterMap (importOf? package true),
        Import.statement target first = Import.statement target second → first = second := by
  intro first member second among
  obtain ⟨path, -, asked⟩ := List.mem_filterMap.mp member
  obtain ⟨path', -, asked'⟩ := List.mem_filterMap.mp among
  exact statement_injOn_asked asked asked'

/-- The statements that import other packages, in order. -/
def aliased (block : ImportBlock) : List Text :=
  (block.imports.filter Import.isPackage).map (Import.statement block.target)

@[simp]
theorem package_add (block : ImportBlock) (new : Import) :
    (block.add new).package = block.package := by
  rw [add]
  split <;> rfl

@[simp]
theorem package_addDependencies (block : ImportBlock) (paths : List Text) (skipSiblings : Bool) :
    (block.addDependencies paths skipSiblings).package = block.package := by
  rw [addDependencies]
  induction paths.filterMap (importOf? block.package skipSiblings) generalizing block with
  | nil => rfl
  | cons new news ih => rw [List.foldl_cons, ih, package_add]

theorem addDependencies_append (block : ImportBlock) (first second : List Text)
    (skipSiblings : Bool) :
    block.addDependencies (first ++ second) skipSiblings =
      (block.addDependencies first skipSiblings).addDependencies second skipSiblings := by
  conv => rhs; rw [addDependencies, package_addDependencies]
  rw [addDependencies, List.filterMap_append, List.foldl_append, addDependencies]

/-- Imports that are added one by one are there without repetitions. -/
theorem imports_foldl_add {block : ImportBlock} {asked : List Import}
    (held : block.imports = asked.eraseDups) (news : List Import) :
    (news.foldl add block).imports = (asked ++ news).eraseDups := by
  induction news using List.reverseRecOn with
  | nil => rw [List.append_nil, List.foldl_nil, held]
  | append_singleton news new ih =>
    have seen_iff : new ∈ (news.foldl add block).imports ↔ new ∈ asked ++ news := by
      rw [ih, List.mem_eraseDups]
    rw [List.foldl_append, List.foldl_cons, List.foldl_nil, ← List.append_assoc, eraseDups_concat,
      add]
    by_cases seen : new ∈ asked ++ news
    · rw [if_pos (seen_iff.mpr seen), if_pos seen, ih, List.append_nil]
    · rw [if_neg (mt seen_iff.mp seen), if_neg seen, ih]

/-- What is imported is what the dependencies ask for, without repetitions. -/
theorem imports_addDependencies (package target : Text) (paths : List Text)
    (skipSiblings : Bool) :
    (({ package, target } : ImportBlock).addDependencies paths skipSiblings).imports =
      (paths.filterMap (importOf? package skipSiblings)).eraseDups :=
  @imports_foldl_add _ [] rfl _

theorem importOf?_skip_siblings (package path : Text) :
    importOf? package true path = (importOf? package false path).filter Import.isPackage := by
  rw [importOf?, importOf?]
  cases Dependency.ofPath? path with
  | none => rfl
  | some dependency =>
    simp only [Option.bind_eq_bind, Option.bind_some]
    split <;> rfl

end ImportBlock

end Protoclass
