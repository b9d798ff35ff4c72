import Protoclass.Dataclass.Package
import Protoclass.Proofs.Text.Lines

/-!
# From dependencies to imports

A package under the reserved root is a list of names below it.  The path of one
of its files is the package with slashes for dots, a module and `.proto`, and is
read back as that package and that module.
-/

namespace Protoclass

/-! ## Names -/

/-- The bytes of a name in a dotted package. -/
structure IsName (name : Text) : Prop where
  nonempty : name ≠ []
  noDot : Text.dot ∉ name
  noSlash : Text.slash ∉ name
  noNewline : Text.newline ∉ name

/-- The package that consists of the reserved root and names below it. -/
def rooted (names : List Text) : Text :=
  Text.join "." (TypeHint.reservedRoot :: names)

theorem rooted_concat (above : List Text) (last : Text) :
    rooted (above ++ [last]) = rooted above ++ "." ++ last :=
  Text.join_concat _ _ above last

theorem rooted_cons (name : Text) (names : List Text) :
    rooted (name :: names) = TypeHint.reservedRoot ++ "." ++ Text.join "." (name :: names) := rfl

/-- A byte that no name of a package has is in the package only if it is in the
root or is the dot. -/
theorem notMem_rooted {b : UInt8} {names : List Text} (root : b ∉ TypeHint.reservedRoot)
    (separator : b ≠ Text.dot) (absent : ∀ name ∈ names, b ∉ name) : b ∉ rooted names := by
  intro member
  rcases Text.mem_join member with inDot | ⟨piece, among, inPiece⟩
  · exact separator (List.mem_singleton.mp inDot)
  · rcases List.mem_cons.mp among with rfl | among
    · exact root inPiece
    · exact absent piece among inPiece

/-! ## Last names -/

theorem forall_mem_reverse_bne {sep : UInt8} {text : Text} (absent : sep ∉ text) :
    ∀ b ∈ text.reverse, (b != sep) = true := by
  intro b member
  rw [bne_iff_ne]
  rintro rfl
  exact absent (List.mem_reverse.mp member)

/-- What stands behind the last separator. -/
theorem reverse_takeWhile_reverse {sep : UInt8} {front back : Text} (absent : sep ∉ back) :
    ((front ++ sep :: back).reverse.takeWhile (· != sep)).reverse = back := by
  rw [List.reverse_append, List.reverse_cons, List.append_assoc,
    List.takeWhile_append_of_pos (forall_mem_reverse_bne absent)]
  simp

theorem reverse_takeWhile_reverse_self {sep : UInt8} {text : Text} (absent : sep ∉ text) :
    (text.reverse.takeWhile (· != sep)).reverse = text := by
  have whole : (text.reverse ++ []).takeWhile (· != sep) = text.reverse ++ [] :=
    List.takeWhile_append_of_pos (forall_mem_reverse_bne absent)
  rw [List.append_nil] at whole
  rw [whole, List.reverse_reverse]

theorem lastName_concat {parent last : Text} (noDot : Text.dot ∉ last) :
    Import.lastName (parent ++ "." ++ last) = last := by
  rw [List.append_assoc]
  exact reverse_takeWhile_reverse noDot

theorem dot_notMem_lastName (package : Text) : Text.dot ∉ Import.lastName package := by
  intro member
  rw [Import.lastName, List.mem_reverse] at member
  have kept := List.all_eq_true.mp List.all_takeWhile _ member
  simp at kept

/-! ## Paths -/

theorem replaceByte_replaceByte {old new : UInt8} {text : Text} (absent : new ∉ text) :
    Text.replaceByte new old (Text.replaceByte old new text) = text := by
  rw [Text.replaceByte, Text.replaceByte, List.map_map]
  conv => rhs; rw [← List.map_id text]
  apply List.map_congr_left
  intro b member
  have other : b ≠ new := by
    rintro rfl
    exact absent member
  by_cases same : b = old <;> simp [same, other]

theorem directory_append (front back : Text) :
    Package.directory (front ++ back) = Package.directory front ++ Package.directory back :=
  List.map_append

theorem newline_notMem_directory {package : Text} (absent : Text.newline ∉ package) :
    Text.newline ∉ Package.directory package := by
  rw [Package.directory, Text.replaceByte, List.mem_map]
  rintro ⟨b, member, replaced⟩
  split at replaced
  · contradiction
  · exact absent (replaced ▸ member)

/-- The path of a file of a package. -/
def filePath (package module : Text) : Text :=
  Package.directory package ++ "/" ++ module ++ ".proto"

/-- The path is that of a module in a directory below the reserved root.  The directory
is the root, a slash and more, on one line; the module is not empty and has no slash. -/
structure Dependency.LiesAt (path directory module : Text) : Prop where
  path_eq : path = directory ++ "/" ++ module ++ ".proto"
  given : module ≠ []
  undivided : Text.slash ∉ module
  below : ∃ below, directory = TypeHint.reservedRoot ++ "/" ++ below ∧ below ≠ [] ∧
    Text.newline ∉ below

/-- A path is read as a dependency exactly when it is that of a module below the root, and
then by its last slash. -/
theorem Dependency.ofPath?_eq_some_iff {path : Text} {dependency : Dependency} :
    ofPath? path = some dependency ↔ ∃ directory, LiesAt path directory dependency.module ∧
      dependency.package = Text.replaceByte Text.slash Text.dot directory := by
  simp only [ofPath?, Option.bind_eq_bind, Option.bind_eq_some_iff, Text.before?_eq_some_iff,
    Text.after?_eq_some_iff]
  constructor
  · rintro ⟨stem, rfl, directory, split, below, rooted, read⟩
    split at read
    case isTrue => contradiction
    case isFalse kept =>
      cases read
      simp only [Bool.or_eq_true, List.isEmpty_iff, List.contains_eq_mem, decide_eq_true_eq,
        not_or] at kept
      refine ⟨directory, ⟨?_, kept.1.1, ?_, below, rooted, kept.1.2, kept.2⟩, rfl⟩
      · conv => lhs; rw [split]
        simp only [List.append_assoc]
      · rw [List.mem_reverse]
        intro member
        have other := List.all_eq_true.mp List.all_takeWhile _ member
        simp at other
  · rintro ⟨directory, ⟨rfl, given, undivided, below, rooted, nonempty, oneLine⟩, package_eq⟩
    have last : ((directory ++ "/" ++ dependency.module).reverse.takeWhile
        (· != Text.slash)).reverse = dependency.module := by
      rw [List.append_assoc]
      exact reverse_takeWhile_reverse undivided
    refine ⟨directory ++ "/" ++ dependency.module, rfl, directory, ?_, below, rooted, ?_⟩
    · rw [last, List.append_assoc]
    · rw [last]
      simp [given, nonempty, oneLine, ← package_eq]

/-- The path of a file under the root is read back as its package and module. -/
theorem ofPath?_filePath {name : Text} {names : List Text} {module : Text}
    (plain : ∀ part ∈ name :: names, IsName part) (nonempty : module ≠ [])
    (noSlash : Text.slash ∉ module) :
    Dependency.ofPath? (filePath (rooted (name :: names)) module) =
      some { package := rooted (name :: names), module } := by
  have someBelow : Package.directory (Text.join "." (name :: names)) ≠ [] := by
    obtain ⟨b, rest, spelled⟩ := List.exists_cons_of_ne_nil (plain name List.mem_cons_self).nonempty
    subst spelled
    cases names <;> exact List.cons_ne_nil _ _
  have oneLine : Text.newline ∉ Package.directory (Text.join "." (name :: names)) := by
    apply newline_notMem_directory
    intro member
    rcases Text.mem_join member with inDot | ⟨part, among, inPart⟩
    · exact absurd inDot (by decide)
    · exact (plain part among).noNewline inPart
  have packageNoSlash : Text.slash ∉ rooted (name :: names) :=
    notMem_rooted (by decide) (by decide) fun part member => (plain part member).noSlash
  refine Dependency.ofPath?_eq_some_iff.mpr ⟨Package.directory (rooted (name :: names)),
    ⟨rfl, nonempty, noSlash, _, ?_, someBelow, oneLine⟩, ?_⟩
  · rw [rooted_cons, directory_append]
    rfl
  · exact (replaceByte_replaceByte packageNoSlash).symm

end Protoclass
