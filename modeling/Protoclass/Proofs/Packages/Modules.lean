import Protoclass.Proofs.Packages.Paths

/-!
# The modules of a package

The path of a generated file is that of a module: names with slashes between and
the extension behind.  The module of a schema file has the names of its package and
the stem of the file, the manifest is the module `__init__` of its package, and a
package packed flat is the module of its own names.
-/

namespace Protoclass

open Text (slash dot)
open Protoclass.Path (Proper Leads)

theorem Text.splitOn_replaceByte {old new : UInt8} {text : Text} (absent : new ∉ text) :
    Text.splitOn new (Text.replaceByte old new text) = Text.splitOn old text := by
  induction text with
  | nil => rfl
  | cons b text ih =>
    rw [List.mem_cons, not_or] at absent
    have rest := ih absent.2
    rw [Text.replaceByte] at rest
    rw [Text.replaceByte, List.map_cons]
    by_cases same : b = old
    · subst same
      rw [if_pos rfl, Text.splitOn_cons_self, Text.splitOn_cons_self, rest]
    · obtain ⟨piece, pieces, split⟩ := Text.exists_splitOn_eq_cons old text
      rw [if_neg same, Text.splitOn_cons_of_ne same split]
      rw [split] at rest
      exact Text.splitOn_cons_of_ne (Ne.symm absent.1) rest

namespace Package

/-! ## Modules -/

/-- The path of the module with given names. -/
def filePath (module : List Text) : Text :=
  Text.join "/" module ++ extension

theorem filePath_concat (above : List Text) (last : Text) :
    filePath (above ++ [last]) = Text.join "/" (above ++ [last ++ extension]) := by
  cases above with
  | nil => rfl
  | cons first above =>
    rw [filePath, List.cons_append, List.cons_append, Text.join_concat, Text.join_concat,
      List.append_assoc]

theorem filePath_injOn {module module' : List Text} (nonempty : module ≠ [])
    (nonempty' : module' ≠ []) (undivided : ∀ name ∈ module, slash ∉ name)
    (undivided' : ∀ name ∈ module', slash ∉ name) (same : filePath module = filePath module') :
    module = module' := by
  have joined : Text.join "/" module = Text.join "/" module' := List.append_cancel_right same
  calc
    module = Text.splitOn slash (Text.join "/" module) :=
      (Text.splitOn_join nonempty undivided).symm
    _ = Text.splitOn slash (Text.join "/" module') := congrArg _ joined
    _ = module' := Text.splitOn_join nonempty' undivided'

/-- The package has no name, or a dotted one: names, such as identifiers, that are
not empty and have no slash. -/
def Dotted (package : Text) : Prop :=
  package = [] ∨ ∀ name ∈ segments package, name ≠ [] ∧ slash ∉ name

instance (package : Text) : Decidable (Dotted package) :=
  inferInstanceAs (Decidable (_ ∨ _))

/-- The names that the modules of a package start with. -/
def nest (package : Text) : List Text :=
  if package.isEmpty then [] else segments package

/-- The name of a file's module as its path shows it: in a package without a name,
that of a file of slashes only stays a slash. -/
def shownName (package file : Text) : Text :=
  if package.isEmpty then moduleName file else slotName file

/-- The module of a file. -/
def fileNames (package file : Text) : List Text :=
  nest package ++ (shownName package file).splitOn slash

/-- The module that re-exports the others of a package. -/
def manifestNames (package : Text) : List Text :=
  nest package ++ [Text.ofString "__init__"]

/-- The module of a package packed flat. -/
def flatNames (package : Text) : List Text :=
  if package.isEmpty then manifestNames package else nest package

theorem segments_injective : Function.Injective segments := by
  intro package package' same
  calc
    package = Text.join [dot] (segments package) := (Text.join_splitOn dot package).symm
    _ = Text.join [dot] (segments package') := congrArg _ same
    _ = package' := Text.join_splitOn dot package'

theorem nest_injective : Function.Injective nest := by
  intro package package' same
  have named : ∀ text : Text, segments text ≠ [] := Text.splitOn_ne_nil dot
  unfold nest at same
  split at same <;> split at same
  case isTrue.isTrue empty empty' =>
    rw [List.isEmpty_iff.mp empty, List.isEmpty_iff.mp empty']
  case isTrue.isFalse => exact absurd same.symm (named package')
  case isFalse.isTrue => exact absurd same (named package)
  case isFalse.isFalse => exact segments_injective same

/-- A name below a package is one more segment. -/
theorem nest_qualify (package : Text) {name : Text} (given : name ≠ []) (single : dot ∉ name) :
    nest (qualify package name) = nest package ++ [name] := by
  have alone : segments name = [name] := Text.splitOn_eq_singleton single
  unfold nest qualify
  by_cases empty : package.isEmpty = true
  · rw [if_pos empty, if_pos empty, if_neg (by simpa using given), alone]
    rfl
  · have joined : segments (package ++ "." ++ name) = segments package ++ segments name := by
      rw [List.append_assoc]
      exact Text.splitOn_append_cons dot package name
    rw [if_neg empty, if_neg empty, if_neg (by simp [given]), joined, alone]

/-- The modules that are written for a package. -/
def modulesWritten (options : Options) (package : Text) (files : List FileDescriptor) :
    List (List Text) :=
  match output package options.packages with
  | .full =>
    if options.flatPack && !files.isEmpty then [flatNames package]
    else files.map (fun file => fileNames package file.name) ++ [manifestNames package]
  | .placeholder => [manifestNames package]
  | .nothing => []

section

variable {package : Text} (dotted : Dotted package)

include dotted

theorem Dotted.of_mem_nest {name : Text} (member : name ∈ nest package) :
    name ≠ [] ∧ slash ∉ name := by
  unfold nest at member
  split at member
  case isTrue => contradiction
  case isFalse named =>
    rcases dotted with rfl | each
    · exact absurd rfl named
    · exact each name member

theorem Dotted.slash_notMem : slash ∉ package := by
  rcases dotted with rfl | each
  · exact List.not_mem_nil
  · intro member
    rw [← Text.join_splitOn dot package] at member
    rcases Text.mem_join member with inDot | ⟨name, among, inName⟩
    · exact absurd inDot (by decide)
    · exact (each name among).2 inName

theorem Dotted.splitOn_directory (given : package ≠ []) :
    (directory package).splitOn slash = nest package := by
  rw [nest, if_neg (by simpa using given), directory,
    Text.splitOn_replaceByte dotted.slash_notMem]
  rfl

theorem Dotted.directory_eq : directory package = Text.join "/" (nest package) := by
  by_cases empty : package = []
  · rw [empty]
    rfl
  · rw [← dotted.splitOn_directory empty, Text.ofString_slash, Text.join_splitOn]

theorem Dotted.isAbsolute_directory : Path.isAbsolute (directory package) = false := by
  rw [dotted.directory_eq]
  cases nested : nest package with
  | nil => rfl
  | cons name names =>
    obtain ⟨given, undivided⟩ := dotted.of_mem_nest (nested ▸ List.mem_cons_self)
    exact Path.isAbsolute_join given undivided names

theorem Dotted.proper_of_mem_nest {name : Text} (member : name ∈ nest package) : Proper name := by
  have given : package ≠ [] := by
    rintro rfl
    contradiction
  have plain : dot ∉ name := by
    intro inName
    rw [← dotted.splitOn_directory given] at member
    exact dot_notMem_directory package (Text.mem_of_mem_splitOn member inName)
  refine ⟨(dotted.of_mem_nest member).1, ?_, ?_⟩ <;>
  · rintro rfl
    exact plain (by decide)

theorem Dotted.leads_directory : Leads (directory package) (nest package) := by
  refine ⟨(leads_of_dot_notMem (dot_notMem_directory package)).down, ?_⟩
  by_cases empty : package = []
  · rw [empty]
    rfl
  · rw [Path.names, dotted.splitOn_directory empty, List.filter_eq_self]
    exact fun name member => decide_eq_true (dotted.proper_of_mem_nest member)

/-- A file behind the directory of a package with a name. -/
theorem Dotted.join_directory_eq (given : package ≠ []) {file name : Text}
    (leads : Leads file [name ++ extension]) :
    Path.join (directory package) file = filePath (nest package ++ [name]) := by
  have behind := dotted.leads_directory.append_slash leads
  have given' : directory package ≠ [] := by
    simpa [directory, Text.replaceByte] using given
  have relative : Path.isAbsolute (directory package ++ slash :: file) = false := by
    rw [← dotted.isAbsolute_directory]
    obtain ⟨b, rest, split⟩ := List.exists_cons_of_ne_nil given'
    rw [split]
    rfl
  rw [Path.join, if_neg (by simpa using given'), List.append_assoc, Text.ofString_slash,
    List.singleton_append, behind.clean_eq relative (by simp), filePath_concat]

theorem Dotted.modulePath_eq (file : Text) :
    modulePath package file = filePath (fileNames package file) := by
  by_cases empty : package = []
  · subst empty
    have joined : modulePath [] file = Path.clean (moduleName file ++ extension) := by
      have nowhere : (directory []).isEmpty = true := rfl
      rw [modulePath, Path.join, if_pos nowhere, if_neg (by simp [extension, Text.ofString])]
    have names_eq : filePath (fileNames [] file) = moduleName file ++ extension :=
      congrArg (· ++ extension) (Text.join_splitOn slash (moduleName file))
    rw [joined, names_eq]
    rcases moduleName_eq_or file with only | undivided
    · rw [only]
      decide
    · have relative : Path.isAbsolute (moduleName file ++ extension) = false := by
        cases named : moduleName file with
        | nil => rfl
        | cons b rest =>
          rw [named, List.mem_cons, not_or] at undivided
          simpa [Path.isAbsolute] using Ne.symm undivided.1
      rw [(leads_moduleFile file).clean_eq relative (List.cons_ne_nil _ _),
        slotName_eq_of_notMem undivided]
      rfl
  · rw [fileNames, shownName, if_neg (by simpa using empty),
      Text.splitOn_eq_singleton (slash_notMem_slotName file)]
    exact dotted.join_directory_eq empty (leads_moduleFile file)

theorem Dotted.manifestPath_eq : manifestPath package = filePath (manifestNames package) := by
  by_cases empty : package = []
  · subst empty
    decide
  · exact dotted.join_directory_eq empty leads_manifestName

theorem Dotted.flatPath_eq : flatPath package = filePath (flatNames package) := by
  unfold flatPath flatNames
  split
  case isTrue empty =>
    obtain rfl := List.isEmpty_iff.mp empty
    decide
  case isFalse => rw [filePath, ← dotted.directory_eq]

theorem Dotted.paths_eq (options : Options) (files : List FileDescriptor) :
    paths options package files = (modulesWritten options package files).map filePath := by
  unfold paths modulesWritten
  cases output package options.packages with
  | full =>
    dsimp only
    split
    · rw [dotted.flatPath_eq]
      rfl
    · simp only [dotted.modulePath_eq, dotted.manifestPath_eq, List.map_append, List.map_map]
      rfl
  | placeholder =>
    rw [dotted.manifestPath_eq]
    rfl
  | nothing => rfl

omit dotted in
theorem eq_of_mem_modulesWritten {options : Options} {files : List FileDescriptor}
    {module : List Text} (member : module ∈ modulesWritten options package files) :
    module = manifestNames package ∨
      (options.flatPack = true ∧ package ≠ [] ∧ module = nest package) ∨
        ∃ file ∈ files, module = fileNames package file.name := by
  unfold modulesWritten at member
  split at member
  case h_1 =>
    split at member
    case isTrue flat =>
      rw [List.mem_singleton, flatNames] at member
      split at member
      case isTrue => exact .inl member
      case isFalse named =>
        have flat' : options.flatPack = true := by simp_all
        exact .inr (.inl ⟨flat', by simpa using named, member⟩)
    case isFalse =>
      rcases List.mem_append.mp member with inFiles | isManifest
      · obtain ⟨file, among, same⟩ := List.mem_map.mp inFiles
        exact .inr (.inr ⟨file, among, same.symm⟩)
      · exact .inl (List.mem_singleton.mp isManifest)
  case h_2 => exact .inl (List.mem_singleton.mp member)
  case h_3 => contradiction

omit dotted in
theorem fileNames_eq_or (package file : Text) :
    fileNames package file = nest package ++ [shownName package file] ∧
        slash ∉ shownName package file ∨
      package = [] ∧ fileNames package file = [[], []] := by
  unfold fileNames shownName
  split
  case isTrue empty =>
    obtain rfl := List.isEmpty_iff.mp empty
    rcases moduleName_eq_or file with only | undivided
    · rw [only]
      exact .inr ⟨rfl, by decide⟩
    · exact .inl ⟨by rw [Text.splitOn_eq_singleton undivided], undivided⟩
  case isFalse =>
    have undivided := slash_notMem_slotName file
    exact .inl ⟨by rw [Text.splitOn_eq_singleton undivided], undivided⟩

omit dotted in
theorem nest_ne_nil (named : package ≠ []) : nest package ≠ [] := by
  rw [nest, if_neg (by simpa using named)]
  exact Text.splitOn_ne_nil dot package

theorem Dotted.slash_notMem_nest : ∀ name ∈ nest package, slash ∉ name :=
  fun _ member => (dotted.of_mem_nest member).2

/-- A module that is written for a package has names, and none of them is divided. -/
theorem Dotted.of_mem_modulesWritten {options : Options} {files : List FileDescriptor}
    {module : List Text} (member : module ∈ modulesWritten options package files) :
    module ≠ [] ∧ ∀ name ∈ module, slash ∉ name := by
  rcases eq_of_mem_modulesWritten member with rfl | ⟨-, named, rfl⟩ | ⟨file, -, rfl⟩
  · rw [manifestNames, List.forall_mem_append, List.forall_mem_singleton]
    exact ⟨by simp, dotted.slash_notMem_nest, by decide⟩
  · exact ⟨nest_ne_nil named, dotted.slash_notMem_nest⟩
  · rw [fileNames, List.forall_mem_append]
    refine ⟨?_, dotted.slash_notMem_nest, fun _ => Text.notMem_of_mem_splitOn⟩
    exact List.append_ne_nil_of_right_ne_nil _ (Text.splitOn_ne_nil slash _)

/-! ## Places below an output directory -/

omit dotted in
theorem leads_filePath {above : List Text} {last : Text}
    (proper : ∀ name ∈ above, Proper name ∧ slash ∉ name) (undivided : slash ∉ last) :
    Leads (filePath (above ++ [last])) (above ++ [last ++ extension]) := by
  have written : filePath (above ++ [last]) =
      Path.ofElements false (above ++ [last ++ extension]) := by
    rw [filePath_concat, Path.ofElements, if_neg Bool.false_ne_true, if_neg (by simp)]
  rw [written]
  apply Path.leads_ofElements
  rw [List.forall_mem_append, List.forall_mem_singleton]
  refine ⟨proper, proper_append_extension last, ?_⟩
  rw [List.mem_append, not_or]
  exact ⟨undivided, by decide⟩

/-- A relative path that is written is the names that it leads through. -/
theorem Dotted.exists_leads_of_mem {options : Options} {files : List FileDescriptor}
    {module : List Text} (member : module ∈ modulesWritten options package files)
    (relative : Path.isAbsolute (filePath module) = false) :
    ∃ through, Leads (filePath module) through ∧ filePath module = Text.join "/" through := by
  have nested : ∀ name ∈ nest package, Proper name ∧ slash ∉ name := fun name member =>
    ⟨dotted.proper_of_mem_nest member, dotted.slash_notMem_nest name member⟩
  rcases eq_of_mem_modulesWritten member with rfl | ⟨-, named, rfl⟩ | ⟨file, -, rfl⟩
  · exact ⟨_, leads_filePath nested (by decide), filePath_concat _ _⟩
  · have nonempty := nest_ne_nil named
    have last := (nested _ (List.getLast_mem nonempty)).2
    rw [← List.dropLast_concat_getLast nonempty]
    refine ⟨_, leads_filePath ?_ last, filePath_concat _ _⟩
    exact fun name member => nested name (List.dropLast_subset _ member)
  · rcases fileNames_eq_or package file.name with ⟨names_eq, undivided⟩ | ⟨rfl, names_eq⟩
    · rw [names_eq]
      exact ⟨_, leads_filePath nested undivided, filePath_concat _ _⟩
    · rw [names_eq] at relative
      contradiction

end

end Package

end Protoclass
