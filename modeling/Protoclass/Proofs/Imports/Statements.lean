import Protoclass.Proofs.Packages.FlatModule

/-!
# The statements of an import block

The statements of an import block are the images of the dependencies that were added to
it, each once and in order of first occurrence, over any number of additions.  A
dependency has an image when it is the path of a module below the reserved root; the
image of a sibling names the module that is written for the file at that path.
-/

namespace Protoclass

open Text (slash dot)

/-- The package of a directory: its names with dots between. -/
def dotted (directory : Text) : Text := Text.replaceByte slash dot directory

/-! ## Module names -/

/-- The extension of a path without slashes starts at its last dot. -/
theorem Path.extension_append_dot {front back : Text} (undivided : slash ∉ front ++ dot :: back)
    (single : dot ∉ back) : Path.extension (front ++ dot :: back) = dot :: back := by
  have last : Path.lastElement (front ++ dot :: back) = front ++ dot :: back :=
    reverse_takeWhile_reverse_self undivided
  rw [Path.extension, last, reverse_takeWhile_reverse single]
  simp

/-- The module that is written for the file at a path is the one that the path names. -/
theorem Dependency.LiesAt.moduleName_eq {path directory module : Text}
    (lies : LiesAt path directory module) : Package.moduleName path = module := by
  have last : slash ∉ module ++ Text.ofString ".proto" := by
    rw [List.mem_append, not_or]
    exact ⟨lies.undivided, by decide⟩
  have path_eq : path = directory ++ "/" ++ (module ++ ".proto") := by
    rw [lies.path_eq, List.append_assoc]
  have trimmed : Path.dropTrailingSlashes path = path := by
    have kept : ((Text.ofString ".proto").reverse ++
        (directory ++ "/" ++ module).reverse).dropWhile (· == slash) =
          (Text.ofString ".proto").reverse ++ (directory ++ "/" ++ module).reverse := rfl
    rw [Path.dropTrailingSlashes, lies.path_eq, List.reverse_append, kept, ← List.reverse_append,
      List.reverse_reverse]
  have base : Path.base path = module ++ ".proto" := by
    have given : path ≠ [] := by simp [path_eq]
    rw [Path.base, if_neg (by simpa using given)]
    simp only [trimmed]
    rw [if_neg (by simpa using given), path_eq, List.append_assoc]
    exact reverse_takeWhile_reverse last
  have extension : Path.extension (module ++ ".proto") = ".proto" :=
    Path.extension_append_dot last (by decide)
  rw [Package.moduleName, Path.stem, base, extension, Text.dropTail,
    Text.before?_eq_some_iff.mpr rfl]
  rfl

theorem Import.lastName_eq {package last : Text} {above : List Text}
    (names : package.splitOn dot = above ++ [last]) : Import.lastName package = last := by
  have noDot : dot ∉ last := by
    apply Text.notMem_of_mem_splitOn
    rw [names]
    simp
  have joined := Text.join_splitOn dot package
  rw [names] at joined
  cases above with
  | nil =>
    obtain rfl : last = package := joined
    exact reverse_takeWhile_reverse_self noDot
  | cons first above =>
    rw [← joined, List.cons_append, Text.join_concat]
    exact lastName_concat noDot

/-! ## Images of dependencies -/

namespace ImportBlock

open Dependency (LiesAt)

/-- The statement that a dependency makes a module of `package` have: for a sibling, unless
siblings are skipped, everything of its module; for another package, that package under
its last name, as it lies in the `target` package. -/
inductive Asks (package target : Text) (skipSiblings : Bool) (path : Text) : Text → Prop
  | sibling {directory module : Text} (lies : LiesAt path directory module)
      (own : dotted directory = package) (kept : skipSiblings = false) :
      Asks package target skipSiblings path ("from ." ++ module ++ " import *  # noqa\n")
  | package {directory below module last : Text} {above : List Text}
      (lies : LiesAt path directory module) (other : dotted directory ≠ package)
      (rooted : directory = TypeHint.reservedRoot ++ "/" ++ below)
      (names : (dotted directory).splitOn dot = above ++ [last]) :
      Asks package target skipSiblings path
        ("import " ++ target ++ "." ++ dotted below ++ " as " ++ last ++ "\n")

/-- The statement that a dependency asks for, if any. -/
def image (package target : Text) (skipSiblings : Bool) (path : Text) : Option Text :=
  (importOf? package skipSiblings path).map (Import.statement target)

theorem statement_package_of_names {target name directory below last : Text} {above : List Text}
    (name_eq : name = dotted directory) (rooted : directory = TypeHint.reservedRoot ++ "/" ++ below)
    (names : (dotted directory).splitOn dot = above ++ [last]) :
    Import.statement target (.package name) =
      "import " ++ target ++ "." ++ dotted below ++ " as " ++ last ++ "\n" := by
  have below_eq : dotted directory = TypeHint.reservedRoot ++ "." ++ dotted below := by
    rw [rooted, dotted, Text.replaceByte, List.map_append]
    rfl
  rw [Import.statement, name_eq, Import.lastName_eq names, below_eq, Import.moduleOf_below]
  simp only [List.append_assoc]

theorem image_eq_some_iff {package target path statement : Text} {skipSiblings : Bool} :
    image package target skipSiblings path = some statement ↔
      Asks package target skipSiblings path statement := by
  simp only [image, importOf?, Option.map_eq_some_iff, Option.bind_eq_bind, Option.bind_eq_some_iff,
    Dependency.ofPath?_eq_some_iff]
  constructor
  · rintro ⟨new, ⟨dependency, ⟨directory, lies, package_eq⟩, asked⟩, rfl⟩
    split at asked
    case isTrue own =>
      split at asked
      case isTrue => contradiction
      case isFalse kept =>
        cases asked
        exact .sibling lies (package_eq.symm.trans own) (Bool.eq_false_iff.mpr kept)
    case isFalse other =>
      cases asked
      obtain ⟨below, rooted, -⟩ := lies.below
      have names := (List.dropLast_concat_getLast
        (Text.splitOn_ne_nil dot (dotted directory))).symm
      have statement_eq : Import.statement target (.package dependency.package) = _ :=
        statement_package_of_names package_eq rooted names
      rw [statement_eq]
      exact .package lies (fun own => other (package_eq.trans own)) rooted names
  · intro asks
    cases asks with
    | @sibling directory module lies own kept =>
      refine ⟨.sibling module, ⟨⟨package, module⟩, ⟨directory, lies, own.symm⟩, ?_⟩, rfl⟩
      simp [kept]
    | @package directory below module last above lies other rooted names =>
      refine ⟨.package (dotted directory), ⟨⟨dotted directory, module⟩, ⟨directory, lies, rfl⟩, ?_⟩,
        statement_package_of_names rfl rooted names⟩
      simp [other]

/-! ## Any number of additions -/

/-- The block after several additions of dependencies, each with or without siblings. -/
def additions (package target : Text) (calls : List (List Text × Bool)) : ImportBlock :=
  calls.foldl (fun block call => block.addDependencies call.1 call.2) { package, target }

section

variable {package target : Text}

theorem additions_concat (calls : List (List Text × Bool)) (call : List Text × Bool) :
    additions package target (calls ++ [call]) =
      (additions package target calls).addDependencies call.1 call.2 :=
  List.foldl_concat ..

@[simp]
theorem package_additions (calls : List (List Text × Bool)) :
    (additions package target calls).package = package := by
  induction calls using List.reverseRecOn with
  | nil => rfl
  | append_singleton calls call ih => rw [additions_concat, package_addDependencies, ih]

@[simp]
theorem target_additions (calls : List (List Text × Bool)) :
    (additions package target calls).target = target := by
  induction calls using List.reverseRecOn with
  | nil => rfl
  | append_singleton calls call ih => rw [additions_concat, target_addDependencies, ih]

/-- One more addition goes on with what was asked for before. -/
theorem imports_additions (calls : List (List Text × Bool)) :
    (additions package target calls).imports =
      (calls.flatMap fun call => call.1.filterMap (importOf? package call.2)).eraseDups := by
  induction calls using List.reverseRecOn with
  | nil => rfl
  | append_singleton calls call ih =>
    rw [additions_concat, addDependencies, package_additions, imports_foldl_add ih,
      List.flatMap_append, List.flatMap_singleton]

theorem statements_additions (calls : List (List Text × Bool)) :
    (additions package target calls).statements =
      (calls.flatMap fun call => call.1.filterMap (image package target call.2)).eraseDups := by
  have asked : ∀ new ∈ calls.flatMap fun call => call.1.filterMap (importOf? package call.2),
      ∃ skipSiblings path, importOf? package skipSiblings path = some new := by
    intro new member
    obtain ⟨call, -, inCall⟩ := List.mem_flatMap.mp member
    obtain ⟨path, -, asked⟩ := List.mem_filterMap.mp inCall
    exact ⟨call.2, path, asked⟩
  have images : (calls.flatMap fun call => call.1.filterMap (image package target call.2)) =
      (calls.flatMap fun call => call.1.filterMap (importOf? package call.2)).map
        (Import.statement target) := by
    rw [List.map_flatMap]
    apply List.flatMap_congr
    intro call _
    rw [List.map_filterMap]
    rfl
  rw [statements, target_additions, imports_additions, images, eraseDups_map]
  intro first member second among
  obtain ⟨skipSiblings, path, asked₁⟩ := asked first member
  obtain ⟨skipSiblings', path', asked₂⟩ := asked second among
  exact statement_injOn_asked asked₁ asked₂

/-- Two dependencies on other packages have the same statement exactly when they are on
the same package. -/
theorem image_eq_image_iff {skipSiblings skipSiblings' : Bool}
    {path directory module path' directory' module' : Text} (lies : LiesAt path directory module)
    (lies' : LiesAt path' directory' module') (other : dotted directory ≠ package)
    (other' : dotted directory' ≠ package) :
    image package target skipSiblings path = image package target skipSiblings' path' ↔
      dotted directory = dotted directory' := by
  have asked : ∀ {skip : Bool} {path directory module : Text}, LiesAt path directory module →
      dotted directory ≠ package →
      importOf? package skip path = some (.package (dotted directory)) := by
    intro skip path directory module lies other
    have read : Dependency.ofPath? path = some ⟨dotted directory, module⟩ :=
      Dependency.ofPath?_eq_some_iff.mpr ⟨directory, lies, rfl⟩
    rw [importOf?, read, Option.bind_eq_bind, Option.bind_some, if_neg other]
  have asked₁ : importOf? package skipSiblings path = _ := asked lies other
  have asked₂ : importOf? package skipSiblings' path' = _ := asked lies' other'
  rw [image, image, asked₁, asked₂, Option.map_some, Option.map_some, Option.some_inj]
  constructor
  · intro same
    exact Import.package.inj (statement_injOn_asked asked₁ asked₂ same)
  · intro same
    rw [same]

end

/-- Whatever dependencies are added to a block, and whether with siblings or without, its
statements are the images of the dependencies, in order of first occurrence and each once;
and another package is imported once.  The module of a sibling is the one that is written
for the file at the path of the dependency. -/
theorem statements_are_images (package target : Text) (calls : List (List Text × Bool)) :
    let block := calls.foldl (fun block call => block.addDependencies call.1 call.2)
      ({ package, target } : ImportBlock)
    ∃ image : Bool → Text → Option Text,
      (∀ skipSiblings path statement, image skipSiblings path = some statement ↔
        Asks package target skipSiblings path statement) ∧
      block.statements =
        (calls.flatMap fun call => call.1.filterMap (image call.2)).eraseDups ∧
      block.statements.Nodup ∧
      (∀ {skipSiblings skipSiblings' : Bool}
          {path directory module path' directory' module' : Text},
        LiesAt path directory module → LiesAt path' directory' module' →
        dotted directory ≠ package → dotted directory' ≠ package →
        (image skipSiblings path = image skipSiblings' path' ↔
          dotted directory = dotted directory')) ∧
      ∀ {path directory module : Text}, LiesAt path directory module →
        dotted directory = package →
        module = Package.moduleName path ∧
        ∀ {options : Options} {types : TypeIndex} {files : List FileDescriptor}
          {written : List OutputFile} {file : FileDescriptor}, options.flatPack = false →
          Package.Selects options.packages package →
          ((Package.generator options types).generatePackage package files).result = .ok written →
          file ∈ files → file.name = path →
          ∃ code, (file.emit types).result = .ok code ∧
            { path := Path.join (Package.directory package) (module ++ Package.extension)
              content := Package.moduleText
                (Package.fileImports options.withDefaults package file) [code] } ∈ written := by
  intro block
  have statements_eq : block.statements = _ := statements_additions calls
  refine ⟨image package target, fun _ _ _ => image_eq_some_iff, statements_eq, ?_,
    image_eq_image_iff, ?_⟩
  · rw [statements_eq]
    exact nodup_eraseDups _
  · intro path directory module lies _
    refine ⟨lies.moduleName_eq.symm, ?_⟩
    rintro options types files written file perFile selected generated member rfl
    rw [Package.result_generatePackage_perFile (.inl perFile) selected] at generated
    obtain ⟨codes, emitted, rfl⟩ := Result.map_eq_ok_iff.mp generated
    obtain ⟨code, ofFile, among⟩ := Package.exists_fileModule_mem emitted member
    refine ⟨code, ofFile, ?_⟩
    rw [← lies.moduleName_eq]
    exact List.mem_append_left _ among

/-- Siblings are added first and skipped then; two packages are asked for twice, one of
them by directories that are written differently, and a path outside the root not at all. -/
theorem statements_of_two_additions :
    let calls : List (List Text × Bool) :=
      [(["trac/m/a.b.proto", "trac/c/x.proto", "google/x.proto", "trac/m/a.b.proto"], false),
       (["trac/c/y.proto", "trac/m/z.proto", "trac/d.e/q.proto", "trac/d/e/r.proto"], true)]
    let block := calls.foldl (fun block call => block.addDependencies call.1 call.2)
      ({ package := "trac.m", target := "t" } : ImportBlock)
    LiesAt "trac/m/a.b.proto" "trac/m" "a.b" ∧ dotted "trac/m" = "trac.m" ∧
      Package.moduleName "trac/m/a.b.proto" = "a.b" ∧
      block.statements = [Text.ofString "from .a.b import *  # noqa\n",
        Text.ofString "import t.c as c\n", Text.ofString "import t.d.e as e\n"] ∧
      block.statements.Nodup := by
  intro calls block
  have lies : LiesAt "trac/m/a.b.proto" "trac/m" "a.b" :=
    ⟨rfl, by decide, by decide, "m", rfl, by decide, by decide⟩
  have own : dotted "trac/m" = "trac.m" := by decide
  obtain ⟨_, -, -, distinct, -, siblings⟩ := statements_are_images "trac.m" "t" calls
  exact ⟨lies, own, (siblings lies own).1.symm, by decide +kernel, distinct⟩

end ImportBlock

end Protoclass
