import Mathlib.Data.List.Nodup
import Mathlib.Data.List.Pairwise
import Protoclass.Proofs.Packages.Grouping
import Protoclass.Proofs.Packages.Modules

/-!
# Files at the same path

Two generated files have the same path exactly when they are the same module, so
that whether two files of a run share a path is a question about the names of
packages and of schema files.
-/

namespace Protoclass

open Text (slash dot)

namespace Package

/-! ## Modules of several files -/

section

variable {package : Text} (dotted : Dotted package)

include dotted

/-- The package that a module of one file, or a manifest, belongs to: its names but
the last.  A file of slashes only, in a package without a name, has an empty one
more. -/
def home (module : List Text) : List Text :=
  module.dropLast.filter fun name => !name.isEmpty

theorem Dotted.filter_nest : (nest package).filter (fun name => !name.isEmpty) = nest package := by
  rw [List.filter_eq_self]
  intro name member
  simpa using (dotted.of_mem_nest member).1

theorem Dotted.home_concat (name : Text) : home (nest package ++ [name]) = nest package := by
  rw [home, List.dropLast_concat, dotted.filter_nest]

/-- Unless packages are packed flat, a module belongs to the package that it is
written for. -/
theorem Dotted.home_eq {options : Options} {files : List FileDescriptor} {module : List Text}
    (perFile : options.flatPack = false) (member : module ∈ modulesWritten options package files) :
    home module = nest package := by
  rcases eq_of_mem_modulesWritten member with rfl | ⟨flat, -⟩ | ⟨file, -, rfl⟩
  · exact dotted.home_concat _
  · rw [perFile] at flat
    contradiction
  · rcases fileNames_eq_or package file.name with ⟨names_eq, -⟩ | ⟨rfl, names_eq⟩
    · rw [names_eq]
      exact dotted.home_concat _
    · rw [names_eq]
      rfl

omit dotted in
/-- The modules of a package and its manifest are different exactly when the names
that their paths show are, and none is `__init__`. -/
theorem nodup_fileNames_iff (files : List FileDescriptor) :
    (files.map (fun file => fileNames package file.name) ++ [manifestNames package]).Nodup ↔
      (files.map fun file => shownName package file.name).Nodup ∧
        Text.ofString "__init__" ∉ files.map fun file => shownName package file.name := by
  have injective : Function.Injective fun shown : Text => nest package ++ shown.splitOn slash := by
    intro shown shown' same
    have pieces : shown.splitOn slash = shown'.splitOn slash := List.append_cancel_left same
    rw [← Text.join_splitOn slash shown, pieces, Text.join_splitOn]
  have shown_eq : files.map (fun file => fileNames package file.name) ++ [manifestNames package] =
      (files.map (fun file => shownName package file.name) ++ [Text.ofString "__init__"]).map
        fun shown => nest package ++ shown.splitOn slash := by
    rw [List.map_append, List.map_map]
    rfl
  rw [shown_eq, List.nodup_map_iff injective, ← List.concat_eq_append, List.nodup_concat, and_comm]

omit dotted in
theorem nodup_modulesWritten_iff {options : Options} {files : List FileDescriptor}
    (perFile : options.flatPack = false) :
    (modulesWritten options package files).Nodup ↔
      (Selects options.packages package →
        (files.map fun file => shownName package file.name).Nodup ∧
          Text.ofString "__init__" ∉ files.map fun file => shownName package file.name) := by
  rw [modulesWritten, output_eq, perFile]
  by_cases selected : Selects options.packages package
  · simp only [selected, forall_const]
    exact nodup_fileNames_iff files
  · simp only [selected, false_implies, iff_true]
    by_cases above : LiesAbove options.packages package
    · rw [if_pos above]
      exact List.nodup_singleton _
    · rw [if_neg above]
      exact List.nodup_nil

end

/-! ## Modules of packages packed flat -/

theorem segments_eq_of_isPrefix {front : Text} {name : Text} (starts : segments front <+: [name]) :
    segments front = [name] :=
  starts.eq_of_length_le (List.length_pos_iff.mpr (Text.splitOn_ne_nil dot front))

theorem selects_nil_iff {filter : Text} : Selects filter [] ↔ filter = [] := by
  constructor
  · rintro (rfl | starts)
    · rfl
    · exact segments_injective (segments_eq_of_isPrefix starts)
  · exact .inl

theorem LiesAbove.not_selects {filter package : Text} (above : LiesAbove filter package) :
    ¬Selects filter package := by
  rintro (rfl | below)
  · exact above.2 (segments_eq_of_isPrefix above.1)
  · exact above.2 (above.1.eq_of_length_le below.length_le)

/-- Packed flat, the package is written as the module of its own names. -/
def IsPacked (filter package : Text) : Prop :=
  package ≠ [] ∧ Selects filter package

/-- Packed flat, the package is written as the module `__init__` below its names. -/
def HasManifest (filter package : Text) : Prop :=
  package = [] ∧ filter = [] ∨ LiesAbove filter package

theorem mem_modulesWritten_flat_iff {options : Options} {package : Text}
    {files : List FileDescriptor} {module : List Text} (flat : options.flatPack = true)
    (nonempty : files ≠ []) :
    module ∈ modulesWritten options package files ↔
      (IsPacked options.packages package ∧ module = nest package) ∨
        (HasManifest options.packages package ∧ module = manifestNames package) := by
  have packed : (options.flatPack && !files.isEmpty) = true := by simp [flat, nonempty]
  rw [modulesWritten, output_eq, IsPacked, HasManifest]
  by_cases empty : package = []
  · subst empty
    by_cases selected : Selects options.packages []
    · rw [if_pos selected]
      simp [packed, flatNames, selects_nil_iff.mp selected]
    · have filtered : options.packages ≠ [] := mt selects_nil_iff.mpr selected
      by_cases above : LiesAbove options.packages [] <;> simp [selected, filtered, above]
  · by_cases selected : Selects options.packages package
    · have above : ¬LiesAbove options.packages package := fun above => above.not_selects selected
      simp [selected, packed, flatNames, above, empty]
    · by_cases above : LiesAbove options.packages package <;> simp [selected, empty, above]

theorem nodup_modulesWritten_flat {options : Options} {package : Text}
    {files : List FileDescriptor} (flat : options.flatPack = true) (nonempty : files ≠ []) :
    (modulesWritten options package files).Nodup := by
  rw [modulesWritten, if_pos (by simp [flat, nonempty])]
  split
  · exact List.nodup_singleton _
  · exact List.nodup_singleton _
  · exact List.nodup_nil

theorem nest_eq_manifestNames_iff {package package' : Text} :
    nest package' = manifestNames package ↔ package' = qualify package "__init__" := by
  rw [manifestNames, ← nest_qualify package (by decide) (by decide)]
  exact nest_injective.eq_iff

/-- Both are written exactly when output is restricted to the lower one; or, of a
package without a name, when output is not restricted. -/
theorem isPacked_hasManifest_iff {filter package : Text} :
    IsPacked filter (qualify package "__init__") ∧ HasManifest filter package ↔
      filter = if package = [] then [] else qualify package "__init__" := by
  have given : qualify package "__init__" ≠ [] := by
    unfold qualify
    split <;> simp [Text.ofString]
  by_cases empty : package = []
  · subst empty
    have alone : qualify [] "__init__" = "__init__" := rfl
    rw [if_pos rfl, alone]
    constructor
    · rintro ⟨⟨-, selected⟩, ⟨-, unrestricted⟩ | above⟩
      · exact unrestricted
      · -- The filter starts with a dot, and no package does.
        exfalso
        rcases selected with rfl | starts
        · exact above.2 rfl
        · have first := above.1
          rw [segments_eq_of_isPrefix starts] at first
          revert first
          decide
    · rintro rfl
      exact ⟨⟨by decide, .inl rfl⟩, .inl ⟨rfl, rfl⟩⟩
  · have below : segments (qualify package "__init__") =
        segments package ++ [Text.ofString "__init__"] := by
      have nested : nest (qualify package "__init__") =
          nest package ++ [Text.ofString "__init__"] :=
        nest_qualify package (by decide) (by decide)
      rwa [nest, nest, if_neg (by simpa using given), if_neg (by simpa using empty)] at nested
    rw [if_neg empty]
    constructor
    · rintro ⟨⟨-, selected⟩, ⟨rfl, -⟩ | above⟩
      · contradiction
      · rcases selected with rfl | starts
        · exact absurd (.inl rfl) above.not_selects
        · rw [below, List.prefix_concat_iff, ← below] at starts
          rcases starts with same | shorter
          · exact segments_injective same
          · exact absurd (.inr shorter) above.not_selects
    · rintro rfl
      refine ⟨⟨given, .inr List.prefix_rfl⟩, .inr ?_⟩
      rw [LiesAbove, below]
      exact ⟨List.prefix_append _ _, by simp⟩

/-- Packed flat, one of the packages and the package `__init__` below it are written
as the same module: the upper one because it has no name, or because output is
restricted to the lower one. -/
def Clash (filter : Text) (packages : List Text) : Prop :=
  ∃ package ∈ packages, qualify package "__init__" ∈ packages ∧
    filter = if package = [] then [] else qualify package "__init__"

instance (filter : Text) (packages : List Text) : Decidable (Clash filter packages) :=
  inferInstanceAs (Decidable (∃ _ ∈ packages, _))

end Package

/-! ## Runs -/

namespace RunRequest

/-- The modules that are written for some files. -/
def modulesWritten (options : Options) (files : List FileDescriptor) : List (List Text) :=
  (packageNames files).flatMap fun package =>
    Package.modulesWritten options package (members files package)

section

variable {options : Options} {files : List FileDescriptor}
  (dotted : ∀ file ∈ files, Package.Dotted file.package)

include dotted

theorem dotted_of_mem_packageNames {package : Text} (member : package ∈ packageNames files) :
    Package.Dotted package := by
  obtain ⟨file, among, rfl⟩ := List.mem_map.mp (mem_packageNames_iff.mp member)
  exact dotted file among

theorem paths_eq :
    ((groups files).flatMap fun group => Package.paths options group.1 group.2) =
      (modulesWritten options files).map Package.filePath := by
  rw [groups_eq, List.flatMap_map, modulesWritten, List.map_flatMap]
  apply List.flatMap_congr
  intro package member
  exact (dotted_of_mem_packageNames dotted member).paths_eq options _

/-- Paths are different exactly when the modules are. -/
theorem nodup_paths_iff :
    ((groups files).flatMap fun group => Package.paths options group.1 group.2).Nodup ↔
      (modulesWritten options files).Nodup := by
  have sound : ∀ module ∈ modulesWritten options files,
      module ≠ [] ∧ ∀ name ∈ module, Text.slash ∉ name := by
    intro module member
    obtain ⟨package, among, written⟩ := List.mem_flatMap.mp member
    exact (dotted_of_mem_packageNames dotted among).of_mem_modulesWritten written
  rw [paths_eq dotted]
  constructor
  · exact List.Nodup.of_map Package.filePath
  · apply List.Nodup.map_on
    intro module member module' member' same
    obtain ⟨nonempty, undivided⟩ := sound module member
    obtain ⟨nonempty', undivided'⟩ := sound module' member'
    exact Package.filePath_injOn nonempty nonempty' undivided undivided' same

/-- Below an output directory, places are different exactly when the paths are. -/
theorem nodup_places_iff (relative : ∀ path ∈ (groups files).flatMap fun group =>
      Package.paths options group.1 group.2, Path.isAbsolute path = false)
    {out : Text} (absolute : Path.isAbsolute out = true) :
    (((groups files).flatMap fun group => Package.paths options group.1 group.2).map
        (Path.join out)).Nodup ↔
      ((groups files).flatMap fun group => Package.paths options group.1 group.2).Nodup := by
  rw [paths_eq dotted] at relative ⊢
  have written : ∀ path ∈ (modulesWritten options files).map Package.filePath,
      ∃ through, Path.Leads path through ∧ through ≠ [] ∧ path = Text.join "/" through := by
    intro path member
    obtain ⟨module, among, rfl⟩ := List.mem_map.mp member
    obtain ⟨package, present, ofPackage⟩ := List.mem_flatMap.mp among
    obtain ⟨through, leads, path_eq⟩ :=
      (dotted_of_mem_packageNames dotted present).exists_leads_of_mem ofPackage
        (relative _ member)
    refine ⟨through, leads, ?_, path_eq⟩
    rintro rfl
    exact absurd path_eq (by simp [Package.filePath, Package.extension, Text.ofString, Text.join])
  constructor
  · exact List.Nodup.of_map (Path.join out)
  · apply List.Nodup.map_on
    intro path member path' member' same
    obtain ⟨through, leads, nonempty, rfl⟩ := written path member
    obtain ⟨through', leads', nonempty', rfl⟩ := written path' member'
    rw [leads.eq_of_join_eq leads' nonempty nonempty' absolute same]

/-- Written one by one, files share a module only inside a package. -/
theorem nodup_modulesWritten_perFile_iff (perFile : options.flatPack = false) :
    (modulesWritten options files).Nodup ↔
      ∀ package, Package.Selects options.packages package →
        ((members files package).map fun file => Package.shownName package file.name).Nodup ∧
          Text.ofString "__init__" ∉
            (members files package).map fun file => Package.shownName package file.name := by
  have apart : (packageNames files).Pairwise (Function.onFun List.Disjoint fun package =>
      Package.modulesWritten options package (members files package)) := by
    apply (nodup_packageNames files).pairwise_of_forall_ne
    intro package member package' member' other module written written'
    have home := (dotted_of_mem_packageNames dotted member).home_eq perFile written
    have home' := (dotted_of_mem_packageNames dotted member').home_eq perFile written'
    exact other (Package.nest_injective (home.symm.trans home'))
  rw [modulesWritten, List.nodup_flatMap, and_iff_left apart]
  simp only [Package.nodup_modulesWritten_iff perFile]
  constructor
  · intro each package
    by_cases present : package ∈ packageNames files
    · exact each package present
    · rw [members_eq_nil present]
      exact fun _ => ⟨List.nodup_nil, List.not_mem_nil⟩
  · exact fun each package _ => each package

omit dotted in
/-- Packed flat, packages share a module only by a clash. -/
theorem nodup_modulesWritten_flat_iff (flat : options.flatPack = true) :
    (modulesWritten options files).Nodup ↔
      ¬Package.Clash options.packages (files.map (·.package)) := by
  have written_iff : ∀ package ∈ packageNames files, ∀ module,
      module ∈ Package.modulesWritten options package (members files package) ↔ _ :=
    fun package present module =>
      Package.mem_modulesWritten_flat_iff flat (members_ne_nil present)
  have each : ∀ package ∈ packageNames files,
      (Package.modulesWritten options package (members files package)).Nodup :=
    fun package present => Package.nodup_modulesWritten_flat flat (members_ne_nil present)
  rw [modulesWritten, List.nodup_flatMap, and_iff_right each]
  constructor
  · rintro apart ⟨package, among, among', restricted⟩
    rw [← mem_packageNames_iff] at among among'
    obtain ⟨packed, manifest⟩ := Package.isPacked_hasManifest_iff.mpr restricted
    have other : package ≠ qualify package "__init__" := by
      intro same
      have nested := Package.nest_eq_manifestNames_iff.mpr same
      simp [Package.manifestNames] at nested
    have : Std.Symm (Function.onFun List.Disjoint fun package =>
        Package.modulesWritten options package (members files package)) :=
      ⟨fun _ _ disjoint _ second first => disjoint first second⟩
    refine apart.forall among among' other ((written_iff _ among _).mpr (.inr ⟨manifest, rfl⟩))
      ((written_iff _ among' _).mpr (.inl ⟨packed, ?_⟩))
    exact (Package.nest_eq_manifestNames_iff.mpr rfl).symm
  · intro noClash
    apply (nodup_packageNames files).pairwise_of_forall_ne
    intro package present package' present' other module written written'
    have clash : ∀ {upper lower : Text}, upper ∈ packageNames files → lower ∈ packageNames files →
        Package.HasManifest options.packages upper → Package.IsPacked options.packages lower →
        Package.nest lower = Package.manifestNames upper → False := by
      intro upper lower among among' manifest packed same
      obtain rfl := Package.nest_eq_manifestNames_iff.mp same
      rw [mem_packageNames_iff] at among among'
      exact noClash ⟨upper, among, among',
        Package.isPacked_hasManifest_iff.mp ⟨packed, manifest⟩⟩
    rcases (written_iff _ present _).mp written with ⟨packed, rfl⟩ | ⟨manifest, rfl⟩ <;>
      rcases (written_iff _ present' _).mp written' with ⟨packed', same⟩ | ⟨manifest', same⟩
    · exact other (Package.nest_injective same)
    · exact clash present' present manifest' packed same
    · exact clash present present' manifest packed' same.symm
    · exact other (Package.nest_injective (List.append_cancel_right same))

end

theorem mem_of_selected {files requested : List FileDescriptor} {names : List Text}
    (found : selected files names = .ok requested) {file : FileDescriptor}
    (member : file ∈ requested) : file ∈ files := by
  cases names with
  | nil =>
    cases found
    exact member
  | cons name names =>
    obtain ⟨name, -, taken⟩ := Result.exists_mem_of_mapM_eq_ok found member
    split at taken
    case h_1 other matched =>
      cases taken
      exact List.mem_reverse.mp (List.mem_of_find?_eq_some matched)
    case h_2 => contradiction

/-- The paths of what a run returns are different exactly when the names of packages
and files keep them apart.  With a module for each file, no two files of a package
that is written in full have the same stem, and none has the stem `__init__`.
With packages packed flat, no package is written as the module `__init__` below
another that has the same module for its manifest.  Below an output directory,
relative paths that are different are different places. -/
theorem run_paths_nodup_iff (request : RunRequest)
    (dotted : ∀ file ∈ request.files, Package.Dotted file.package) {written : List OutputFile}
    (ran : (request.run Languages.standard).result = .ok written) :
    (∃ files, selected request.files request.requested = .ok files ∧
      ((written.map (·.path)).Nodup ↔
        if request.options.flatPack then
          ¬Package.Clash request.options.packages (files.map (·.package))
        else
          ∀ package, Package.Selects request.options.packages package →
            let shown := (members files package).map fun file =>
              Package.shownName package file.name
            shown.Nodup ∧ Text.ofString "__init__" ∉ shown)) ∧
    ((∀ file ∈ written, Path.isAbsolute file.path = false) →
      ∀ out, Path.isAbsolute out = true →
        ((written.map fun file => Path.join out file.path).Nodup ↔
          (written.map (·.path)).Nodup)) := by
  obtain ⟨files, found, paths_eq⟩ := exists_map_path_eq ran
  have dotted' : ∀ file ∈ files, Package.Dotted file.package :=
    fun file among => dotted file (mem_of_selected found among)
  constructor
  · refine ⟨files, found, ?_⟩
    rw [paths_eq, nodup_paths_iff dotted']
    split
    case isTrue flat => exact nodup_modulesWritten_flat_iff flat
    case isFalse perFile =>
      exact nodup_modulesWritten_perFile_iff dotted' (Bool.eq_false_iff.mpr perFile)
  · intro relative out absolute
    have placed : (written.map fun file => Path.join out file.path) =
        (written.map (·.path)).map (Path.join out) := by
      rw [List.map_map]
      rfl
    have relative' : ∀ path ∈ written.map (·.path), Path.isAbsolute path = false :=
      List.forall_mem_map.mpr relative
    rw [paths_eq] at relative'
    rw [placed, paths_eq]
    exact nodup_places_iff dotted' relative' absolute

/-- Two files of a package with different stems, in different directories. -/
theorem run_paths_of_different_stems :
    let first : FileDescriptor := { name := "a/x.proto", package := "p.q" }
    let second : FileDescriptor := { name := "b/y.proto", package := "p.q" }
    let request : RunRequest := {
      files := [first, second], requested := ["b/y.proto", "a/x.proto"] }
    (∀ file ∈ request.files, Package.Dotted file.package) ∧
      ∃ written, (request.run Languages.standard).result = .ok written ∧
        (written.map (·.path)).Nodup ∧
        (written.map fun file => Path.join "/out" file.path).Nodup := by
  intro first second request
  have dotted : ∀ file ∈ request.files, Package.Dotted file.package := by
    simp only [request, first, second, List.forall_mem_cons]
    exact ⟨by decide, by decide, by simp⟩
  have paths_eq : (List.map (·.path)) <$> (request.run Languages.standard).result =
      .ok ["p/q/y.py", "p/q/x.py", "p/q/__init__.py"] := by decide +kernel
  obtain ⟨written, ran, listed⟩ := Result.map_eq_ok_iff.mp paths_eq
  obtain ⟨⟨files, found, distinct_iff⟩, placed⟩ := run_paths_nodup_iff request dotted ran
  have relative : ∀ file ∈ written, Path.isAbsolute file.path = false := by
    rw [← List.forall_mem_map (P := fun path => Path.isAbsolute path = false), listed]
    decide
  have distinct : (written.map (·.path)).Nodup := by
    have taken : selected request.files request.requested = .ok [second, first] := by rfl
    obtain rfl : [second, first] = files := Except.ok.inj (taken.symm.trans found)
    refine distinct_iff.mpr ?_
    intro package _
    by_cases own : package = "p.q"
    · subst own
      decide
    · have none : members [second, first] package = [] := by
        simp [members, first, second, Ne.symm own]
      simp [none]
  exact ⟨dotted, written, ran, distinct, (placed relative "/out" (by decide)).mpr distinct⟩

/-- Two files with one stem, in different directories but of one package: the second
module takes the path of the first. -/
theorem run_paths_of_same_stem :
    let request : RunRequest := {
      files := [{ name := "a/x.proto", package := "p" }, { name := "b/x.proto", package := "p" }]
      requested := ["a/x.proto", "b/x.proto"] }
    (request.files.map (·.name)).Nodup ∧ request.requested.Nodup ∧
      (∀ file ∈ request.files, Package.Dotted file.package) ∧
      ∃ written, (request.run Languages.standard).result = .ok written ∧
        written.map (·.path) = ["p/x.py", "p/x.py", "p/__init__.py"] ∧
        ¬(written.map (·.path)).Nodup := by
  intro request
  have dotted : ∀ file ∈ request.files, Package.Dotted file.package := by
    simp only [request, List.forall_mem_cons]
    exact ⟨by decide, by decide, by simp⟩
  refine ⟨by decide, by decide, dotted, ?_⟩
  have paths_eq : (List.map (·.path)) <$> (request.run Languages.standard).result =
      .ok ["p/x.py", "p/x.py", "p/__init__.py"] := by decide +kernel
  obtain ⟨written, ran, listed⟩ := Result.map_eq_ok_iff.mp paths_eq
  refine ⟨written, ran, listed, ?_⟩
  rw [listed]
  decide

end RunRequest

end Protoclass
