import Mathlib.Data.List.TakeWhile
import Protoclass.Command.Generate
import Protoclass.Proofs.Packages.Restriction
import Protoclass.Proofs.Paths.Names

/-!
# Where generated files lie

The path of a generated file leads down, whatever the names of the package and of
the schema file: the dots of a package become slashes, and the name of a module is
a last element without a slash, behind which the extension is written.  Below an
absolute output directory, a generated file therefore never leaves it.
-/

namespace Protoclass

open Text (slash dot)
open Protoclass.Path (Proper Leads)

theorem Path.slash_notMem_lastElement (path : Text) : slash ∉ Path.lastElement path := by
  rw [Path.lastElement, List.mem_reverse]
  intro member
  simpa using List.mem_takeWhile_imp member

theorem Path.leads_name {name : Text} (proper : Proper name) (undivided : slash ∉ name) :
    Leads name [name] := by
  have whole : name.splitOn slash = [name] := Text.splitOn_eq_singleton undivided
  constructor
  · rw [whole, List.mem_singleton]
    exact fun same => proper.2.2 same.symm
  · rw [Path.names, whole, List.filter_cons_of_pos (by simpa using proper), List.filter_nil]

namespace Package

/-! ## Names of modules -/

/-- The name of a module is undivided, unless the file is named by slashes only. -/
theorem moduleName_eq_or (file : Text) : moduleName file = "/" ∨ slash ∉ moduleName file := by
  have base_or : Path.base file = "/" ∨ slash ∉ Path.base file := by
    unfold Path.base
    dsimp only
    split
    case isTrue => exact .inr (by decide)
    case isFalse =>
      split
      case isTrue => exact .inl rfl
      case isFalse => exact .inr (Path.slash_notMem_lastElement _)
  rcases base_or with only | undivided
  · left
    rw [moduleName, Path.stem, only]
    rfl
  · right
    intro member
    exact undivided ((Text.dropTail_isPrefix _ _).subset member)

/-- The name of a module as it stands behind the directory of its package: the
slash that a file of slashes only is named by is lost there. -/
def slotName (file : Text) : Text :=
  Text.dropLead (moduleName file) "/"

theorem slotName_eq_of_notMem {file : Text} (undivided : slash ∉ moduleName file) :
    slotName file = moduleName file := by
  apply Text.dropLead_eq_self
  rw [Bool.eq_false_iff, ne_eq, Text.startsWith_iff]
  rintro ⟨rest, same⟩
  rw [← same] at undivided
  exact undivided List.mem_cons_self

theorem slash_notMem_slotName (file : Text) : slash ∉ slotName file := by
  rcases moduleName_eq_or file with only | undivided
  · rw [slotName, only]
    decide
  · rw [slotName_eq_of_notMem undivided]
    exact undivided

theorem proper_append_extension (name : Text) : Proper (name ++ extension) := by
  have last : (name ++ extension).getLast? = some 121 := by
    rw [List.getLast?_append]
    rfl
  refine ⟨?_, ?_, ?_⟩ <;>
  · intro same
    rw [same] at last
    contradiction

theorem leads_moduleFile (file : Text) :
    Leads (moduleName file ++ extension) [slotName file ++ extension] := by
  rcases moduleName_eq_or file with only | undivided
  · rw [slotName, only]
    exact ⟨by decide, by decide⟩
  · rw [slotName_eq_of_notMem undivided]
    apply Path.leads_name (proper_append_extension _)
    rw [List.mem_append, not_or]
    exact ⟨undivided, by decide⟩

theorem leads_manifestName : Leads manifestName [manifestName] :=
  ⟨by decide, by decide⟩

/-! ## Directories of packages -/

theorem dot_notMem_directory (package : Text) : dot ∉ directory package := by
  rw [directory, Text.replaceByte, List.mem_map]
  rintro ⟨b, -, replaced⟩
  split at replaced
  · contradiction
  · contradiction

theorem leads_of_dot_notMem {path : Text} (plain : dot ∉ path) :
    Leads path (Path.names path) := by
  refine ⟨?_, rfl⟩
  intro member
  exact plain (Text.mem_of_mem_splitOn member (by decide))

/-- The extension goes on in the last element of a path. -/
theorem leads_append_extension {path last : Text} {pieces : List Text} (plain : dot ∉ path)
    (split : path.splitOn slash = pieces ++ [last]) :
    Leads (path ++ extension)
      ((pieces.filter fun piece => Proper piece) ++ [last ++ extension]) := by
  have divided : (path ++ extension).splitOn slash = pieces ++ [last ++ extension] :=
    Text.splitOn_append split (by decide)
  constructor
  · rw [divided, List.mem_append, List.mem_singleton, not_or]
    constructor
    · intro member
      have up : Text.ofString ".." ∈ path.splitOn slash := split ▸ List.mem_append_left _ member
      exact plain (Text.mem_of_mem_splitOn up (by decide))
    · exact fun same => (proper_append_extension last).2.2 same.symm
  · rw [Path.names, divided, List.filter_append,
      List.filter_cons_of_pos (by simpa using proper_append_extension last), List.filter_nil]

/-! ## Paths of packages -/

/-- The path of the module of a file. -/
def modulePath (package file : Text) : Text :=
  Path.join (directory package) (moduleName file ++ extension)

/-- The path of the manifest of a package. -/
def manifestPath (package : Text) : Text :=
  Path.join (directory package) manifestName

/-- The paths of what is written for a package. -/
def paths (options : Options) (package : Text) (files : List FileDescriptor) : List Text :=
  match output package options.packages with
  | .full =>
    if options.flatPack && !files.isEmpty then [flatPath package]
    else files.map (fun file => modulePath package file.name) ++ [manifestPath package]
  | .placeholder => [manifestPath package]
  | .nothing => []

theorem paths_withDefaults (options : Options) (package : Text) (files : List FileDescriptor) :
    paths options.withDefaults package files = paths options package files := rfl

theorem map_path_assemble {options : Options} {package : Text} {files : List FileDescriptor}
    {texts : List Text} (each : files.length = texts.length) :
    (assemble options package files texts).map (·.path) =
      if options.flatPack && !files.isEmpty then [flatPath package]
      else files.map (fun file => modulePath package file.name) ++ [manifestPath package] := by
  have modules : (List.zipWith (fileModule options package) files texts).map (·.path) =
      files.map fun file => modulePath package file.name := by
    rw [List.map_zipWith]
    have paths_eq : (fun file text => (fileModule options package file text).path) =
        fun file (_ : Text) => modulePath package file.name := rfl
    rw [paths_eq, ← List.map_uncurry_zip_eq_zipWith]
    have first : (Function.uncurry fun (file : FileDescriptor) (_ : Text) =>
        modulePath package file.name) = (fun file => modulePath package file.name) ∘ Prod.fst := rfl
    rw [first, ← List.map_map, List.map_fst_zip (Nat.le_of_eq each)]
  rw [assemble]
  split
  · rfl
  · rw [List.map_append, modules]
    rfl

theorem map_path_generate {options : Options} {types : TypeIndex} {package : Text}
    {files : List FileDescriptor} {written : List OutputFile}
    (made : (generate options types package files).result = .ok written) :
    written.map (·.path) = paths options package files := by
  rw [result_generate] at made
  obtain ⟨texts, emitted, rfl⟩ := Result.map_eq_ok_iff.mp made
  have each := (Result.forall₂_of_mapM_eq_ok emitted).length_eq
  rw [paths]
  cases output package options.packages with
  | full => exact map_path_assemble each
  | placeholder => rfl
  | nothing => rfl

/-- Whatever is written for a package has a path that leads down, through one name
at least. -/
theorem exists_leads_of_mem_paths {options : Options} {package path : Text}
    {files : List FileDescriptor} (member : path ∈ paths options package files) :
    ∃ through, Leads path through ∧ through ≠ [] := by
  have directory := leads_of_dot_notMem (dot_notMem_directory package)
  have manifest : ∃ through, Leads (manifestPath package) through ∧ through ≠ [] :=
    ⟨_, directory.join leads_manifestName, by simp⟩
  unfold paths at member
  split at member
  case h_1 =>
    split at member
    case isTrue =>
      rw [List.mem_singleton] at member
      rw [member, flatPath]
      split
      case isTrue => exact ⟨_, leads_manifestName, by simp⟩
      case isFalse =>
        have split := (List.dropLast_concat_getLast
          (Text.splitOn_ne_nil slash (Package.directory package))).symm
        exact ⟨_, leads_append_extension (dot_notMem_directory package) split, by simp⟩
    case isFalse =>
      rcases List.mem_append.mp member with inModules | isManifest
      · obtain ⟨file, -, rfl⟩ := List.mem_map.mp inModules
        exact ⟨_, directory.join (leads_moduleFile file.name), by simp⟩
      · rw [List.mem_singleton.mp isManifest]
        exact manifest
  case h_2 =>
    rw [List.mem_singleton.mp member]
    exact manifest
  case h_3 => contradiction

end Package

/-! ## Paths of runs -/

theorem RunRequest.map_path_outcomes {options : Options} {types : TypeIndex}
    {files : List FileDescriptor} {outputs : List (List OutputFile)}
    (made : outcomes options types files = .ok outputs) :
    outputs.flatten.map (·.path) =
      (groups files).flatMap fun group => Package.paths options group.1 group.2 := by
  have each := Result.forall₂_of_mapM_eq_ok made
  clear made
  generalize groups files = grouped at each ⊢
  induction each with
  | nil => rfl
  | @cons group output grouped outputs generated _ ih =>
    rw [List.flatten_cons, List.map_append, List.flatMap_cons, ih,
      Package.map_path_generate (Result.mapError_eq_ok_iff.mp generated)]

/-- The paths of what a run returns are those of its packages, one behind the
other. -/
theorem RunRequest.exists_map_path_eq {request : RunRequest} {written : List OutputFile}
    (ran : (request.run Languages.standard).result = .ok written) :
    ∃ files, selected request.files request.requested = .ok files ∧
      written.map (·.path) = (groups files).flatMap fun group =>
        Package.paths request.options group.1 group.2 := by
  rw [result_run_standard] at ran
  split at ran
  case isFalse => contradiction
  case isTrue =>
    obtain ⟨files, found, ran⟩ := Result.bind_eq_ok_iff.mp ran
    obtain ⟨outputs, made, rfl⟩ := Result.map_eq_ok_iff.mp ran
    refine ⟨files, found, ?_⟩
    rw [map_path_outcomes made]
    simp only [Package.paths_withDefaults]

/-! ## Written files -/

namespace Generate

/-- What is written lies where a file's path leads from the output directory. -/
theorem mem_files_write {σ : Type} {disk : Disk σ} {out : Text} {files : List OutputFile}
    {before : Written σ} {file : OutputFile}
    (member : file ∈ (write disk out files before).value.files) :
    file ∈ before.files ∨ ∃ source ∈ files, file.path = Path.join out source.path := by
  induction files generalizing before with
  | nil => exact .inl member
  | cons first rest ih =>
    rw [write] at member
    dsimp only at member
    split at member
    case h_1 => exact .inl member
    case h_2 state made =>
      split at member
      case h_1 => exact .inl member
      case h_2 state' done =>
        rcases ih member with earlier | ⟨source, later, place⟩
        · rcases List.mem_append.mp earlier with earlier | now
          · exact .inl earlier
          · rw [List.mem_singleton.mp now]
            exact .inr ⟨first, List.mem_cons_self, rfl⟩
        · exact .inr ⟨source, List.mem_cons_of_mem first later, place⟩

end Generate

namespace RunRequest

/-- Whatever names the schema uses, no path that a run returns has an element that
leads up.  From an absolute output directory each path leads strictly below it, so
that whatever is written there, until an operation fails, lies strictly below. -/
theorem run_stays_below_output (request : RunRequest) {written : List OutputFile}
    (ran : (request.run Languages.standard).result = .ok written) :
    (∀ file ∈ written, Text.ofString ".." ∉ file.path.splitOn slash) ∧
      ∀ out, Path.isAbsolute out = true →
        (∀ file ∈ written, Path.Below (Path.clean out) (Path.join out file.path)) ∧
        ∀ (σ : Type) (disk : Disk σ) (state : σ),
          ∀ file ∈ (Generate.write disk out written { state }).value.files,
            Path.Below (Path.clean out) file.path := by
  have each : ∀ file ∈ written, ∃ through, Leads file.path through ∧ through ≠ [] := by
    intro file member
    obtain ⟨files, -, paths_eq⟩ := exists_map_path_eq ran
    have listed : file.path ∈ written.map (·.path) := List.mem_map_of_mem member
    rw [paths_eq] at listed
    obtain ⟨group, -, inGroup⟩ := List.mem_flatMap.mp listed
    exact Package.exists_leads_of_mem_paths inGroup
  constructor
  · intro file member
    obtain ⟨through, leads, -⟩ := each file member
    exact leads.down
  · intro out absolute
    have below : ∀ file ∈ written, Path.Below (Path.clean out) (Path.join out file.path) := by
      intro file member
      obtain ⟨through, leads, nonempty⟩ := each file member
      exact leads.below_join nonempty absolute
    refine ⟨below, ?_⟩
    intro σ disk state file member
    rcases Generate.mem_files_write member with nowhere | ⟨source, among, place⟩
    · contradiction
    · rw [place]
      exact below source among

/-- A package that starts with dots, and a file whose name leads up: the first path
is absolute, and yet stays below the output directory. -/
theorem run_of_upward_names_stays_below :
    let request : RunRequest := { files := [{ name := "../..", package := "..a" }] }
    ∃ written, (request.run Languages.standard).result = .ok written ∧
      written.map (·.path) = ["/a/..py", "/a/__init__.py"] ∧
      Path.isAbsolute "/gen/." = true ∧
      ∀ file ∈ written, Path.Below "/gen" (Path.join "/gen/." file.path) := by
  intro request
  have paths_eq : (List.map (·.path)) <$> (request.run Languages.standard).result =
      .ok ["/a/..py", "/a/__init__.py"] := by decide +kernel
  obtain ⟨written, ran, listed⟩ := Result.map_eq_ok_iff.mp paths_eq
  have absolute : Path.isAbsolute "/gen/." = true := by decide
  have cleaned : Path.clean "/gen/." = "/gen" := by decide
  have below := ((run_stays_below_output request ran).2 "/gen/." absolute).1
  rw [cleaned] at below
  exact ⟨written, ran, listed, absolute, below⟩

end RunRequest

end Protoclass
