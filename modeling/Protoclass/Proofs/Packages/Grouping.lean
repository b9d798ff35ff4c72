import Mathlib.Data.List.Perm.Basic
import Protoclass.Generation.Run
import Protoclass.Proofs.Occurrences
import Protoclass.Proofs.Result

/-!
# Files by package

A run takes the requested files by name and puts them in groups, one for each
package.  The groups are a stable partition of the files, and one pass over the
files builds them.  The run then generates one group after the other: it returns
the outputs of all, or the failure of the first group that fails.
-/

namespace Protoclass.RunRequest

/-! ## Requested files -/

/-- No file has the name. -/
def Missing (files : List FileDescriptor) (name : Text) : Prop :=
  ∀ file ∈ files, file.name ≠ name

/-- Of the files with the name, `file` is the last. -/
def LastNamed (files : List FileDescriptor) (name : Text) (file : FileDescriptor) : Prop :=
  ∃ before after, files = before ++ file :: after ∧ file.name = name ∧ Missing after name

/-- What the names ask for: a file for each, in their order; without names, all
files. -/
def AreRequested (files : List FileDescriptor) (names : List Text)
    (requested : List FileDescriptor) : Prop :=
  if names = [] then requested = files else List.Forall₂ (LastNamed files) names requested

section

variable {files : List FileDescriptor} {names : List Text} {name : Text}

theorem file?_eq_some_iff {file : FileDescriptor} :
    file? files name = some file ↔ LastNamed files name file := by
  rw [file?, List.find?_eq_some_iff_append, LastNamed]
  constructor
  · rintro ⟨named, after, before, split, others⟩
    refine ⟨before.reverse, after.reverse, ?_, by simpa using named, ?_⟩
    · rw [← files.reverse_reverse, split]
      simp
    · intro other member
      simpa using others other (List.mem_reverse.mp member)
  · rintro ⟨before, after, rfl, named, others⟩
    refine ⟨by simpa using named, after.reverse, before.reverse, by simp, ?_⟩
    intro other member
    simpa using others other (List.mem_reverse.mp member)

theorem file?_eq_none_iff : file? files name = none ↔ Missing files name := by
  simp [file?, Missing]

/-- The names are looked up one by one. -/
theorem selected_eq_mapM (named : names ≠ []) :
    selected files names = names.mapM fun name =>
      match file? files name with
      | some file => .ok file
      | none => .error (.fileNotFound name) := by
  cases names with
  | nil => contradiction
  | cons name names => rfl

theorem selected_eq_ok_iff {requested : List FileDescriptor} :
    selected files names = .ok requested ↔ AreRequested files names requested := by
  rw [AreRequested]
  split
  case isTrue none =>
    rw [none]
    exact ⟨fun taken => (Except.ok.inj taken).symm, congrArg Except.ok ∘ Eq.symm⟩
  case isFalse named =>
    have found_iff : ∀ (name : Text) (file : FileDescriptor),
        (match file? files name with
          | some file => .ok file
          | none => .error (.fileNotFound name)) = (.ok file : Except RunError FileDescriptor) ↔
          LastNamed files name file := by
      intro name file
      rw [← file?_eq_some_iff]
      cases file? files name <;> simp
    rw [selected_eq_mapM named]
    constructor
    · intro taken
      exact (Result.forall₂_of_mapM_eq_ok taken).imp fun name file => (found_iff name file).mp
    · intro each
      exact Result.mapM_eq_ok_of_forall₂ (each.imp fun name file => (found_iff name file).mpr)

theorem AreRequested.not_missing {requested : List FileDescriptor}
    (are : AreRequested files names requested) : ∀ name ∈ names, ¬Missing files name := by
  rw [AreRequested] at are
  split at are
  case isTrue none => simp [none]
  case isFalse named =>
    clear named
    induction are with
    | nil => simp
    | cons first _ ih =>
      obtain ⟨before, after, split, named, -⟩ := first
      rw [List.forall_mem_cons]
      refine ⟨?_, ih⟩
      intro missing
      exact missing _ (by rw [split]; simp) named

/-- The first name that no file has is reported. -/
theorem selected_eq_error_iff {error : RunError} :
    selected files names = .error error ↔ ∃ before missing after,
      names = before ++ missing :: after ∧ (∀ name ∈ before, ¬Missing files name) ∧
        Missing files missing ∧ error = .fileNotFound missing := by
  by_cases named : names = []
  · simp [named, selected]
  · have present_iff : ∀ name : Text, (∃ file,
        (match file? files name with
          | some file => .ok file
          | none => .error (.fileNotFound name)) = (.ok file : Except RunError FileDescriptor)) ↔
          ¬Missing files name := by
      intro name
      rw [← file?_eq_none_iff]
      cases file? files name <;> simp
    have absent_iff : ∀ name : Text,
        (match file? files name with
          | some file => .ok file
          | none => .error (.fileNotFound name)) = (.error error : Except RunError FileDescriptor) ↔
          Missing files name ∧ error = .fileNotFound name := by
      intro name
      rw [← file?_eq_none_iff]
      cases file? files name <;> simp [eq_comm]
    rw [selected_eq_mapM named, Result.mapM_eq_error_iff]
    simp only [present_iff, absent_iff]

end

/-! ## Packages -/

/-- The package of each file, each once, in order of first appearance. -/
def packageNames (files : List FileDescriptor) : List Text :=
  (files.map (·.package)).eraseDups

theorem nodup_packageNames (files : List FileDescriptor) : (packageNames files).Nodup :=
  nodup_eraseDups _

theorem mem_packageNames_iff {files : List FileDescriptor} {package : Text} :
    package ∈ packageNames files ↔ package ∈ files.map (·.package) := by
  rw [packageNames, List.mem_eraseDups]

theorem packageNames_concat (files : List FileDescriptor) (file : FileDescriptor) :
    packageNames (files ++ [file]) =
      packageNames files ++ if file.package ∈ packageNames files then [] else [file.package] := by
  rw [packageNames, List.map_append, List.map_singleton, eraseDups_concat]
  simp only [mem_packageNames_iff]
  rfl

/-- The files of a package. -/
def members (files : List FileDescriptor) (package : Text) : List FileDescriptor :=
  files.filter fun file => file.package = package

theorem members_concat (files : List FileDescriptor) (file : FileDescriptor) (package : Text) :
    members (files ++ [file]) package =
      members files package ++ if file.package = package then [file] else [] := by
  rw [members, List.filter_append, members]
  by_cases own : file.package = package <;> simp [own]

theorem members_ne_nil {files : List FileDescriptor} {package : Text}
    (member : package ∈ packageNames files) : members files package ≠ [] := by
  obtain ⟨file, among, rfl⟩ := List.mem_map.mp (mem_packageNames_iff.mp member)
  exact List.ne_nil_of_mem (List.mem_filter.mpr ⟨among, by simp⟩)

theorem members_eq_nil {files : List FileDescriptor} {package : Text}
    (absent : package ∉ packageNames files) : members files package = [] := by
  rw [members, List.filter_eq_nil_iff]
  intro file among ofPackage
  rw [mem_packageNames_iff] at absent
  exact absent (List.mem_map.mpr ⟨file, among, by simpa using ofPackage⟩)

/-! ## Groups in one pass -/

/-- The group of each package, by its place in the order of packages. -/
def groupsOf (files : List FileDescriptor) : List (Text × List FileDescriptor) :=
  (packageNames files).map fun package => (package, members files package)

/-- A file of a package that has a group changes that group only. -/
theorem modify_groupsOf {files : List FileDescriptor} {file : FileDescriptor} {i : Nat}
    (place : (packageNames files)[i]? = some file.package) :
    (groupsOf files).modify i (fun group => (group.1, group.2 ++ [file])) =
      groupsOf (files ++ [file]) := by
  have seen : file.package ∈ packageNames files := List.mem_of_getElem? place
  rw [groupsOf, groupsOf, packageNames_concat, if_pos seen, List.append_nil]
  apply List.ext_getElem?
  intro j
  rw [List.getElem?_modify, List.getElem?_map, List.getElem?_map, Option.map_eq_map,
    Option.map_map]
  cases listed : (packageNames files)[j]? with
  | none => rfl
  | some package =>
    -- The packages are different, so the file belongs to the group at its place only.
    have own_iff : i = j ↔ file.package = package := by
      constructor
      · rintro rfl
        exact Option.some.inj (place.symm.trans listed)
      · rintro rfl
        exact (List.getElem?_inj (List.getElem?_eq_some_iff.mp place).1
          (nodup_packageNames files)).mp (place.trans listed.symm)
    by_cases own : i = j
    · simp [own, members_concat, own_iff.mp own]
    · simp [own, members_concat, mt own_iff.mpr own]

/-- A file of a new package starts a group of its own. -/
theorem groupsOf_append_new {files : List FileDescriptor} {file : FileDescriptor}
    (new : file.package ∉ packageNames files) :
    groupsOf files ++ [(file.package, [file])] = groupsOf (files ++ [file]) := by
  have others : ∀ package ∈ packageNames files,
      (package, members (files ++ [file]) package) = (package, members files package) := by
    intro package member
    have other : file.package ≠ package := by
      rintro rfl
      exact new member
    rw [members_concat, if_neg other, List.append_nil]
  rw [groupsOf, groupsOf, packageNames_concat, if_neg new, List.map_append,
    List.map_congr_left others, List.map_singleton, members_concat, if_pos rfl,
    members_eq_nil new, List.nil_append]

namespace Grouping

/-- The groups are those of the files, and the index has their places. -/
structure Holds (grouping : Grouping) (files : List FileDescriptor) : Prop where
  groups : grouping.groups = groupsOf files
  index : ∀ package i,
    grouping.index.lookup package = some i ↔ (packageNames files)[i]? = some package

variable {grouping : Grouping} {files : List FileDescriptor}

theorem Holds.lookup_eq_none_iff (holds : grouping.Holds files) {package : Text} :
    grouping.index.lookup package = none ↔ package ∉ packageNames files := by
  rw [Option.eq_none_iff_forall_ne_some, List.mem_iff_getElem?, not_exists]
  exact forall_congr' fun i => not_congr (holds.index package i)

/-- One file more keeps the index and the groups in step. -/
theorem Holds.add (holds : grouping.Holds files) (file : FileDescriptor) :
    (grouping.add file).Holds (files ++ [file]) := by
  unfold Grouping.add
  cases found : grouping.index.lookup file.package with
  | some i =>
    have place := (holds.index file.package i).mp found
    constructor
    · rw [← modify_groupsOf place, ← holds.groups]
    · rw [packageNames_concat, if_pos (List.mem_of_getElem? place), List.append_nil]
      exact holds.index
  | none =>
    have new := holds.lookup_eq_none_iff.mp found
    have next : grouping.groups.length = (packageNames files).length := by
      rw [holds.groups, groupsOf, List.length_map]
    constructor
    · rw [← groupsOf_append_new new, ← holds.groups]
    · intro package i
      have old := holds.index package i
      rw [packageNames_concat, if_neg new, List.lookup_cons, next]
      by_cases own : package = file.package
      · subst own
        rw [beq_self_eq_true]
        grind
      · rw [beq_false_of_ne own]
        grind

end Grouping

theorem groups_eq (files : List FileDescriptor) :
    groups files = (packageNames files).map fun package => (package, members files package) := by
  have holds : (files.foldl Grouping.add {}).Holds files := by
    induction files using List.reverseRecOn with
    | nil => exact ⟨rfl, by simp [packageNames]⟩
    | append_singleton files file ih =>
      rw [List.foldl_concat]
      exact ih.add file
  exact holds.groups

/-! ## A stable partition -/

/-- The groups are a stable partition of the files by package: no two groups are of
one package, they come in the order in which the packages first appear, none is
empty, and each has the files of its package in their order. -/
structure Partitions (files : List FileDescriptor)
    (groups : List (Text × List FileDescriptor)) : Prop where
  distinct : (groups.map Prod.fst).Nodup
  ordered : (groups.map Prod.fst).Pairwise fun package package' =>
    (files.map (·.package)).idxOf package < (files.map (·.package)).idxOf package'
  nonempty : ∀ group ∈ groups, group.2 ≠ []
  own : ∀ group ∈ groups, group.2 = files.filter fun file => file.package = group.1
  all : (groups.flatMap Prod.snd).Perm files

/-- The files of different packages are all files, if no package is left out. -/
theorem perm_flatMap_members {packages : List Text} {files : List FileDescriptor}
    (distinct : packages.Nodup) (all : ∀ file ∈ files, file.package ∈ packages) :
    (packages.flatMap (members files)).Perm files := by
  induction packages generalizing files with
  | nil =>
    rw [List.eq_nil_iff_forall_not_mem.mpr fun file member => List.not_mem_nil (all file member)]
    exact .nil
  | cons package packages ih =>
    rw [List.nodup_cons] at distinct
    have others : packages.flatMap (members files) =
        packages.flatMap (members (files.filter fun file => !decide (file.package = package))) := by
      apply List.flatMap_congr
      intro other among
      rw [members, members, List.filter_filter]
      apply List.filter_congr
      intro file _
      by_cases own : file.package = other
      · have apart : other ≠ package := by
          rintro rfl
          exact distinct.1 among
        simp [own, apart]
      · simp [own]
    have rest : (packages.flatMap (members files)).Perm
        (files.filter fun file => !decide (file.package = package)) := by
      rw [others]
      apply ih distinct.2
      intro file member
      obtain ⟨among, other⟩ := List.mem_filter.mp member
      exact (List.mem_cons.mp (all file among)).resolve_left (by simpa using other)
    rw [List.flatMap_cons]
    exact (rest.append_left _).trans (List.filter_append_perm _ files)

theorem partitions_groups (files : List FileDescriptor) : Partitions files (groups files) := by
  have named : (groups files).map Prod.fst = packageNames files := by
    rw [groups_eq, List.map_map]
    exact List.map_id _
  have own : ∀ group ∈ groups files,
      group.1 ∈ packageNames files ∧ group.2 = members files group.1 := by
    intro group member
    rw [groups_eq] at member
    obtain ⟨package, among, rfl⟩ := List.mem_map.mp member
    exact ⟨among, rfl⟩
  refine ⟨?_, ?_, ?_, fun group member => (own group member).2, ?_⟩
  · rw [named]
    exact nodup_packageNames files
  · rw [named]
    exact pairwise_idxOf_eraseDups _
  · intro group member
    rw [(own group member).2]
    exact members_ne_nil (own group member).1
  · rw [groups_eq, List.flatMap_map]
    exact perm_flatMap_members (nodup_packageNames files) fun file member =>
      mem_packageNames_iff.mpr (List.mem_map_of_mem member)

/-! ## Runs -/

/-- Behind a generator, a run takes the requested files and generates their groups in
order. -/
theorem result_run_of_generator {languages : Languages} {request : RunRequest}
    {generator : Generator}
    (registered : languages.generator request.options.withDefaults.language
      request.options.withDefaults (TypeIndex.ofFiles request.files) = .ok generator) :
    (request.run languages).result =
      selected request.files request.requested >>= fun files =>
        List.flatten <$> (groups files).mapM fun group =>
          (generator.generatePackage group.1 group.2).result.mapError (.package group.1) := by
  rw [run]
  simp only [Logged.result_bind, Logged.result_debug, Logged.result_lift, Result.ok_bind,
    registered, Logged.result_mapM, Logged.result_mapError, Logged.result_info,
    Logged.result_pure]
  simp only [Result.bind_ok]

/-- With a generator for its language, a run fails for a missing file exactly when
some requested name is that of no file, and reports the first such name.  Otherwise
the requested files are put in groups, a stable partition by package.  The run
returns the outputs of the groups one behind the other; or, if some group fails, the
failure of the first that does, with the name of its package, and no files. -/
theorem run_by_package_all_or_nothing (languages : Languages) (request : RunRequest)
    {generator : Generator}
    (registered : languages.generator request.options.withDefaults.language
      request.options.withDefaults (TypeIndex.ofFiles request.files) = .ok generator) :
    let result := (request.run languages).result
    (∃ before missing after, request.requested = before ++ missing :: after ∧
      (∀ name ∈ before, ¬Missing request.files name) ∧ Missing request.files missing ∧
      selected request.files request.requested = .error (.fileNotFound missing) ∧
      result = .error (.fileNotFound missing)) ∨
    ((∀ name ∈ request.requested, ¬Missing request.files name) ∧
      ∃ files, selected request.files request.requested = .ok files ∧
        AreRequested request.files request.requested files ∧ Partitions files (groups files) ∧
        ((∃ outputs, List.Forall₂ (fun group output =>
            (generator.generatePackage group.1 group.2).result = .ok output)
            (groups files) outputs ∧ result = .ok outputs.flatten) ∨
          ∃ before group after fault, groups files = before ++ group :: after ∧
            (∀ earlier ∈ before, ∃ output,
              (generator.generatePackage earlier.1 earlier.2).result = .ok output) ∧
            (generator.generatePackage group.1 group.2).result = .error fault ∧
            result = .error (.package group.1 fault))) := by
  intro result
  have result_eq : result = _ := result_run_of_generator registered
  cases taken : selected request.files request.requested with
  | error error =>
    obtain ⟨before, missing, after, split, present, absent, rfl⟩ := selected_eq_error_iff.mp taken
    rw [taken] at result_eq
    exact .inl ⟨before, missing, after, split, present, absent, rfl, result_eq⟩
  | ok files =>
    have requested := selected_eq_ok_iff.mp taken
    refine .inr ⟨requested.not_missing, files, rfl, requested, partitions_groups files, ?_⟩
    rw [taken, Result.ok_bind] at result_eq
    cases made : (groups files).mapM fun group =>
        (generator.generatePackage group.1 group.2).result.mapError (RunError.package group.1) with
    | error error =>
      rw [made] at result_eq
      obtain ⟨before, group, after, split, fine, failed⟩ := Result.mapM_eq_error_iff.mp made
      simp only [Result.mapError_eq_ok_iff] at fine
      obtain ⟨fault, faulty, rfl⟩ := Result.mapError_eq_error_iff.mp failed
      exact .inr ⟨before, group, after, fault, split, fine, faulty, result_eq⟩
    | ok outputs =>
      rw [made] at result_eq
      refine .inl ⟨outputs, (Result.forall₂_of_mapM_eq_ok made).imp ?_, result_eq⟩
      exact fun group output => Result.mapError_eq_ok_iff.mp

/-- Two packages whose files are asked for in turn, one of the files twice; the
generator lists the files of a package. -/
theorem run_of_interleaved_packages :
    let first : FileDescriptor := { name := "a", package := "p" }
    let second : FileDescriptor := { name := "b", package := "q" }
    let third : FileDescriptor := { name := "c", package := "p" }
    let lister : Generator := {
      language := "list", extension := ".txt"
      generatePackage := fun package files => pure [{
        path := package, content := Text.join "," (files.map (·.name)) }] }
    let languages := Languages.register {} "list" fun _ _ => .ok lister
    let request : RunRequest := {
      files := [first, second, third], requested := ["c", "b", "a", "c"]
      options := { language := "list" } }
    let asked := [third, second, first, third]
    languages.generator request.options.withDefaults.language request.options.withDefaults
        (TypeIndex.ofFiles request.files) = .ok lister ∧
      AreRequested request.files request.requested asked ∧
      groups asked = [(Text.ofString "p", [third, first, third]), (Text.ofString "q", [second])] ∧
      Partitions asked (groups asked) ∧
      (request.run languages).result =
        .ok [{ path := "p", content := "c,a,c" }, { path := "q", content := "b" }] := by
  intro first second third lister languages request asked
  have registered : languages.generator request.options.withDefaults.language
      request.options.withDefaults (TypeIndex.ofFiles request.files) = .ok lister := rfl
  have taken : selected request.files request.requested = .ok asked := rfl
  rcases run_by_package_all_or_nothing languages request registered with
    ⟨-, missing, -, -, -, -, notFound, -⟩ | ⟨-, files, found, requested, partition, outcome⟩
  · exact absurd (taken.symm.trans notFound) (by simp)
  · obtain rfl : asked = files := Except.ok.inj (taken.symm.trans found)
    refine ⟨registered, requested, rfl, partition, ?_⟩
    rcases outcome with ⟨outputs, each, returned⟩ | ⟨-, group, -, fault, -, -, failed, -⟩
    · rw [returned]
      cases each with
      | cons one rest =>
        cases rest with
        | cons other rest =>
          cases rest
          cases one
          cases other
          rfl
    · contradiction

end Protoclass.RunRequest
