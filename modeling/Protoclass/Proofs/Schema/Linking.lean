import Protoclass.Proofs.Schema.ImportOrder
import Protoclass.Proofs.Schema.Loading
import Protoclass.Proofs.Types.Index
import Protoclass.Schema.Compile

/-!
# Linked files

The linker of some sources reads the requested files with all that they need, and
links one after another.  What it gives is one compiled file for each requested path,
and each of the files that these reach is known by its path.
-/

namespace Protoclass.Schema

open Relation

theorem FileSource.name_of_link {path : Text} {symbols : List Symbol} {file : FileSource}
    {descriptor : FileDescriptor} (linked : file.link path symbols = .ok descriptor) :
    descriptor.name = path := by
  unfold link at linked
  rcases Result.bind_eq_ok_iff.mp linked with ⟨messages, -, linked⟩
  rcases Result.bind_eq_ok_iff.mp linked with ⟨services, -, linked⟩
  cases linked
  rfl

/-! ## Tables of linked files -/

namespace Files

variable {linked : Files LinkedFile}

theorem mem_of_mem_pick {paths : List Text} {made : LinkedFile}
    (picked : made ∈ linked.pick paths) : ∃ path ∈ paths, (path, made) ∈ linked := by
  rcases List.mem_filterMap.mp picked with ⟨path, asked, found⟩
  exact ⟨path, asked, mem_of_lookup_eq_some found⟩

/-- Linked files of which each stands once and under its own path, together with all
that it imports. -/
structure Consistent (linked : Files LinkedFile) : Prop where
  nodup : linked.paths.Nodup
  path_eq : ∀ entry ∈ linked, entry.2.file.path = entry.1
  name_eq : ∀ entry ∈ linked, entry.2.file.descriptor.name = entry.1
  imports_mem : ∀ entry ∈ linked, ∀ file ∈ entry.2.file.imports, ∃ other ∈ linked,
    other.2.file = file

theorem consistent_nil : Files.Consistent [] := by
  constructor <;> simp [Files.paths]

namespace Consistent

theorem add (consistent : linked.Consistent) {path : Text} {file : FileSource}
    {made : LinkedFile} (new : path ∉ linked.paths) (result : file.linkTo linked path = .ok made) :
    Files.Consistent ((path, made) :: linked) := by
  unfold FileSource.linkTo at result
  rcases Result.bind_eq_ok_iff.mp result with ⟨descriptor, described, rest⟩
  cases rest
  constructor
  · exact List.nodup_cons.mpr ⟨new, consistent.nodup⟩
  · exact List.forall_mem_cons.mpr ⟨rfl, consistent.path_eq⟩
  · exact List.forall_mem_cons.mpr ⟨FileSource.name_of_link described, consistent.name_eq⟩
  · rintro entry among imported isImport
    rcases List.mem_cons.mp among with rfl | earlier
    · rcases List.mem_map.mp isImport with ⟨needed, picked, rfl⟩
      rcases mem_of_mem_pick picked with ⟨other, -, there⟩
      exact ⟨_, List.mem_cons_of_mem _ there, rfl⟩
    · rcases consistent.imports_mem entry earlier imported isImport with ⟨other, there, same⟩
      exact ⟨other, List.mem_cons_of_mem _ there, same⟩

theorem linkAll (consistent : linked.Consistent) {files : Files FileSource}
    {more : Files LinkedFile} (distinct : (files.paths ++ linked.paths).Nodup)
    (result : Schema.linkAll linked files = .ok more) :
    more.Consistent ∧ files.paths ++ linked.paths ⊆ more.paths := by
  induction files generalizing linked with
  | nil =>
    cases result
    exact ⟨consistent, List.Subset.refl _⟩
  | cons entry rest ih =>
    rcases entry with ⟨path, file⟩
    rw [Schema.linkAll] at result
    rcases Result.bind_eq_ok_iff.mp result with ⟨made, isMade, others⟩
    have moved : (path :: (Files.paths rest ++ linked.paths)).Perm
        (Files.paths rest ++ Files.paths ((path, made) :: linked)) := List.perm_middle.symm
    have new : path ∉ linked.paths := fun there =>
      (List.nodup_cons.mp distinct).1 (List.mem_append_right _ there)
    rcases ih (consistent.add new isMade) (moved.nodup distinct) others with ⟨isConsistent, sub⟩
    exact ⟨isConsistent, List.Subset.trans moved.subset sub⟩

/-- The files that are picked by paths have these paths. -/
theorem map_path_pick (consistent : linked.Consistent) {paths : List Text}
    (there : paths ⊆ linked.paths) :
    ((linked.pick paths).map (·.file)).map (·.path) = paths := by
  induction paths with
  | nil => rfl
  | cons path rest ih =>
    rcases List.cons_subset.mp there with ⟨first, others⟩
    rcases mem_paths.mp first with ⟨made, among⟩
    have found : linked.lookup path = some made := by
      apply lookup_eq_some_of_unique among
      intro other alsoAmong
      exact congrArg Prod.snd (List.inj_on_of_nodup_map consistent.nodup alsoAmong among rfl)
    have rest_eq := ih others
    simp only [Files.pick, List.filterMap_cons, found, List.map_cons,
      consistent.path_eq _ among] at rest_eq ⊢
    rw [rest_eq]

theorem identified (consistent : linked.Consistent) (paths : List Text) :
    Identified ((linked.pick paths).map (·.file)) := by
  have paths_eq : (linked.map (·.2.file)).map (·.path) = linked.paths := by
    rw [List.map_map]
    exact List.map_congr_left consistent.path_eq
  apply identified_of_subset (linked.map (·.2.file))
  · intro file picked
    rcases List.mem_map.mp picked with ⟨made, isPicked, rfl⟩
    rcases mem_of_mem_pick isPicked with ⟨path, -, there⟩
    exact List.mem_map_of_mem there
  · intro file among imported isImport
    rcases List.mem_map.mp among with ⟨entry, there, rfl⟩
    rcases consistent.imports_mem entry there imported isImport with ⟨other, alsoThere, rfl⟩
    exact List.mem_map_of_mem alsoThere
  · exact paths_eq ▸ consistent.nodup
  · intro file among
    rcases List.mem_map.mp among with ⟨entry, there, rfl⟩
    rw [consistent.name_eq entry there, consistent.path_eq entry there]

end Consistent

end Files

/-! ## Sources -/

namespace Sources

/-- One file imports another. -/
abbrev Imports (sources : Sources) : Text → Text → Prop :=
  Needs sources.file (·.dependencies)

/-- A file is requested, or imported by a requested one, directly or not. -/
abbrev Reaches (sources : Sources) : List Text → Text → Prop :=
  Reached sources.file (·.dependencies)

variable {sources : Sources}

theorem mem_needed {path other : Text} (imported : sources.Imports path other) :
    other ∈ sources.needed := by
  rcases imported with ⟨file, found, needed⟩
  unfold Sources.file at found
  split at found
  · split at found
    · rename_i standard found'
      cases found
      rcases List.lookup_eq_some_iff.mp found' with ⟨before, after, eq, -⟩
      apply List.mem_append_right
      rw [eq]
      simp [needed]
    · cases found
  · rename_i text read
    split at found
    · cases found
    · rename_i parsed
      split at found
      · cases found
      · cases found
        apply List.mem_append_left
        rw [List.mem_flatMap]
        exact ⟨file, List.mem_filterMap.mpr ⟨text, sources.mem_texts path text read, parsed⟩,
          needed⟩

/-- The linker gives the files of the requested paths, and each file that they reach is
known by its path. -/
theorem linker_spec {requested : List Text} {files : List CompiledFile}
    (result : sources.linker requested = .ok files) :
    files.map (·.path) = requested ∧ Identified files := by
  replace result : sources.link requested = .ok files := Result.mapError_eq_ok_iff.mp result
  rw [Sources.link] at result
  rcases Result.bind_eq_ok_iff.mp result with ⟨loaded, isLoaded, result⟩
  split at result
  · cases result
  · rcases Result.bind_eq_ok_iff.mp result with ⟨linked, isLinked, result⟩
    cases result
    rcases loadAll_spec isLoaded with ⟨ordered, mem_iff⟩
    have distinct : (loaded.paths ++ Files.paths ([] : Files LinkedFile)).Nodup := by
      simpa [Files.paths] using ordered.nodup
    rcases Files.consistent_nil.linkAll distinct isLinked with ⟨consistent, sub⟩
    have there : requested ⊆ linked.paths := by
      intro path asked
      exact sub (List.mem_append_left _ ((mem_iff path).mpr ⟨path, asked, .refl⟩))
    exact ⟨consistent.map_path_pick there, consistent.identified requested⟩

/-- Loading succeeds exactly when all files that are reached can be read and none of
them needs itself: the limit is never met. -/
theorem exists_loadAll_iff (requested : List Text) :
    (∃ files, sources.loadAll requested = .ok files) ↔
      ∀ path, sources.Reaches requested path →
        (∃ file, sources.file path = .ok file) ∧ ¬ TransGen sources.Imports path path :=
  Schema.exists_loadAll_iff (fun _ _ => mem_needed) requested

end Sources

end Protoclass.Schema
