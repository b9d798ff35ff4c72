import Protoclass.Generation.Run
import Protoclass.Proofs.Schema.Linking

/-!
# What compiling returns

Compiling returns descriptors of the requested files and of all that these import,
in the order of imports.  So a run for the same files misses none of them.
-/

namespace Protoclass.RunRequest

theorem exists_file? {files : List FileDescriptor} {name : Text}
    (among : name ∈ files.map (·.name)) : ∃ file, file? files name = some file := by
  rcases List.mem_map.mp among with ⟨file, member, rfl⟩
  rw [file?, ← Option.isSome_iff_exists, List.find?_isSome]
  exact ⟨file, List.mem_reverse.mpr member, by simp⟩

/-- Where every requested file is among the files, none is missed. -/
theorem exists_selected {files : List FileDescriptor} {names : List Text}
    (among : names ⊆ files.map (·.name)) : ∃ picked, selected files names = .ok picked := by
  unfold selected
  split
  · exact ⟨files, rfl⟩
  · rw [← Result.error?_eq_none_iff]
    apply Result.error?_mapM_eq_none
    intro name asked
    rcases exists_file? (among asked) with ⟨file, found⟩
    rw [found]
    rfl

theorem result_run_ne_fileNotFound {request : RunRequest}
    (among : request.requested ⊆ request.files.map (·.name)) (languages : Languages)
    (name : Text) : (request.run languages).result ≠ .error (.fileNotFound name) := by
  rcases exists_selected among with ⟨picked, found⟩
  have only : Result.FailsOnly (fun error => error ≠ RunError.fileNotFound name)
      (request.run languages).result := by
    unfold run
    simp only [Logged.result_bind, Logged.result_debug, Logged.result_lift, Logged.result_info,
      Logged.result_pure, Logged.result_mapM, Logged.result_mapError, found, Result.ok_bind]
    apply Result.FailsOnly.bind
    · unfold Languages.generator
      split
      · exact Result.failsOnly_error_iff.mpr nofun
      · exact Result.failsOnly_mapError (fun _ => nofun) _
    · intro generator
      apply Result.FailsOnly.bind
      · exact Result.FailsOnly.mapM (fun _ => Result.failsOnly_mapError (fun _ => nofun) _) _
      · exact fun _ => Result.failsOnly_ok _
  exact fun failed => only _ failed rfl

end Protoclass.RunRequest

namespace Protoclass.Schema

theorem result_compile_of_ok {linker : Linker} {requested : List Text} {files : List CompiledFile}
    (linked : linker requested = .ok files) :
    (compile linker requested).result = .ok (closure files) := by
  unfold compile
  simp only [Logged.result_tagged, Logged.result_bind, Logged.result_debug, Logged.result_lift,
    Logged.result_pure, linked]
  rfl

/-- Whatever compiled files a linker gives, one for each requested path and each file
known by its path: compiling returns the descriptors of these files and of all that
they import, in the order of imports.  Every requested file is among them, so that a
run for the same files misses none. -/
theorem compile_lists_imports_first (linker : Linker) (requested : List Text)
    (files : List CompiledFile) (linked : linker requested = .ok files)
    (onePerPath : files.map (·.path) = requested) (identified : Identified files) :
    ∃ order, (compile linker requested).result = .ok (order.map (·.descriptor)) ∧
      IsImportOrder files order ∧
      (order.map (·.descriptor)).map (·.name) = order.map (·.path) ∧
      requested ⊆ order.map (·.path) ∧
      ∀ languages options name,
        (({ files := order.map (·.descriptor), requested, options } : RunRequest).run
          languages).result ≠ .error (.fileNotFound name) := by
  rcases exists_isImportOrder_closure identified with ⟨order, closure_eq, isOrder⟩
  have names : (order.map (·.descriptor)).map (·.name) = order.map (·.path) := by
    rw [List.map_map]
    exact List.map_congr_left fun file among => identified.name_eq ((isOrder.mem_iff file).mp among)
  have present : requested ⊆ order.map (·.path) := by
    rw [← onePerPath]
    exact List.map_subset _ fun file given => (isOrder.mem_iff file).mpr (.of_mem given)
  refine ⟨order, ?_, isOrder, names, present, ?_⟩
  · rw [result_compile_of_ok linked, closure_eq]
  · intro languages options name
    exact RunRequest.result_run_ne_fileNotFound (names ▸ present) languages name

/-- A compiled file that declares nothing. -/
def emptyFile (path : Text) (imports : List CompiledFile) : CompiledFile :=
  .mk path { name := path, dependencies := imports.map (·.path) } imports

/-- A file, two files that import it, and one that imports these two. -/
def sharedFile : CompiledFile := emptyFile "shared.proto" []
def leftFile : CompiledFile := emptyFile "left.proto" [sharedFile]
def rightFile : CompiledFile := emptyFile "right.proto" [sharedFile]
def topFile : CompiledFile := emptyFile "top.proto" [leftFile, rightFile]

theorem compile_shared_import_first :
    let linker : Linker := fun _ => .ok [rightFile, topFile]
    let requested : List Text := ["right.proto", "top.proto"]
    let paths : List Text := ["shared.proto", "right.proto", "left.proto", "top.proto"]
    Identified [rightFile, topFile] ∧
      ∃ order, (compile linker requested).result = .ok (order.map (·.descriptor)) ∧
        IsImportOrder [rightFile, topFile] order ∧ order.map (·.path) = paths := by
  intro linker requested paths
  have identified : Identified [rightFile, topFile] := by
    apply identified_of_subset [sharedFile, rightFile, leftFile, topFile]
    · simp
    · simp [sharedFile, rightFile, leftFile, topFile, emptyFile, CompiledFile.imports]
    · decide +kernel
    · simp [sharedFile, rightFile, leftFile, topFile, emptyFile, CompiledFile.path,
        CompiledFile.descriptor]
  rcases compile_lists_imports_first linker requested _ rfl rfl identified with
    ⟨order, compiled, isOrder, names, -, -⟩
  refine ⟨identified, order, compiled, isOrder, ?_⟩
  have evaluated : (compile linker requested).result = .ok (closure [rightFile, topFile]) :=
    result_compile_of_ok rfl
  rw [evaluated, Except.ok.injEq] at compiled
  rw [← names, ← compiled]
  decide +kernel

end Protoclass.Schema
