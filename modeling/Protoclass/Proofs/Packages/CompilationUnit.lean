import Protoclass.Proofs.Packages.Restriction
import Protoclass.Proofs.Types.Dependence

/-!
# The files around a run

A run is given all files of a schema, and asked for some of them by name.  The
others only matter for the enums that they declare.  Where files and declarations
have names of their own, the order of the files makes no difference, and neither do
further files once the run succeeds without them.
-/

namespace Protoclass

variable {types types' : TypeIndex}

/-! ## Packages -/

namespace Package

variable {options : Options} {package : Text} {files : List FileDescriptor}

theorem result_generate_congr
    (same : ∀ reference, types.lookup reference = types'.lookup reference) :
    (generate options types package files).result =
      (generate options types' package files).result := by
  have bodies_eq : bodies types files = bodies types' files := by
    apply Result.mapM_congr
    intro file _
    exact FileDescriptor.result_emit_congr fun _ _ _ _ field _ _ => same field.typeName
  rw [result_generate, result_generate, bodies_eq]

theorem result_generate_of_extends (extend : types.Extends types') {written : List OutputFile}
    (made : (generate options types package files).result = .ok written) :
    (generate options types' package files).result = .ok written := by
  rw [result_generate] at made ⊢
  obtain ⟨texts, emitted, rfl⟩ := Result.map_eq_ok_iff.mp made
  have emitted' : bodies types' files = .ok texts := by
    refine Result.mapM_eq_ok_of_imp ?_ emitted
    intro file text
    exact FileDescriptor.result_emit_of_extends extend
  rw [emitted']
  rfl

end Package

namespace RunRequest

/-! ## Requested files -/

theorem file?_eq_lookup (files : List FileDescriptor) (name : Text) :
    file? files name = (files.map fun file => (file.name, file)).reverse.lookup name := by
  rw [file?, ← List.map_reverse]
  induction files.reverse with
  | nil => rfl
  | cons file rest ih =>
    rw [List.map_cons, List.lookup_cons, ← ih]
    by_cases same : file.name = name
    · rw [List.find?_cons_of_pos (by simpa using same), same, beq_self_eq_true]
    · rw [List.find?_cons_of_neg (by simpa using same), beq_false_of_ne (Ne.symm same)]

theorem file?_eq_some_of_perm {files added wider : List FileDescriptor}
    (distinct : (files.map (·.name)).Nodup)
    (new : ∀ file ∈ added, file.name ∉ files.map (·.name)) (perm : wider.Perm (files ++ added))
    {name : Text} {file : FileDescriptor} (found : file? files name = some file) :
    file? wider name = some file := by
  have named (files : List FileDescriptor) :
      ((files.map fun file => (file.name, file)).reverse.map Prod.fst).Perm
        (files.map (·.name)) := by
    rw [List.map_reverse, List.map_map]
    exact List.reverse_perm _
  have entered : ((wider.map fun file => (file.name, file)).reverse).Perm
      ((files.map fun file => (file.name, file)).reverse ++
        added.map fun file => (file.name, file)) := by
    refine (List.reverse_perm _).trans ((perm.map _).trans ?_)
    rw [List.map_append]
    exact (List.reverse_perm _).symm.append_right _
  rw [file?_eq_lookup] at found ⊢
  refine lookup_eq_some_of_perm ((named files).nodup_iff.mpr distinct) ?_ entered found
  intro key among
  rw [(named files).mem_iff]
  rw [List.map_map] at among
  obtain ⟨file, isNew, rfl⟩ := List.mem_map.mp among
  exact new file isNew

theorem selected_congr {files files' : List FileDescriptor}
    (same : ∀ name, file? files name = file? files' name) {names : List Text}
    (nonempty : names ≠ []) : selected files names = selected files' names := by
  obtain ⟨name, names, rfl⟩ := List.exists_cons_of_ne_nil nonempty
  unfold selected
  simp only [same]

theorem selected_of_extends {files wider picked : List FileDescriptor}
    (extend : ∀ name file, file? files name = some file → file? wider name = some file)
    {names : List Text} (nonempty : names ≠ []) (found : selected files names = .ok picked) :
    selected wider names = .ok picked := by
  obtain ⟨name, names, rfl⟩ := List.exists_cons_of_ne_nil nonempty
  refine Result.mapM_eq_ok_of_imp ?_ found
  intro name file taken
  split at taken
  case h_1 file' matched =>
    cases taken
    rw [extend name file matched]
  case h_2 => contradiction

/-! ## Runs -/

theorem outcomes_congr {options : Options} {files : List FileDescriptor}
    (same : ∀ reference, types.lookup reference = types'.lookup reference) :
    outcomes options types files = outcomes options types' files := by
  apply Result.mapM_congr
  intro group _
  rw [Package.result_generate_congr same]

theorem outcomes_of_extends {options : Options} {files : List FileDescriptor}
    {outputs : List (List OutputFile)} (extend : types.Extends types')
    (made : outcomes options types files = .ok outputs) :
    outcomes options types' files = .ok outputs := by
  refine Result.mapM_eq_ok_of_imp ?_ made
  intro group output generated
  rw [Result.mapError_eq_ok_iff] at generated ⊢
  exact Package.result_generate_of_extends extend generated

/-- Where no two files and no two declarations have the same name, a run that is
asked for files by name returns the same files, or fails with the same error, in
whatever order the files of the schema come.  If it succeeds, further files that
declare new names, wherever they stand, change nothing. -/
theorem run_independent_of_other_files (request : RunRequest) (named : request.requested ≠ [])
    (distinct : (request.files.map (·.name)).Nodup)
    (declared : ((declarations request.files).map Prod.fst).Nodup) :
    (∀ files, files.Perm request.files →
      ({ request with files }.run Languages.standard).result =
        (request.run Languages.standard).result) ∧
    ∀ added files written, files.Perm (request.files ++ added) →
      (∀ file ∈ added, file.name ∉ request.files.map (·.name)) →
      (∀ name ∈ (declarations added).map Prod.fst,
        name ∉ (declarations request.files).map Prod.fst) →
      (request.run Languages.standard).result = .ok written →
      ({ request with files }.run Languages.standard).result = .ok written := by
  constructor
  · intro files perm
    -- Two orders extend each other, with nothing added.
    have back : request.files.Perm (files ++ []) := by
      rw [List.append_nil]
      exact perm.symm
    have forth : files.Perm (request.files ++ []) := by
      rw [List.append_nil]
      exact perm
    have distinct' : (files.map (·.name)).Nodup := (perm.map _).nodup_iff.mpr distinct
    have declared' : ((declarations files).map Prod.fst).Nodup :=
      ((perm.flatMap_right _).map _).nodup_iff.mpr declared
    have types_eq : ∀ reference, (TypeIndex.ofFiles files).lookup reference =
        (TypeIndex.ofFiles request.files).lookup reference :=
      (TypeIndex.extends_ofFiles declared' (by simp [declarations]) back).lookup_eq
        (TypeIndex.extends_ofFiles declared (by simp [declarations]) forth)
    have files_eq : ∀ name, file? files name = file? request.files name := by
      intro name
      apply Option.ext
      intro file
      exact ⟨file?_eq_some_of_perm distinct' (by simp) back,
        file?_eq_some_of_perm distinct (by simp) forth⟩
    rw [result_run_standard, result_run_standard, selected_congr files_eq named]
    simp only [outcomes_congr types_eq]
  · intro added files written perm newFiles newNames ran
    rw [result_run_standard] at ran ⊢
    dsimp only at ran ⊢
    split at ran
    case isFalse => contradiction
    case isTrue supported =>
      rw [if_pos supported]
      obtain ⟨picked, found, ran⟩ := Result.bind_eq_ok_iff.mp ran
      obtain ⟨outputs, made, rfl⟩ := Result.map_eq_ok_iff.mp ran
      have found' := selected_of_extends
        (fun _ _ => file?_eq_some_of_perm distinct newFiles perm) named found
      have made' := outcomes_of_extends (TypeIndex.extends_ofFiles declared newNames perm) made
      rw [found', Result.ok_bind, made']
      rfl

/-- A message that takes its default from an enum of another file: the two files in
either order, and with a third one before them. -/
theorem run_of_enum_default_independent_of_other_files :
    let declaring : FileDescriptor := {
      name := "e.proto", package := "p", enums := [{ name := "E", values := [{ name := "A" }] }] }
    let referring : FileDescriptor := {
      name := "m.proto", package := "q", dependencies := ["e.proto"]
      messages := [{
        name := "M", fields := [{ name := "e", typeCode := 14, typeName := ".p.E" }] }] }
    let other : FileDescriptor := {
      name := "x.proto", package := "r", messages := [{ name := "X" }] }
    let request : RunRequest := { files := [declaring, referring], requested := ["m.proto"] }
    ({ request with files := [referring, declaring] }.run Languages.standard).result =
        (request.run Languages.standard).result ∧
      ∃ written, (request.run Languages.standard).result = .ok written ∧
        ({ request with files := [other, referring, declaring] }.run Languages.standard).result =
          .ok written := by
  intro declaring referring other request
  have distinct : (request.files.map (·.name)).Nodup := by decide
  have declared : ((declarations request.files).map Prod.fst).Nodup := by decide
  have independent := run_independent_of_other_files request (by decide) distinct declared
  refine ⟨independent.1 _ (.swap _ _ _), ?_⟩
  have succeeds : Result.error? (request.run Languages.standard).result = none := by decide +kernel
  obtain ⟨written, ran⟩ := Result.error?_eq_none_iff.mp succeeds
  refine ⟨written, ran, independent.2 [other] _ written ?_ (by decide) (by decide) ran⟩
  exact List.reverse_perm [declaring, referring, other]

end RunRequest

end Protoclass
