import Protoclass.Proofs.Imports.Merging
import Protoclass.Proofs.Packages.Restriction

/-!
# One module or several

The files of a package become a module each, or one module for all of them.  Both
ways fail alike, and both write the same code: the one module has the code of the
files one behind the other, and the imports of other packages that the several
modules have, each once.
-/

namespace Protoclass.Package

/-! ## Merged imports -/

theorem flatImports_eq (options : Options) (package : Text) (files : List FileDescriptor) :
    flatImports options package files =
      ImportBlock.addDependencies { package, target := options.targetPackage }
        (files.flatMap (·.dependencies)) true := by
  rw [flatImports]
  induction files using List.reverseRecOn with
  | nil => rfl
  | append_singleton files file ih =>
    rw [List.foldl_append, ih, List.flatMap_append, ImportBlock.addDependencies_append,
      List.flatMap_singleton]
    rfl

/-- What the dependencies of one file ask for, without siblings. -/
theorem aliased_fileImports (options : Options) (package : Text) (file : FileDescriptor) :
    (fileImports options package file).aliased =
      (file.dependencies.filterMap (ImportBlock.importOf? package true)).eraseDups.map
        (Import.statement options.targetPackage) := by
  have packages : (fileImports options package file).imports.filter Import.isPackage =
      (file.dependencies.filterMap (ImportBlock.importOf? package true)).eraseDups := by
    rw [fileImports, ImportBlock.imports_addDependencies, filter_eraseDups, List.filter_filterMap]
    simp only [← ImportBlock.importOf?_skip_siblings]
  rw [ImportBlock.aliased, packages, fileImports, ImportBlock.target_addDependencies]

theorem statements_flatImports (options : Options) (package : Text)
    (files : List FileDescriptor) :
    (flatImports options package files).statements =
      (files.flatMap fun file => (fileImports options package file).aliased).eraseDups := by
  rw [flatImports_eq, ImportBlock.statements, ImportBlock.target_addDependencies,
    ImportBlock.imports_addDependencies, ← eraseDups_map ImportBlock.statement_injOn_packages,
    List.filterMap_flatMap, List.map_flatMap]
  apply eraseDups_flatMap_congr
  intro file _
  rw [aliased_fileImports, ← eraseDups_map ImportBlock.statement_injOn_packages,
    eraseDups_eraseDups]

/-! ## Final line ends -/

/-- The line ends that `text` ends in are collapsed to one in `collapsed`. -/
def CollapsesTo (text collapsed : Text) : Prop :=
  ∃ rest n, rest.getLast? ≠ some Text.newline ∧ text = rest ++ List.replicate n Text.newline ∧
    collapsed = rest ++ List.replicate (min n 1) Text.newline

theorem collapsesTo_trimNewlines (text : Text) : CollapsesTo text (trimNewlines text) := by
  have split : text.reverse = text.reverse.takeWhile (· == Text.newline) ++
      text.reverse.dropWhile (· == Text.newline) := List.takeWhile_append_dropWhile.symm
  have ends : text.reverse.takeWhile (· == Text.newline) =
      List.replicate (text.reverse.takeWhile (· == Text.newline)).length Text.newline := by
    rw [List.eq_replicate_length]
    intro b member
    exact beq_iff_eq.mp (List.all_eq_true.mp List.all_takeWhile b member)
  have stops := List.head?_dropWhile_not (· == Text.newline) text.reverse
  rw [trimNewlines]
  generalize text.reverse.takeWhile (· == Text.newline) = final at split ends
  generalize text.reverse.dropWhile (· == Text.newline) = rest at split stops ⊢
  have text_eq : text = rest.reverse ++ List.replicate final.length Text.newline := by
    rw [← text.reverse_reverse, split, ends]
    simp
  refine ⟨rest.reverse, final.length, ?_, text_eq, ?_⟩
  · intro last
    rw [List.getLast?_reverse] at last
    simp [last] at stops
  · have length_eq := congrArg List.length text_eq
    simp only [List.length_append, List.length_reverse, List.length_replicate] at length_eq
    by_cases short : final.length ≤ 1
    · rw [if_pos (by omega), Nat.min_eq_left short]
      exact text_eq
    · rw [if_neg (by omega), Nat.min_eq_right (by omega)]
      simp

theorem prefix_of_prefix_append_newlines {front rest : Text} {n : Nat}
    (starts : front <+: rest ++ List.replicate n Text.newline)
    (unended : front.getLast? ≠ some Text.newline) : front <+: rest := by
  rcases List.prefix_or_prefix_of_prefix starts (List.prefix_append rest _) with
    shorter | ⟨more, rfl⟩
  · exact shorter
  -- What goes on behind `rest` are line ends, and there are none of them.
  · rw [List.prefix_append_right_inj] at starts
    rcases List.eq_nil_or_concat more with rfl | ⟨others, last, rfl⟩
    · exact ⟨[], by simp only [List.append_nil]⟩
    · have isEnd : last = Text.newline :=
        List.eq_of_mem_replicate (starts.subset (by simp))
      simp [isEnd] at unended

/-- What does not end in a line end is not shortened. -/
theorem prefix_trimNewlines {front text : Text} (starts : front <+: text)
    (unended : front.getLast? ≠ some Text.newline) : front <+: trimNewlines text := by
  obtain ⟨rest, n, -, rfl, collapsed⟩ := collapsesTo_trimNewlines text
  rw [collapsed]
  exact (prefix_of_prefix_append_newlines starts unended).trans (List.prefix_append _ _)

/-- Of the line ends behind it, one stays. -/
theorem line_prefix_trimNewlines {front text : Text} (starts : front ++ [Text.newline] <+: text)
    (unended : front.getLast? ≠ some Text.newline) :
    front ++ [Text.newline] <+: trimNewlines text := by
  obtain ⟨rest, n, -, rfl, collapsed⟩ := collapsesTo_trimNewlines text
  obtain ⟨more, rfl⟩ :=
    prefix_of_prefix_append_newlines ((List.prefix_append _ _).trans starts) unended
  rw [List.append_assoc, List.prefix_append_right_inj] at starts
  rw [collapsed, List.append_assoc, List.prefix_append_right_inj]
  cases more with
  | nil =>
    obtain ⟨k, rfl⟩ : ∃ k, n = k + 1 := by
      cases n with
      | zero => simp at starts
      | succ k => exact ⟨k, rfl⟩
    simp
  | cons b more =>
    rw [List.cons_append, List.cons_prefix_cons] at starts ⊢
    exact ⟨starts.1, List.nil_prefix⟩

/-! ## Both ways of packing -/

theorem result_generate_selected {options : Options} {types : TypeIndex} {package : Text}
    {files : List FileDescriptor} (selected : Selects options.packages package) :
    (generate options types package files).result =
      assemble options package files <$> bodies types files := by
  have full : output package options.packages = .full := by rw [output_eq, if_pos selected]
  rw [result_generate, full]

theorem result_generatePackage_flat {options : Options} {types : TypeIndex} {package : Text}
    {files : List FileDescriptor} (nonempty : files ≠ [])
    (selected : Selects options.packages package) :
    ((generator { options with flatPack := true } types).generatePackage package files).result =
      (fun codes => [flatFile options.withDefaults package files codes]) <$> bodies types files := by
  have packed : assemble { options with flatPack := true }.withDefaults package files =
      fun codes => [flatFile options.withDefaults package files codes] := by
    funext codes
    exact if_pos (by simp [Options.withDefaults, nonempty])
  rw [← packed]
  exact result_generate_selected selected

theorem result_generatePackage_perFile {options : Options} {types : TypeIndex} {package : Text}
    {files : List FileDescriptor} (perFile : options.flatPack = false ∨ files = [])
    (selected : Selects options.packages package) :
    ((generator options types).generatePackage package files).result =
      (fun codes => List.zipWith (fileModule options.withDefaults package) files codes
        ++ [manifest package files]) <$> bodies types files := by
  have unpacked : assemble options.withDefaults package files = fun codes =>
      List.zipWith (fileModule options.withDefaults package) files codes
        ++ [manifest package files] := by
    funext codes
    refine if_neg ?_
    rcases perFile with several | none <;> simp_all [Options.withDefaults]
  rw [← unpacked]
  exact result_generate_selected selected

/-- The module of each file is among what is written. -/
theorem exists_fileModule_mem {options : Options} {types : TypeIndex} {package : Text}
    {files : List FileDescriptor} {codes : List Text} {file : FileDescriptor}
    (emitted : bodies types files = .ok codes) (member : file ∈ files) :
    ∃ code, (file.emit types).result = .ok code ∧
      fileModule options package file code ∈
        List.zipWith (fileModule options package) files codes := by
  obtain ⟨i, found⟩ := List.mem_iff_getElem?.mp member
  obtain ⟨code, coded, ofFile⟩ := Result.exists_getElem?_of_mapM_eq_ok
    (f := fun file : FileDescriptor => (file.emit types).result) emitted found
  refine ⟨code, ofFile, List.mem_of_getElem? (i := i) ?_⟩
  rw [List.getElem?_zipWith, found, coded]

theorem fileModule_eq (options : Options) (package : Text) :
    fileModule options package = fun file code => {
      path := Path.join (directory package) (moduleName file.name ++ extension)
      content := trimNewlines
        (header ++ standardImports ++ (fileImports options package file).render ++ code) } := by
  funext file code
  rw [fileModule, moduleText_eq, List.flatten_singleton]

theorem flatFile_eq (options : Options) (package : Text) (files : List FileDescriptor)
    (codes : List Text) :
    flatFile options package files codes = {
      path := flatPath package
      content := trimNewlines (header ++ standardImports
        ++ (flatImports options package files).render ++ codes.flatten) } := by
  rw [flatFile, moduleText_eq]

/-- Whether the files of a selected package go into one module or into several,
generation fails alike, and otherwise the code of each file is the same.  Of the
several modules each has the code of its file; the one module has the code of all
files in order.  Its imports are those of other packages that the several modules
have, in order and each once. -/
theorem flat_module_has_same_code (options : Options) (types : TypeIndex) {package : Text}
    {files : List FileDescriptor} (nonempty : files ≠ [])
    (selected : Selects options.packages package) :
    let perFile := ((generator { options with flatPack := false } types).generatePackage package
      files).result
    let flat := ((generator { options with flatPack := true } types).generatePackage package
      files).result
    let imports := fileImports options.withDefaults package
    let merged := flatImports options.withDefaults package files
    (∃ fault, perFile = .error fault ∧ flat = .error fault) ∨
      ∃ codes,
        List.Forall₂ (fun file code => (file.emit types).result = .ok code) files codes ∧
        perFile = .ok (List.zipWith (fun file code => {
            path := Path.join (directory package) (moduleName file.name ++ extension)
            content := trimNewlines (header ++ standardImports ++ (imports file).render ++ code) })
          files codes ++ [manifest package files]) ∧
        flat = .ok [{
          path := flatPath package
          content := trimNewlines
            (header ++ standardImports ++ merged.render ++ codes.flatten) }] ∧
        merged.statements = (files.flatMap fun file => (imports file).aliased).eraseDups ∧
        ∀ text, CollapsesTo text (trimNewlines text) := by
  intro perFile flat imports merged
  have perFile_eq : perFile = (fun codes => List.zipWith (fileModule options.withDefaults package)
      files codes ++ [manifest package files]) <$> bodies types files :=
    @result_generatePackage_perFile { options with flatPack := false } types package files
      (.inl rfl) selected
  have flat_eq : flat = _ := result_generatePackage_flat nonempty selected
  cases emitted : bodies types files with
  | error fault =>
    rw [emitted] at perFile_eq flat_eq
    exact .inl ⟨fault, perFile_eq, flat_eq⟩
  | ok codes =>
    rw [emitted, fileModule_eq] at perFile_eq
    simp only [emitted, flatFile_eq] at flat_eq
    exact .inr ⟨codes, Result.forall₂_of_mapM_eq_ok emitted, perFile_eq, flat_eq,
      statements_flatImports options.withDefaults package files, collapsesTo_trimNewlines⟩

/-- Two files that depend on a third package in common: the first also on its sibling,
the second on one more package. -/
theorem flat_module_merges_shared_import :
    let files : List FileDescriptor :=
      [{ name := "trac/m/a.proto", package := "trac.m", enums := [{ name := "E" }]
         dependencies := ["trac/m/b.proto", "trac/c/x.proto"] },
       { name := "trac/m/b.proto", package := "trac.m", messages := [{ name := "M" }]
         dependencies := ["trac/d/y.proto", "trac/c/z.proto"] }]
    files ≠ [] ∧ Selects "trac" "trac.m" ∧
      ∃ codes : List Text,
        List.Forall₂ (fun file code => (file.emit {}).result = .ok code) files codes ∧
        ((generator { packages := "trac", flatPack := true } {}).generatePackage "trac.m"
            files).result = .ok [{
          path := "trac/m.py"
          content := trimNewlines (header ++ standardImports
            ++ "import trac.c as c\nimport trac.d as d\n\n\n" ++ codes.flatten) }] := by
  intro files
  have nonempty : files ≠ [] := List.cons_ne_nil _ _
  have selected : Selects "trac" "trac.m" := by decide
  refine ⟨nonempty, selected, ?_⟩
  have succeeds : Result.error? ((generator { packages := "trac", flatPack := true }
      {}).generatePackage "trac.m" files).result = none := by decide +kernel
  have imports : (flatImports { packages := "trac" : Options }.withDefaults "trac.m" files).render =
      "import trac.c as c\nimport trac.d as d\n\n\n" := by decide +kernel
  have path : flatPath "trac.m" = "trac/m.py" := by decide
  rcases flat_module_has_same_code { packages := "trac" } {} nonempty selected with
    ⟨fault, -, failed⟩ | ⟨codes, emitted, -, flat, -⟩
  · simp only [failed, Result.error?_error] at succeeds
    contradiction
  · rw [imports, path] at flat
    exact ⟨codes, emitted, flat⟩

end Protoclass.Package
