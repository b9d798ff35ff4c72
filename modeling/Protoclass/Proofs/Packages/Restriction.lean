import Protoclass.Generation.Run
import Protoclass.Proofs.Packages.Assembly

/-!
# Restriction to a subtree of packages

A dotted name is a list of names, and one package lies above another when its
names come first among those of the other.  A run that is restricted to a package
writes that package and those below it as a run of all packages does, an empty
manifest for each package above it, and nothing else.  It fails when the run of
all packages fails, and in the same way.
-/

namespace Protoclass

namespace Package

/-! ## Subtrees -/

/-- The names that a dotted name consists of. -/
def segments (name : Text) : List Text :=
  name.splitOn Text.dot

/-- The package is the one that output is restricted to, or lies below it; an
empty filter restricts nothing. -/
def Selects (filter package : Text) : Prop :=
  filter = [] ∨ segments filter <+: segments package

/-- The package lies above the one that output is restricted to. -/
def LiesAbove (filter package : Text) : Prop :=
  segments package <+: segments filter ∧ segments package ≠ segments filter

instance (filter package : Text) : Decidable (Selects filter package) :=
  inferInstanceAs (Decidable (_ ∨ _))

instance (filter package : Text) : Decidable (LiesAbove filter package) :=
  inferInstanceAs (Decidable (_ ∧ _))

theorem segments_prefix_iff {front name : Text} :
    segments front <+: segments name ↔
      name = front ∨ Text.startsWith name (front ++ ".") = true := by
  rw [Text.startsWith_iff]
  exact Text.splitOn_prefix_iff

theorem output_eq (package filter : Text) :
    output package filter =
      if Selects filter package then .full
      else if LiesAbove filter package then .placeholder
      else .nothing := by
  have full_iff : (filter.isEmpty || package = filter
      || Text.startsWith package (filter ++ ".")) = true ↔ Selects filter package := by
    simp [Selects, segments_prefix_iff, or_assoc]
  rw [output]
  by_cases selected : Selects filter package
  · rw [if_pos (full_iff.mpr selected), if_pos selected]
  · have above_iff : Text.startsWith filter (package ++ ".") = true ↔ LiesAbove filter package := by
      rw [LiesAbove, segments_prefix_iff]
      constructor
      · intro starts
        refine ⟨.inr starts, ?_⟩
        intro same
        exact selected (.inr (same ▸ List.prefix_rfl))
      · rintro ⟨rfl | starts, _⟩
        · exact absurd (.inr List.prefix_rfl) selected
        · exact starts
    rw [if_neg (mt full_iff.mp selected), if_neg selected]
    simp only [above_iff]

/-- Of what is written for a package without a restriction, what is left under
one. -/
def restrict (filter package : Text) (files : List OutputFile) : List OutputFile :=
  if Selects filter package then files
  else if LiesAbove filter package then [placeholder package]
  else []

/-- A package that is left out is generated all the same, and fails as it does
without a restriction. -/
theorem result_generate_restricted (options : Options) (types : TypeIndex) (filter package : Text)
    (files : List FileDescriptor) :
    (generate { options with packages := filter } types package files).result =
      restrict filter package <$>
        (generate { options with packages := [] } types package files).result := by
  have unrestricted : output package [] = .full := by simp [output]
  rw [result_generate, result_generate, unrestricted, output_eq, Functor.map_map]
  by_cases selected : Selects filter package
  · simp only [restrict, if_pos selected]
    rfl
  · by_cases above : LiesAbove filter package <;>
      simp only [restrict, if_neg selected, above, if_true, if_false]

end Package

/-! ## Runs -/

theorem Package.result_generatePackage (options : Options) (types : TypeIndex) (package : Text)
    (files : List FileDescriptor) :
    ((Package.generator options types).generatePackage package files).result =
      (Package.generate options.withDefaults types package files).result := rfl

theorem Languages.generator_standard (language : Text) (options : Options) (types : TypeIndex) :
    Languages.standard.generator language options types =
      if language = "py" ∨ language = "python" then .ok (Package.generator options types)
      else .error (.unsupportedLanguage language Languages.standard.names) := by
  have entered : Languages.standard.backends =
      [(Text.ofString "py", Package.backend), (Text.ofString "python", Package.backend)] := rfl
  rw [Languages.generator, Languages.get?, entered]
  by_cases short : language = "py"
  · rw [if_pos (.inl short), List.lookup_cons, short]
    rfl
  by_cases long : language = "python"
  · rw [if_pos (.inr long), long]
    rfl
  rw [if_neg (not_or.mpr ⟨short, long⟩), List.lookup_cons, List.lookup_cons,
    beq_false_of_ne short, beq_false_of_ne long]
  rfl

theorem Options.withDefaults_withDefaults (options : Options) :
    options.withDefaults.withDefaults = options.withDefaults := by
  obtain ⟨target, packages, flat, language⟩ := options
  cases target <;> cases language <;> rfl

namespace RunRequest

/-- The request with output restricted to a package and those below it. -/
def restrictedTo (request : RunRequest) (filter : Text) : RunRequest :=
  { request with options := { request.options with packages := filter } }

/-- The outcome for each package of some files. -/
def outcomes (options : Options) (types : TypeIndex) (files : List FileDescriptor) :
    Except RunError (List (List OutputFile)) :=
  (groups files).mapM fun group =>
    (Package.generate options types group.1 group.2).result.mapError (.package group.1)

theorem result_run_standard (request : RunRequest) :
    (request.run Languages.standard).result =
      if request.options.withDefaults.language = "py" ∨
          request.options.withDefaults.language = "python" then do
        let files ← selected request.files request.requested
        List.flatten <$> outcomes request.options.withDefaults (TypeIndex.ofFiles request.files)
          files
      else .error (.unsupportedLanguage request.options.withDefaults.language
        Languages.standard.names) := by
  rw [run]
  simp only [Logged.result_bind, Logged.result_debug, Logged.result_lift, Result.ok_bind,
    Languages.generator_standard, Logged.result_mapM, Logged.result_mapError, Logged.result_info,
    Logged.result_pure]
  split
  · simp only [Result.ok_bind, Package.result_generatePackage, Options.withDefaults_withDefaults,
      Result.bind_ok, outcomes]
  · rfl

theorem outcomes_restricted (options : Options) (types : TypeIndex) (filter : Text)
    (files : List FileDescriptor) :
    outcomes { options with packages := filter } types files =
      List.zipWith (fun group output => Package.restrict filter group.1 output) (groups files) <$>
        outcomes { options with packages := [] } types files := by
  rw [outcomes, outcomes, ← Result.mapM_map]
  apply Result.mapM_congr
  rintro ⟨package, members⟩ _
  rw [Package.result_generate_restricted]
  cases (Package.generate _ types package members).result <;> rfl

/-- A run that is restricted to some packages fails exactly when the run of all
packages fails, with the same error.  Otherwise it writes, package by package and
in the same order, what is left of the whole output: all files of a package that
is selected, an empty manifest of one that lies above, and nothing of another. -/
theorem run_restricted_to_packages (request : RunRequest) (filter : Text) :
    let whole := ((request.restrictedTo []).run Languages.standard).result
    let part := ((request.restrictedTo filter).run Languages.standard).result
    (∃ error, whole = .error error ∧ part = .error error) ∨
      ∃ files outputs,
        selected request.files request.requested = .ok files ∧
        List.Forall₂ (fun group output =>
          (Package.generate (request.restrictedTo []).options.withDefaults
            (TypeIndex.ofFiles request.files) group.1 group.2).result = .ok output)
          (groups files) outputs ∧
        whole = .ok outputs.flatten ∧
        part = .ok (List.zipWith (fun group output => Package.restrict filter group.1 output)
          (groups files) outputs).flatten := by
  intro whole part
  have whole_eq : whole = _ := result_run_standard (request.restrictedTo [])
  have part_eq : part = _ := result_run_standard (request.restrictedTo filter)
  -- The two requests differ in the filter only.
  have outcomes_eq : ∀ files, outcomes (request.restrictedTo filter).options.withDefaults
      (TypeIndex.ofFiles request.files) files = _ :=
    outcomes_restricted (request.restrictedTo []).options.withDefaults _ filter
  have same : ∀ names, (request.restrictedTo names).files = request.files ∧
      (request.restrictedTo names).requested = request.requested ∧
      (request.restrictedTo names).options.withDefaults.language =
        request.options.withDefaults.language := fun _ => ⟨rfl, rfl, rfl⟩
  simp only [same] at whole_eq part_eq
  split at whole_eq
  case isFalse unsupported =>
    rw [if_neg unsupported] at part_eq
    exact .inl ⟨_, whole_eq, part_eq⟩
  case isTrue supported =>
    rw [if_pos supported] at part_eq
    cases found : selected request.files request.requested with
    | error e =>
      rw [found] at whole_eq part_eq
      exact .inl ⟨e, whole_eq, part_eq⟩
    | ok files =>
      rw [found, Result.ok_bind] at whole_eq part_eq
      rw [outcomes_eq] at part_eq
      cases made : outcomes (request.restrictedTo []).options.withDefaults
          (TypeIndex.ofFiles request.files) files with
      | error e =>
        refine .inl ⟨e, whole_eq.trans (congrArg (List.flatten <$> ·) made), ?_⟩
        rw [part_eq]
        exact congrArg (List.flatten <$> _ <$> ·) made
      | ok outputs =>
        refine .inr ⟨files, outputs, rfl, ?_, whole_eq.trans (congrArg (List.flatten <$> ·) made), ?_⟩
        · refine (Result.forall₂_of_mapM_eq_ok made).imp ?_
          intro group output succeeded
          exact Result.mapError_eq_ok_iff.mp succeeded
        · rw [part_eq]
          exact congrArg (List.flatten <$> _ <$> ·) made

end RunRequest

end Protoclass
