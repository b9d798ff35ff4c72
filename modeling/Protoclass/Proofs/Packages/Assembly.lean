import Protoclass.Dataclass.Package
import Protoclass.Proofs.Result
import Protoclass.Proofs.Text.Lines

/-!
# How a package is put together

Generation of a package emits the code of each of its files and puts together
what is written for the package.  Only emission can fail, and it does not depend
on the options; what is put together depends on them, and cannot fail.
-/

namespace Protoclass.Package

/-- The code of each file. -/
def bodies (types : TypeIndex) (files : List FileDescriptor) : Except Fault (List Text) :=
  files.mapM fun file => (file.emit types).result

/-- The imports of the module of one file. -/
def fileImports (options : Options) (package : Text) (file : FileDescriptor) : ImportBlock :=
  ImportBlock.addDependencies { package, target := options.targetPackage } file.dependencies false

/-- The module of one file, with its code. -/
def fileModule (options : Options) (package : Text) (file : FileDescriptor) (body : Text) :
    OutputFile where
  path := Path.join (directory package) (moduleName file.name ++ extension)
  content := moduleText (fileImports options package file) [body]

/-- The file that re-exports what the modules of a package declare. -/
def manifest (package : Text) (files : List FileDescriptor) : OutputFile where
  path := Path.join (directory package) manifestName
  content := manifestText files

/-- The empty file that stands for a package above those that are written. -/
def placeholder (package : Text) : OutputFile where
  path := Path.join (directory package) manifestName
  content := []

/-- The module of all files, with their code. -/
def flatFile (options : Options) (package : Text) (files : List FileDescriptor)
    (texts : List Text) : OutputFile where
  path := flatPath package
  content := moduleText (flatImports options package files) texts

/-- What is written for a package in full. -/
def assemble (options : Options) (package : Text) (files : List FileDescriptor)
    (texts : List Text) : List OutputFile :=
  if options.flatPack && !files.isEmpty then [flatFile options package files texts]
  else List.zipWith (fileModule options package) files texts ++ [manifest package files]

section

variable {options : Options} {types : TypeIndex} {package : Text} {files : List FileDescriptor}

theorem result_check : (check types files).result = (fun _ => ()) <$> bodies types files := by
  induction files with
  | nil => rfl
  | cons file rest ih =>
    rw [check, bodies, List.mapM_cons, Logged.result_bind, ih, bodies]
    cases (file.emit types).result with
    | error fault => rfl
    | ok text => cases rest.mapM fun file => (file.emit types).result <;> rfl

theorem result_modules :
    (modules options types package files).result =
      (fun texts => List.zipWith (fileModule options package) files texts
        ++ [manifest package files]) <$> bodies types files := by
  have each : (files.mapM fun file => (file.emit types).result >>= fun body =>
      .ok (fileModule options package file body)) =
        List.zipWith (fileModule options package) files <$> bodies types files := by
    simp only [Result.bind_ok]
    exact Result.mapM_map _ _ files
  simp only [modules, Logged.result_bind, Logged.result_mapM, Logged.result_pure]
  calc
    _ = (List.zipWith (fileModule options package) files <$> bodies types files) >>=
        fun written => .ok (written ++ [manifest package files]) := congrArg (· >>= _) each
    _ = _ := by rw [Result.bind_ok, Functor.map_map]

theorem result_flatModule :
    (flatModule options types package files).result =
      (fun texts => [flatFile options package files texts]) <$> bodies types files := by
  simp only [flatModule, Logged.result_bind, Logged.result_mapM, Logged.result_pure]
  exact Result.bind_ok _ _

theorem result_generate :
    (generate options types package files).result =
      (match output package options.packages with
        | .full => assemble options package files
        | .placeholder => fun _ => [placeholder package]
        | .nothing => fun _ => []) <$> bodies types files := by
  rw [generate]
  cases output package options.packages with
  | full =>
    simp only [Logged.result_bind, Logged.result_info, Result.ok_bind]
    unfold assemble
    split
    · exact result_flatModule
    · exact result_modules
  | placeholder =>
    simp only [Logged.result_bind, Logged.result_debug, Logged.result_pure, Result.ok_bind,
      result_check]
    cases bodies types files <;> rfl
  | nothing =>
    simp only [Logged.result_bind, Logged.result_debug, Logged.result_pure, Result.ok_bind,
      result_check]
    cases bodies types files <;> rfl

end

/-- A module is its header, the standard imports, its own imports and its code, with
one line end at its end. -/
theorem moduleText_eq (imports : ImportBlock) (texts : List Text) :
    moduleText imports texts =
      trimNewlines (header ++ standardImports ++ imports.render ++ texts.flatten) := by
  have code : (texts.map (Fragment.leaf "body")).map Fragment.render = texts := by
    rw [List.map_map]
    exact (List.map_congr_left fun text _ => Fragment.render_leaf _ text).trans (List.map_id texts)
  simp [moduleText, Text.join_nil, code]

end Protoclass.Package
