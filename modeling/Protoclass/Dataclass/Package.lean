import Protoclass.Dataclass.ClassCode
import Protoclass.Dataclass.ImportBlock
import Protoclass.Generation.Languages
import Protoclass.Path

/-!
# Packages of dataclass modules

The files of a package become one module each and a manifest that re-exports
their enums and messages; or, packed flat, one module for the whole package.
The `packages` option restricts what is written: a package above the selected
subtree becomes an empty placeholder, and one outside it nothing.  Its files
are generated all the same, so that a fault in them is reported.
-/

namespace Protoclass.Package

/-! ## Texts of a module -/

/-- The first lines of every module. -/
def header : Text := "# Code generated by TRAC\n\n"

/-- The imports that every module has. -/
def standardImports : Text :=
  "from __future__ import annotations\n"
    ++ "import typing as _tp  # noqa\n"
    ++ "import dataclasses as _dc  # noqa\n"
    ++ "import enum as _enum  # noqa\n\n"

/-- What the name of a module file ends in. -/
def extension : Text := ".py"

/-- The name of a package's manifest. -/
def manifestName : Text := "__init__.py"

/-- A text with the line ends it ends in reduced to one. -/
def trimNewlines (text : Text) : Text :=
  match text.reverse.dropWhile (· == Text.newline) with
  | rest =>
    if text.length ≤ rest.length + 1 then text
    else (Text.newline :: rest).reverse

/-- The name of the module that a file becomes. -/
def moduleName (file : Text) : Text := Path.stem file

/-- The directory of a package. -/
def directory (package : Text) : Text :=
  Text.replaceByte Text.dot Text.slash package

/-- A module: header, imports and code. -/
def moduleText (imports : ImportBlock) (bodies : List Text) : Text :=
  trimNewlines (Fragment.join "module" []
    [.leaf "header" header,
     .leaf "standard imports" standardImports,
     .leaf "imports" imports.render,
     .join "bodies" [] (bodies.map (Fragment.leaf "body"))]).render

/-- The statement that re-exports a name of a module. -/
def exportLine (module name : Text) : Text :=
  "from ." ++ module ++ " import " ++ name ++ "\n"

/-- The re-exports of a file's enums and messages, after an empty line; nothing
when it has none. -/
def exports (file : FileDescriptor) : Text :=
  let names := file.enums.map (·.name) ++ file.messages.map (·.name)
  if names.isEmpty then []
  else "\n" ++ (names.map (exportLine (moduleName file.name))).flatten

/-- The manifest of a package. -/
def manifestText (files : List FileDescriptor) : Text :=
  (Fragment.join "manifest" []
    (.leaf "header" (Text.dropTail header "\n")
      :: files.map fun file => .leaf file.name (exports file))).render

/-! ## What is written -/

/-- What is written for a package. -/
inductive Output where
  | full
  | placeholder
  | nothing
  deriving DecidableEq, Repr

/-- What is written for a package when output is restricted to the subtree
`filter`. -/
def output (package filter : Text) : Output :=
  if filter.isEmpty || package = filter || Text.startsWith package (filter ++ ".") then .full
  else if Text.startsWith filter (package ++ ".") then .placeholder
  else .nothing

/-- Generate files for their faults alone. -/
def check (types : TypeIndex) : List FileDescriptor → Logged Fault Unit
  | [] => pure ()
  | file :: rest => do
    let _ ← file.emit types
    check types rest

/-- One module for each file, and the manifest. -/
def modules (options : Options) (types : TypeIndex) (package : Text)
    (files : List FileDescriptor) : Logged Fault (List OutputFile) := do
  let written ← files.mapM fun file => do
    let imports := ImportBlock.addDependencies
      { package, target := options.targetPackage } file.dependencies false
    let body ← file.emit types
    return {
      path := Path.join (directory package) (moduleName file.name ++ extension)
      content := moduleText imports [body] : OutputFile }
  return written ++ [{
    path := Path.join (directory package) manifestName
    content := manifestText files }]

/-- The imports of a flat module: those of all files, without siblings. -/
def flatImports (options : Options) (package : Text) (files : List FileDescriptor) :
    ImportBlock :=
  files.foldl (fun block file => block.addDependencies file.dependencies true)
    { package, target := options.targetPackage }

/-- The path of a flat module. -/
def flatPath (package : Text) : Text :=
  if package.isEmpty then manifestName else directory package ++ extension

/-- One module for all files. -/
def flatModule (options : Options) (types : TypeIndex) (package : Text)
    (files : List FileDescriptor) : Logged Fault (List OutputFile) := do
  let bodies ← files.mapM (·.emit types)
  return [{
    path := flatPath package
    content := moduleText (flatImports options package files) bodies }]

/-- The files that are written for a package. -/
def generate (options : Options) (types : TypeIndex) (package : Text)
    (files : List FileDescriptor) : Logged Fault (List OutputFile) :=
  match output package options.packages with
  | .nothing => do
    Logged.debug "package filtered out"
      [("package", .text package), ("filter", .text options.packages)]
    check types files
    return []
  | .placeholder => do
    Logged.debug "emitting placeholder package"
      [("package", .text package), ("filter", .text options.packages)]
    check types files
    return [{ path := Path.join (directory package) manifestName, content := [] }]
  | .full => do
    Logged.info "generating package"
      [("package", .text package), ("files", .int files.length),
       ("flat_pack", .bool options.flatPack)]
    if options.flatPack && !files.isEmpty then flatModule options types package files
    else modules options types package files

/-- The generator of dataclass modules. -/
def generator (options : Options) (types : TypeIndex) : Generator where
  language := "python"
  extension := extension
  generatePackage package files :=
    (generate options.withDefaults types package files).tagged "generator" (.text "python")

/-- The backend of dataclass modules. -/
def backend : Backend := fun options types => .ok (generator options types)

end Protoclass.Package
