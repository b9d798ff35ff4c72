import Protoclass.Dataclass.TypeHint

/-!
# Import blocks

A module imports what the files it depends on generate.  A file of the same
package is a sibling module, from which everything is imported; any other file
under the reserved root belongs to a package, which is imported once, by its
last name.  Other dependencies are not generated and not imported.
-/

namespace Protoclass

/-- A dependency under the reserved root: a package and a module of it. -/
structure Dependency where
  package : Text
  module : Text
  deriving DecidableEq, Repr

/-- The dependency that a path such as `trac/a/b.proto` stands for.  The
directory is the reserved root, a slash and more without a line end; the module
is not empty. -/
def Dependency.ofPath? (path : Text) : Option Dependency := do
  let stem ← Text.before? ".proto" path
  let module := (stem.reverse.takeWhile (· != Text.slash)).reverse
  let directory ← Text.before? ("/" ++ module) stem
  let below ← Text.after? (TypeHint.reservedRoot ++ "/") directory
  if module.isEmpty || below.isEmpty || below.contains Text.newline then none
  else some { package := Text.replaceByte Text.slash Text.dot directory, module }

/-- Something that a module imports. -/
inductive Import where
  /-- Everything of a module of the same package. -/
  | sibling (module : Text)
  /-- Another package, under its last name. -/
  | package (name : Text)
  deriving DecidableEq, Repr

/-- The module that a package becomes: it lies in the `target` package, which
takes the place of the reserved root. -/
def Import.moduleOf (target package : Text) : Text :=
  target ++ "." ++ Text.dropLead package (TypeHint.reservedRoot ++ ".")

/-- The last name of a package, by which it is imported. -/
def Import.lastName (package : Text) : Text :=
  (package.reverse.takeWhile (· != Text.dot)).reverse

/-- The statement of an import; packages lie in the `target` package. -/
def Import.statement (target : Text) : Import → Text
  | .sibling module => "from ." ++ module ++ " import *  # noqa\n"
  | .package name => "import " ++ moduleOf target name ++ " as " ++ lastName name ++ "\n"

/-- The imports of a module, each once, in order of first use. -/
structure ImportBlock where
  package : Text
  target : Text
  imports : List Import := []
  deriving DecidableEq, Repr

namespace ImportBlock

/-- What a dependency makes a module of `package` import. -/
def importOf? (package : Text) (skipSiblings : Bool) (path : Text) : Option Import := do
  let dependency ← Dependency.ofPath? path
  if dependency.package = package then
    if skipSiblings then none else some (.sibling dependency.module)
  else some (.package dependency.package)

/-- One more import, unless it is there already. -/
def add (block : ImportBlock) (new : Import) : ImportBlock :=
  if new ∈ block.imports then block else { block with imports := block.imports ++ [new] }

/-- The imports for a list of dependencies, added in order. -/
def addDependencies (block : ImportBlock) (paths : List Text) (skipSiblings : Bool) :
    ImportBlock :=
  (paths.filterMap (importOf? block.package skipSiblings)).foldl add block

/-- The statements, in order. -/
def statements (block : ImportBlock) : List Text :=
  block.imports.map (Import.statement block.target)

/-- The statements and two empty lines, or nothing. -/
def render (block : ImportBlock) : Text :=
  if block.imports.isEmpty then [] else block.statements.flatten ++ "\n\n"

end ImportBlock

end Protoclass
