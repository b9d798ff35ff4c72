import Protoclass.FileTree.Visit
import Protoclass.Log
import Protoclass.Schema.Closure
import Protoclass.Schema.Grammar
import Protoclass.Schema.Linked
import Protoclass.Schema.Loading
import Protoclass.Schema.Standard

/-!
# Compiling schema files

From the paths of files to their descriptors and those of all the files that they
import, each after its imports.  A linker gives the compiled files of the requested
paths, and the closure of these is what compiling returns.

The files of some sources have a linker: it reads the requested files with all that
they need and links them.  The names that all of these declare must differ, whether
the files know of each other or not; what can be seen from a file is what it
declares, what the files that it needs declare, and what those hand on.
-/

namespace Protoclass.Schema

/-- Where schema files come from: their texts by path, and a list that holds all
of these texts. -/
structure Sources where
  read? : Text → Option Text
  texts : List Text
  mem_texts : ∀ path text, read? path = some text → text ∈ texts

/-- Texts by path. -/
def Sources.ofTexts (texts : List (Text × Text)) : Sources where
  read? path := texts.lookup path
  texts := texts.map Prod.snd
  mem_texts path text found := by
    rcases List.lookup_eq_some_iff.mp found with ⟨before, after, rfl, -⟩
    simp

/-- Read a file from the first directory that has it. -/
def readFirst? (system : FileSystem) (path : Text) : (importPaths : List Text) → Option Text
  | [] => none
  | importPath :: rest =>
    match system.readFile (Path.join importPath path) with
    | .ok text => some text
    | .error e => if e.cause = .notFound then readFirst? system path rest else none

theorem mem_contents_of_readFirst? {system : FileSystem} {path text : Text}
    {importPaths : List Text} (found : readFirst? system path importPaths = some text) :
    text ∈ system.root.contents := by
  induction importPaths with
  | nil => cases found
  | cons importPath rest ih =>
    rw [readFirst?] at found
    split at found
    case h_1 content read =>
      cases found
      exact FileSystem.mem_contents_of_readFile read
    case h_2 =>
      split at found
      · exact ih found
      · cases found

/-- The files of a file system, by their paths from the import paths. -/
def Sources.ofFileSystem (system : FileSystem) (importPaths : List Text) : Sources where
  read? path :=
    if importPaths.isEmpty then (system.readFile path).toOption
    else readFirst? system path importPaths
  texts := system.root.contents
  mem_texts path text found := by
    split at found
    · cases read : system.readFile path with
      | error e => simp [read, Except.toOption] at found
      | ok content =>
        simp only [read, Except.toOption, Option.some.injEq] at found
        exact found ▸ FileSystem.mem_contents_of_readFile read
    · exact mem_contents_of_readFirst? found

/-- The file of a path: from the sources, or else a standard one. -/
def Sources.file (sources : Sources) (path : Text) : Except Error FileSource :=
  match sources.read? path with
  | none =>
    match Standard.files.lookup path with
    | some file => .ok file
    | none => .error (.notFound path)
  | some text =>
    match FileSource.parse? text with
    | none => .error (.malformed path)
    | some file =>
      match file.broken? with
      | some rule => .error (.forbidden path rule)
      | none => .ok file

/-- The paths of the files that some file needs, sources and standard ones alike. -/
def Sources.needed (sources : Sources) : List Text :=
  (sources.texts.filterMap FileSource.parse?).flatMap (·.dependencies)
    ++ Standard.files.flatMap fun (_, file) => file.dependencies

/-- Files and all that they need, as they are written.  Of the files that wait for
one another all but the first are needed by some file. -/
def Sources.loadAll (sources : Sources) (requested : List Text) :
    Except Error (Files FileSource) :=
  Schema.loadAll sources.file (·.dependencies) (sources.needed.length + 2) requested

/-- A linked file: compiled, and with what it hands on. -/
structure LinkedFile where
  file : CompiledFile
  exports : List Symbol

/-- The linked files of some paths. -/
def Files.pick (linked : Files LinkedFile) (paths : List Text) : List LinkedFile :=
  paths.filterMap fun path => linked.lookup path

/-- A file, linked with those before it. -/
def FileSource.linkTo (linked : Files LinkedFile) (path : Text) (file : FileSource) :
    Except Error LinkedFile := do
  let needed := linked.pick file.dependencies
  let descriptor ← file.link path (file.symbols ++ needed.flatMap (·.exports))
  return {
    file := .mk path descriptor (needed.map (·.file))
    exports := file.symbols ++ (linked.pick file.publicDependencies).flatMap (·.exports) }

/-- Files that are linked one by one, each after those that it needs. -/
def linkAll (linked : Files LinkedFile) : Files FileSource → Except Error (Files LinkedFile)
  | [] => .ok linked
  | (path, file) :: rest => do
    let made ← file.linkTo linked path
    linkAll ((path, made) :: linked) rest

/-- The compiled files of some paths. -/
def Sources.link (sources : Sources) (requested : List Text) :
    Except Error (List CompiledFile) := do
  let files ← sources.loadAll requested
  match conflict? (files.flatMap fun (_, file) => file.symbols) with
  | some name => throw (.conflict name)
  | none => return ((← linkAll [] files).pick requested).map (·.file)

/-- From requested paths to their compiled files, or the reason why there are
none. -/
abbrev Linker := List Text → Except Text (List CompiledFile)

/-- The linker of some sources. -/
def Sources.linker (sources : Sources) : Linker := fun requested =>
  (sources.link requested).mapError Error.message

/-- Compile files and all that they import, saying so in the log. -/
def compile (linker : Linker) (requested : List Text) : Logged Text (List FileDescriptor) :=
  Logged.tagged "component" (.text "compiler") do
    Logged.debug "compiling proto sources" [("files", .texts requested)]
    let files ← Logged.lift ((linker requested).mapError fun reason =>
      "failed to compile proto files: " ++ reason)
    let descriptors := closure files
    Logged.debug "compiled proto sources" [("descriptors", .int descriptors.length)]
    return descriptors

end Protoclass.Schema
