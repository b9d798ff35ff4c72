import Protoclass.Dataclass.Package

/-!
# Generation runs

A run generates the requested files of a schema, package by package.  The
packages come in the order in which they first appear among the requested
files.  The first failure ends the run, and nothing is returned then.
-/

namespace Protoclass

/-- The languages that can be generated. -/
def Languages.standard : Languages :=
  (Languages.register {} "python" Package.backend).register "py" Package.backend

/-- What a run is asked for. -/
structure RunRequest where
  /-- All files of the schema, dependencies included. -/
  files : List FileDescriptor := []
  /-- The names of the files to generate; none for all. -/
  requested : List Text := []
  options : Options := {}

/-- Why a run fails. -/
inductive RunError where
  /-- No backend is registered for the language. -/
  | unsupportedLanguage (language : Text) (supported : List Text)
  /-- The backend could not make a generator. -/
  | backend (message : Text)
  /-- A requested file is not among the files. -/
  | fileNotFound (name : Text)
  /-- A package has a fault. -/
  | package (name : Text) (fault : Fault)
  deriving DecidableEq, Repr

/-- The text of an error. -/
def RunError.message : RunError → Text
  | .unsupportedLanguage language supported =>
    "unsupported language: " ++ language ++ " (supported: " ++ Text.join ", " supported ++ ")"
  | .backend message => message
  | .fileNotFound name => "file to generate not found in request: " ++ name
  | .package name fault =>
    "failed to generate package " ++ Text.quoted name ++ ": " ++ fault.message

/-- The generator of a language for a run. -/
def Languages.generator (languages : Languages) (language : Text) (options : Options)
    (types : TypeIndex) : Except RunError Generator :=
  match languages.get? language with
  | none => .error (.unsupportedLanguage language languages.names)
  | some backend => (backend options types).mapError .backend

namespace RunRequest

/-- The file of a name; of several, the last. -/
def file? (files : List FileDescriptor) (name : Text) : Option FileDescriptor :=
  files.reverse.find? fun file => file.name = name

/-- The requested files, in the order of the request. -/
def selected (files : List FileDescriptor) : List Text → Except RunError (List FileDescriptor)
  | [] => .ok files
  | names => names.mapM fun name =>
    match file? files name with
    | some file => .ok file
    | none => .error (.fileNotFound name)

/-- Files put in groups by package, with the place of the group of each package. -/
structure Grouping where
  index : List (Text × Nat) := []
  groups : List (Text × List FileDescriptor) := []

/-- One more file goes behind the others of its package; a new package goes behind
the other packages. -/
def Grouping.add (grouping : Grouping) (file : FileDescriptor) : Grouping :=
  match grouping.index.lookup file.package with
  | some i =>
    { grouping with
      groups := grouping.groups.modify i fun group => (group.1, group.2 ++ [file]) }
  | none =>
    { index := (file.package, grouping.groups.length) :: grouping.index
      groups := grouping.groups ++ [(file.package, [file])] }

/-- Files by package: packages in order of first appearance, and the files of
each in their order. -/
def groups (files : List FileDescriptor) : List (Text × List FileDescriptor) :=
  (files.foldl Grouping.add {}).groups

/-- Generate the requested files. -/
def run (request : RunRequest) (languages : Languages) : Logged RunError (List OutputFile) := do
  let options := request.options.withDefaults
  let types := TypeIndex.ofFiles request.files
  Logged.debug "built type registry"
    [("types", .int types.size), ("files", .int request.files.length)]
  let generator ← Logged.lift (languages.generator options.language options types)
  let files ← Logged.lift (selected request.files request.requested)
  let packages := groups files
  let outputs ← packages.mapM fun (package, members) =>
    (generator.generatePackage package members).mapError (.package package)
  let output := outputs.flatten
  Logged.info "generation complete"
    [("language", .text generator.language), ("packages", .int packages.length),
     ("outputs", .int output.length)]
  return output

end RunRequest

end Protoclass
