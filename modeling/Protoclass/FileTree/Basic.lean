import Protoclass.Path

/-!
# File trees

Files and directories as a value.  The entries of a directory are in the order
of their names.  A path is followed element by element, so that each directory
on the way has to be there; `..` leads back to the directory above.
-/

namespace Protoclass

/-- A file or a directory, with its name. -/
inductive FileTree where
  | file (name content : Text)
  | directory (name : Text) (entries : List FileTree)
  deriving Repr, Inhabited

namespace FileTree

/-- The name of a file or directory. -/
def name : FileTree → Text
  | .file name _ => name
  | .directory name _ => name

/-- Whether a node is a directory. -/
def isDirectory : FileTree → Bool
  | .file _ _ => false
  | .directory _ _ => true

/-- The entries of a directory; a file has none. -/
def entries : FileTree → List FileTree
  | .file _ _ => []
  | .directory _ entries => entries

/-! ## Following a path -/

/-- Why a path leads nowhere, or cannot be used. -/
inductive Cause where
  | notFound
  | notDirectory
  | isDirectory
  /-- A cause that the system gives in its own words. -/
  | other (text : Text)
  deriving DecidableEq, Repr

/-- The system's text for a cause. -/
def Cause.message : Cause → Text
  | .notFound => "no such file or directory"
  | .notDirectory => "not a directory"
  | .isDirectory => "is a directory"
  | .other text => text

/-- Where the elements of a path lead from `here`, below the directories
`above`, nearest first. -/
def follow : (here : FileTree) → (above : List FileTree) → List Text → Except Cause FileTree
  | here, _, [] => .ok here
  | .file _ _, _, _ :: _ => .error .notDirectory
  | .directory name entries, above, element :: rest =>
    if element = [] ∨ element = "." then follow (.directory name entries) above rest
    else if element = ".." then
      match above with
      | [] => follow (.directory name entries) [] rest
      | parent :: more => follow parent more rest
    else
      match entries.find? fun entry => entry.name = element with
      | some entry => follow entry (.directory name entries :: above) rest
      | none => .error .notFound

/-! ## Changing a tree -/

/-- Entries with one more, in the order of names, in place of one of the same
name. -/
def putEntry (entry : FileTree) : List FileTree → List FileTree
  | [] => [entry]
  | first :: rest =>
    if first.name = entry.name then entry :: rest
    else if Text.le entry.name first.name then entry :: first :: rest
    else first :: putEntry entry rest

/-- The entries of the directory of a given name, if it is there. -/
def entriesOf (name : Text) (entries : List FileTree) : List FileTree :=
  match entries.find? fun entry => entry.name = name with
  | some entry => entry.entries
  | none => []

/-- Entries with a directory at a path, made if it is not there. -/
def putDirectory : (path : List Text) → List FileTree → List FileTree
  | [], entries => entries
  | name :: path, entries =>
    putEntry (.directory name (putDirectory path (entriesOf name entries))) entries

/-- Entries with a file at a path, in directories made if they are not
there. -/
def putFile (content : Text) : (path : List Text) → List FileTree → List FileTree
  | [], entries => entries
  | [name], entries => putEntry (.file name content) entries
  | name :: path, entries =>
    putEntry (.directory name (putFile content path (entriesOf name entries))) entries

end FileTree

/-! ## Systems -/

/-- A failure of a system call on a path. -/
structure SystemError where
  call : Text
  path : Text
  cause : FileTree.Cause
  deriving DecidableEq, Repr

/-- The system's text for a failure. -/
def SystemError.message (error : SystemError) : Text :=
  error.call ++ " " ++ error.path ++ ": " ++ error.cause.message

/-- A file system: what lies under the root, and the working directory. -/
structure FileSystem where
  entries : List FileTree := []
  workingDirectory : Text := "/"

namespace FileSystem

/-- The root directory. -/
def root (system : FileSystem) : FileTree :=
  .directory [] system.entries

/-- A path from the root, for one that may start at the working directory. -/
def fromRoot (system : FileSystem) (path : Text) : Text :=
  if Path.isAbsolute path then path else system.workingDirectory ++ "/" ++ path

/-- What a path leads to. -/
def resolve (system : FileSystem) (path : Text) : Except FileTree.Cause FileTree :=
  if path.isEmpty then .error .notFound
  else FileTree.follow system.root [] ((system.fromRoot path).splitOn Text.slash)

/-- Whether a path leads to anything. -/
def hasPath (system : FileSystem) (path : Text) : Bool :=
  match system.resolve path with
  | .ok _ => true
  | .error _ => false

/-- Whether a path leads to a directory. -/
def hasDirectory (system : FileSystem) (path : Text) : Bool :=
  match system.resolve path with
  | .ok tree => tree.isDirectory
  | .error _ => false

/-- The content of a file. -/
def readFile (system : FileSystem) (path : Text) : Except SystemError Text :=
  match system.resolve path with
  | .ok (.file _ content) => .ok content
  | .ok (.directory _ _) => .error ⟨"read", path, .isDirectory⟩
  | .error cause => .error ⟨"open", path, cause⟩

/-- The system with a file at a cleaned absolute path. -/
def putFile (system : FileSystem) (path content : Text) : FileSystem :=
  { system with entries := FileTree.putFile content (Path.elements path) system.entries }

/-- The system with a directory at a cleaned absolute path. -/
def putDirectory (system : FileSystem) (path : Text) : FileSystem :=
  { system with entries := FileTree.putDirectory (Path.elements path) system.entries }

/-- The first of a path's ancestors, from the root down, that is a file. -/
def fileOnTheWay? (system : FileSystem) : (above : Text) → List Text → Option Text
  | _, [] => none
  | above, name :: rest =>
    let path := above ++ "/" ++ name
    match system.resolve path with
    | .ok (.file _ _) => some path
    | _ => system.fileOnTheWay? path rest

/-- Make a directory and those above it. -/
def makeDirectory (system : FileSystem) (path : Text) : Except SystemError FileSystem :=
  match system.fileOnTheWay? [] (Path.elements (system.fromRoot path)) with
  | some file => .error ⟨"mkdir", file, .notDirectory⟩
  | none => .ok (system.putDirectory (system.fromRoot path))

/-- Write a file into a directory that is there. -/
def writeFile (system : FileSystem) (path content : Text) : Except SystemError FileSystem :=
  match system.resolve path with
  | .ok (.directory _ _) => .error ⟨"open", path, .isDirectory⟩
  | .ok (.file _ _) => .ok (system.putFile (system.fromRoot path) content)
  | .error cause =>
    if system.hasDirectory (Path.parent path) then
      .ok (system.putFile (system.fromRoot path) content)
    else .error ⟨"open", path, cause⟩

end FileSystem

end Protoclass
