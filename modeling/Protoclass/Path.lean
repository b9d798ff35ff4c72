import Protoclass.Text.Basic

/-!
# Paths

Paths are texts whose elements are divided by slashes.  All operations are
lexical: they never look at a file system.  A cleaned path has no empty
element, no `.` element, and `..` elements only at the start of a relative
path.
-/

namespace Protoclass.Path

open Text (slash dot)

/-- Whether a path starts at the root. -/
def isAbsolute (path : Text) : Bool :=
  path.head? = some slash

/-- One more element on a cleaned list of elements, last first: empty and `.`
elements change nothing, and `..` undoes the element before it. -/
def push (rooted : Bool) (stack : List Text) (element : Text) : List Text :=
  if element = [] ∨ element = "." then stack
  else if element = ".." then
    match stack with
    | [] => if rooted then [] else [".."]
    | top :: rest => if top = ".." then ".." :: top :: rest else rest
  else element :: stack

/-- The elements of a path, cleaned, first to last. -/
def elements (path : Text) : List Text :=
  ((path.splitOn slash).foldl (push (isAbsolute path)) []).reverse

/-- The path with given elements. -/
def ofElements (rooted : Bool) (parts : List Text) : Text :=
  if rooted then "/" ++ Text.join "/" parts
  else if parts.isEmpty then "."
  else Text.join "/" parts

/-- The shortest path that is the same place, by its text alone. -/
def clean (path : Text) : Text :=
  ofElements (isAbsolute path) (elements path)

/-- Two paths with a slash between, cleaned; an empty path adds nothing, and
two empty paths give an empty one. -/
def join (first second : Text) : Text :=
  if first.isEmpty then
    if second.isEmpty then [] else clean second
  else clean (first ++ "/" ++ second)

/-- A text without the slashes it ends with. -/
def dropTrailingSlashes (path : Text) : Text :=
  (path.reverse.dropWhile (· == slash)).reverse

/-- What follows the last slash of a text. -/
def lastElement (path : Text) : Text :=
  (path.reverse.takeWhile (· != slash)).reverse

/-- The last element of a path: `.` for an empty path, and `/` for one of
slashes only. -/
def base (path : Text) : Text :=
  if path.isEmpty then "."
  else
    let trimmed := dropTrailingSlashes path
    if trimmed.isEmpty then "/" else lastElement trimmed

/-- The extension of a path: what starts at the last dot of its last
element. -/
def extension (path : Text) : Text :=
  let last := lastElement path
  if last.contains dot then dot :: (last.reverse.takeWhile (· != dot)).reverse else []

/-- The base name of a path without its extension. -/
def stem (path : Text) : Text :=
  Text.dropTail (base path) (extension (base path))

/-- The directory that holds a path, cleaned. -/
def parent (path : Text) : Text :=
  clean (path.reverse.dropWhile (· != slash)).reverse

/-- A path as an absolute one, if `root` is absolute: paths that are not start at
`root`. -/
def absolute (root path : Text) : Text :=
  if isAbsolute path then clean path else join root path

/-- Two lists without their common beginning. -/
def dropCommon : List Text → List Text → List Text × List Text
  | a :: as, b :: bs => if a = b then dropCommon as bs else (a :: as, b :: bs)
  | as, bs => (as, bs)

/-- The elements of a cleaned path other than the base of `relative?`: the
current directory has the one element `.`. -/
def targetElements (path : Text) : List Text :=
  match elements path with
  | [] => if isAbsolute path then [] else ["."]
  | parts => parts

/-- The way from `root` to `path`, by their texts alone.  There is none when
just one of them is absolute, or when it would need the name of a directory
above the start. -/
def relative? (root path : Text) : Option Text :=
  if clean root = clean path then some "."
  else if isAbsolute root != isAbsolute path then none
  else
    match dropCommon (elements root) (targetElements path) with
    | (up, down) =>
      if up.head? = some ".." then none
      else some (Text.join "/" (List.replicate up.length (".." : Text) ++ down))

end Protoclass.Path
