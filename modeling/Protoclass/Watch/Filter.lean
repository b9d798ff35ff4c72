import Protoclass.FileTree.Visit

/-!
# What is watched

A file is watched when its name matches one of the patterns, `**/` before a
pattern meaning any depth, and no element of its path is excluded.
-/

namespace Protoclass

/-- Which files are watched. -/
structure WatchFilter where
  patterns : List Text := []
  exclude : List Text := []
  deriving DecidableEq, Repr

namespace WatchFilter

/-- Whether a name matches a pattern, at any depth. -/
def matchesName (pattern name : Text) : Bool :=
  Glob.isMatch (Text.dropLead pattern "**/") name

/-- Whether the file at a path is watched. -/
def accepts (filter : WatchFilter) (path : Text) : Bool :=
  !((path.splitOn Text.slash).any fun element =>
      !element.isEmpty && isExcluded filter.exclude element)
    && filter.patterns.any fun pattern => matchesName pattern (Path.base path)

end WatchFilter

end Protoclass
