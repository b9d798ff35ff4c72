import Protoclass.Schema.Rules

/-!
# Reading files with all that they need

Starting from some paths, the files of these are read and the files that they need,
directly or not: each once, after all those that it needs, and otherwise in the
order in which they are asked for.  A file that needs itself is an error.
-/

namespace Protoclass.Schema

variable {α : Type}

/-- Files by path. -/
abbrev Files (α : Type) := List (Text × α)

/-- The paths of files. -/
def Files.paths (files : Files α) : List Text := files.map Prod.fst

/-- Read a file after all those that it needs, unless it is there.  `above` are the
files that wait for it, at most `limit` of them. -/
def load (read : Text → Except Error α) (needs : α → List Text) :
    (limit : Nat) → (above : List Text) → Files α → Text → Except Error (Files α)
  | 0, _, _, path => .error (.cycle path)
  | limit + 1, above, files, path =>
    if path ∈ files.paths then .ok files
    else if path ∈ above then .error (.cycle path)
    else do
      let file ← read path
      let files ← (needs file).foldlM (load read needs limit (path :: above)) files
      return files ++ [(path, file)]

/-- The requested files and all that they need. -/
def loadAll (read : Text → Except Error α) (needs : α → List Text) (limit : Nat)
    (requested : List Text) : Except Error (Files α) :=
  requested.foldlM (load read needs limit []) []

end Protoclass.Schema
