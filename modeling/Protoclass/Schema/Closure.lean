import Protoclass.Descriptor.Basic

/-!
# Compiled files with all that they import

A compiled file holds the compiled files that it imports, so imports never run in a
circle.  The closure of some files is collected by a search in depth: it has the
descriptors of these files and of all that they import, directly or not, each once
and after those of its imports.
-/

namespace Protoclass.Schema

/-- A compiled file: its path, its descriptor, and the files that it imports. -/
inductive CompiledFile where
  | mk (path : Text) (descriptor : FileDescriptor) (imports : List CompiledFile)

namespace CompiledFile

/-- The path, by which the file is known. -/
def path : CompiledFile → Text
  | mk path _ _ => path

def descriptor : CompiledFile → FileDescriptor
  | mk _ descriptor _ => descriptor

def imports : CompiledFile → List CompiledFile
  | mk _ _ imports => imports

end CompiledFile

/-- How far a search has come: the paths that it has seen, and the descriptors that
it has collected, in order. -/
structure Search where
  seen : List Text := []
  ordered : List FileDescriptor := []

namespace Search

mutual

/-- Add a file after all that it imports, unless its path was seen.  The path counts
as seen before the search turns to the imports. -/
def visit (search : Search) : CompiledFile → Search
  | .mk path descriptor imports =>
    if search.seen.contains path then search
    else
      let below := Search.visitAll { search with seen := path :: search.seen } imports
      { below with ordered := below.ordered ++ [descriptor] }

/-- Add files, one after another. -/
def visitAll (search : Search) : List CompiledFile → Search
  | [] => search
  | file :: rest => Search.visitAll (Search.visit search file) rest

end

end Search

/-- The descriptors of files and of all that these import. -/
def closure (files : List CompiledFile) : List FileDescriptor :=
  (Search.visitAll {} files).ordered

end Protoclass.Schema
