import Protoclass.Descriptor.Basic

/-!
# Locations during descent

A table of source locations is relative to a node of the descriptor tree: an
entry with an empty path is about that node itself.  Going down to a child
narrows the table to the entries under it.  A cursor is a table with the field
and index of the child being visited and the depth at which code is written.
-/

namespace Protoclass

/-- Source locations relative to a node of the descriptor tree. -/
abbrev LocationTable := List SourceLocation

/-- The low 32 bits of an integer, signed. -/
def low32 (n : Int) : Int := n.bmod 4294967296

namespace LocationTable

/-- What remains of a path below the child `index` of `field`, if the path
leads through that child.  Indices are compared as 32-bit integers. -/
def pathBelow? (field index : Int) : List Int → Option (List Int)
  | f :: i :: rest => if f = field ∧ i = low32 index then some rest else none
  | _ => none

/-- The entries under the child `index` of `field`, relative to that child. -/
def narrow (table : LocationTable) (field index : Int) : LocationTable :=
  table.filterMap fun entry =>
    (pathBelow? field index entry.path).map fun rest => { entry with path := rest }

/-- The first entry about the node itself. -/
def current? (table : LocationTable) : Option SourceLocation :=
  table.find? fun entry => entry.path.isEmpty

/-- The comment before the node itself, or nothing. -/
def comment (table : LocationTable) : Text :=
  match current? table with
  | some entry => entry.comment
  | none => []

end LocationTable

/-- A position during descent. -/
structure Cursor where
  table : LocationTable := []
  field : Int := 0
  index : Int := 0
  depth : Int := 0
  deriving DecidableEq, Repr

namespace Cursor

/-- The first child of `field`. -/
def under (table : LocationTable) (field depth : Int) : Cursor :=
  { table, field, index := 0, depth }

/-- Another child of the same field. -/
def step (cursor : Cursor) (index : Int) : Cursor :=
  { cursor with index }

/-- The table of the child that the cursor points at. -/
def scope (cursor : Cursor) : LocationTable :=
  cursor.table.narrow cursor.field cursor.index

/-- The comment before the child that the cursor points at. -/
def comment (cursor : Cursor) : Text :=
  cursor.scope.comment

/-- The children of the cursor's field, each with the comment before it. -/
def documented {α : Type} (cursor : Cursor) (children : List α) : List (α × Text) :=
  children.zipIdx.map fun (child, i) => (child, (cursor.step i).comment)

end Cursor

end Protoclass
