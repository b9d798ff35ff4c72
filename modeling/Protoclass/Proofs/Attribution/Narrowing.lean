import Protoclass.Location

/-!
# Narrowing and exact paths

A table that was narrowed on the way down to a node answers for the node what
the table of the whole file answers for the node's absolute path.  Entries that
were dropped on the way could not have matched, and of those that were kept the
first is still the first, so duplicates, partial paths and unrelated paths make
no difference.
-/

namespace Protoclass

/-- The number of indices that 32 signed bits can tell apart: `2 ^ 31`. -/
def indexLimit : Nat := 2147483648

/-- Indices below the limit are their own low 32 bits. -/
theorem low32_natCast {index : Nat} (small : index < indexLimit) : low32 index = index := by
  unfold indexLimit at small
  unfold low32
  rw [Int.bmod_def]
  omega

namespace LocationTable

/-- The comment of the first entry whose path is exactly `path`, or nothing. -/
def commentAt (table : LocationTable) (path : List Int) : Text :=
  match table.find? fun entry => entry.path = path with
  | some entry => entry.comment
  | none => []

@[simp]
theorem commentAt_nil (path : List Int) : commentAt [] path = [] := rfl

theorem commentAt_cons (entry : SourceLocation) (table : LocationTable) (path : List Int) :
    commentAt (entry :: table) path =
      if entry.path = path then entry.comment else commentAt table path := by
  by_cases same : entry.path = path <;> simp [commentAt, same]

theorem comment_eq_commentAt_nil (table : LocationTable) : table.comment = table.commentAt [] := by
  have empty : (fun entry : SourceLocation => entry.path.isEmpty) =
      fun entry => decide (entry.path = []) := by
    funext entry
    cases entry.path <;> rfl
  rw [comment, current?, empty]
  rfl

theorem pathBelow?_eq_some_iff {field index : Int} {path rest : List Int} :
    pathBelow? field index path = some rest ↔ path = field :: low32 index :: rest := by
  unfold pathBelow?
  split
  · rename_i f i below
    by_cases leads : f = field ∧ i = low32 index
    · simp [leads]
    · simp only [leads, if_false, reduceCtorEq, List.cons.injEq, false_iff]
      rintro ⟨rfl, rfl, rfl⟩
      exact leads ⟨rfl, rfl⟩
  · rename_i short
    simp only [reduceCtorEq, false_iff]
    rintro rfl
    exact short _ _ _ rfl

theorem narrow_cons (entry : SourceLocation) (table : LocationTable) (field index : Int) :
    narrow (entry :: table) field index =
      match pathBelow? field index entry.path with
      | some rest => { entry with path := rest } :: narrow table field index
      | none => narrow table field index := by
  rw [narrow, List.filterMap_cons]
  cases pathBelow? field index entry.path <;> rfl

/-- Narrowing keeps every answer about the nodes under the child. -/
theorem commentAt_narrow (table : LocationTable) (field index : Int) (rest : List Int) :
    (table.narrow field index).commentAt rest = table.commentAt (field :: low32 index :: rest) := by
  induction table with
  | nil => rfl
  | cons entry table ih =>
    rw [narrow_cons, commentAt_cons]
    cases below : pathBelow? field index entry.path with
    | none =>
      have other : entry.path ≠ field :: low32 index :: rest := by
        intro same
        simp [pathBelow?_eq_some_iff.mpr same] at below
      simp only [other, if_false]
      exact ih
    | some found =>
      have path := pathBelow?_eq_some_iff.mp below
      by_cases same : found = rest
      · simp [commentAt_cons, path, same]
      · simpa [commentAt_cons, path, same] using ih

/-- An entry at another path can be left out. -/
theorem commentAt_erase {before after : LocationTable} {entry : SourceLocation} {path : List Int}
    (other : entry.path ≠ path) :
    commentAt (before ++ entry :: after) path = commentAt (before ++ after) path := by
  induction before with
  | nil => simp [commentAt_cons, other]
  | cons first before ih => simp only [List.cons_append, commentAt_cons, ih]

/-- The table answers, relative to the node at `path`, what `comments` says of
absolute paths. -/
def Serves (table : LocationTable) (comments : List Int → Text) (path : List Int) : Prop :=
  ∀ rest, table.commentAt rest = comments (path ++ rest)

theorem serves_whole (table : LocationTable) : table.Serves table.commentAt [] :=
  fun _ => rfl

theorem Serves.comment {table : LocationTable} {comments : List Int → Text} {path : List Int}
    (serves : table.Serves comments path) : table.comment = comments path := by
  rw [comment_eq_commentAt_nil, serves [], List.append_nil]

theorem Serves.narrow {table : LocationTable} {comments : List Int → Text} {path : List Int}
    (serves : table.Serves comments path) (field : Int) {index : Nat} (small : index < indexLimit) :
    (table.narrow field index).Serves comments (path ++ [field, (index : Int)]) := by
  intro rest
  rw [commentAt_narrow, low32_natCast small, serves]
  simp

/-- The table of a child serves the child's path. -/
theorem Serves.child {table : LocationTable} {comments : List Int → Text} {path : List Int}
    (serves : table.Serves comments path) (field depth : Int) {index : Nat}
    (small : index < indexLimit) :
    ((Cursor.under table field depth).step index).scope.Serves comments
      (path ++ [field, (index : Int)]) :=
  serves.narrow field small

end LocationTable

end Protoclass
