import Protoclass.Text.Basic

/-!
# Fragments

A document is assembled from named fragments.  A fragment's text comes first,
then its children with a separator between them.
-/

namespace Protoclass

/-- A named piece of a document, possibly nothing. -/
inductive Fragment where
  | empty
  | node (name text separator : Text) (children : List Fragment)
  deriving Repr, Inhabited

namespace Fragment

/-- A fragment without children. -/
def leaf (name text : Text) : Fragment :=
  .node name text [] []

/-- A fragment of children only. -/
def join (name separator : Text) (children : List Fragment) : Fragment :=
  .node name [] separator children

mutual

/-- The text of a fragment. -/
def render : Fragment → Text
  | .empty => []
  | .node _ text separator children => text ++ renderFirst separator children

/-- The texts of a list of fragments, with the separator between them. -/
def renderFirst (separator : Text) : List Fragment → Text
  | [] => []
  | child :: rest => render child ++ renderRest separator rest

/-- The texts of a list of fragments, each after the separator. -/
def renderRest (separator : Text) : List Fragment → Text
  | [] => []
  | child :: rest => separator ++ (render child ++ renderRest separator rest)

end

@[simp]
theorem render_leaf (name text : Text) : (leaf name text).render = text := by
  simp [leaf, render, renderFirst]

theorem renderFirst_eq_join (separator : Text) (children : List Fragment) :
    renderFirst separator children = Text.join separator (children.map render) := by
  cases children with
  | nil => rfl
  | cons child rest =>
    have tail : ∀ (first : Text), first ++ renderRest separator rest =
        Text.join separator (first :: rest.map render) := by
      induction rest with
      | nil => intro first; simp [renderRest, Text.join]
      | cons next rest ih =>
        intro first
        simp only [renderRest, List.map_cons, Text.join]
        rw [ih (render next)]
        simp
    simpa [renderFirst] using tail (render child)

@[simp]
theorem render_join (name separator : Text) (children : List Fragment) :
    (join name separator children).render = Text.join separator (children.map render) := by
  simp [join, render, renderFirst_eq_join]

end Fragment

/-- A file of generated code, by its path under the output directory. -/
structure OutputFile where
  path : Text
  content : Text
  deriving DecidableEq, Repr

end Protoclass
