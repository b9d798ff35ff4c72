import Protoclass.Proofs.Paths.Names

/-!
# Cleaned paths

The elements of a cleaned path are names, with `..` before them only where the
path does not start at the root.  Cleaning such a path again changes nothing, so
that the elements of a path and of the cleaned path are the same, and joining a
name to a path adds it to the elements.
-/

namespace Protoclass.Path

open Text (slash)

/-- A stack of elements, last first, that cleaning leaves as it is: names above ways
up, and no way up from the root. -/
inductive Settled (rooted : Bool) : List Text → Prop where
  | nil : Settled rooted []
  | up {stack : List Text} (relative : rooted = false) (only : ∀ element ∈ stack, element = "..")
    (below : Settled rooted stack) : Settled rooted (".." :: stack)
  | name {element : Text} {stack : List Text} (proper : Proper element)
    (below : Settled rooted stack) : Settled rooted (element :: stack)

theorem Settled.push {rooted : Bool} {stack : List Text} (settled : Settled rooted stack)
    (element : Text) : Settled rooted (push rooted stack element) := by
  unfold Path.push
  split
  case isTrue => exact settled
  case isFalse moves =>
    rw [not_or] at moves
    split
    case isTrue up =>
      cases settled with
      | nil =>
        cases rooted with
        | true => exact .nil
        | false => exact .up rfl (by simp) .nil
      | up relative only below =>
        simp only [if_true]
        exact .up relative (by simpa using only) (.up relative only below)
      | name proper below =>
        simp only [if_neg proper.2.2]
        exact below
    case isFalse down => exact .name ⟨moves.1, moves.2, down⟩ settled

theorem Settled.foldl_push {rooted : Bool} {parts stack : List Text}
    (settled : Settled rooted stack) : Settled rooted (parts.foldl (Path.push rooted) stack) := by
  induction parts generalizing stack with
  | nil => exact settled
  | cons part parts ih => exact ih (settled.push part)

/-- Cleaning settled elements again gives them back. -/
theorem Settled.foldl_push_reverse {rooted : Bool} {stack : List Text}
    (settled : Settled rooted stack) :
    stack.reverse.foldl (Path.push rooted) [] = stack := by
  induction settled with
  | nil => rfl
  | @up stack relative only below ih =>
    rw [List.reverse_cons, List.foldl_append, ih, List.foldl_cons, List.foldl_nil, push.eq_def,
      if_neg (by decide), if_pos rfl]
    cases stack with
    | nil => simp [relative]
    | cons top rest => simp [only top List.mem_cons_self]
  | @name element stack proper below ih =>
    rw [List.reverse_cons, List.foldl_append, ih, List.foldl_cons, List.foldl_nil,
      push_of_ne_up rooted stack proper.2.2, if_pos proper]

theorem settled_elements (path : Text) :
    Settled (isAbsolute path) (elements path).reverse := by
  rw [elements, List.reverse_reverse]
  exact Settled.nil.foldl_push

theorem Settled.proper {stack : List Text} (settled : Settled true stack) :
    ∀ element ∈ stack, Proper element := by
  induction settled with
  | nil => exact List.forall_mem_nil _
  | up relative => contradiction
  | name proper below ih => exact List.forall_mem_cons.mpr ⟨proper, ih⟩

/-- From the root, a path has nothing but names as its elements. -/
theorem proper_of_mem_elements {path element : Text} (rooted : isAbsolute path = true)
    (member : element ∈ elements path) : Proper element ∧ slash ∉ element := by
  have settled := settled_elements path
  rw [rooted] at settled
  exact ⟨settled.proper element (List.mem_reverse.mpr member), (ne_nil_of_mem_elements member).2⟩

theorem isAbsolute_ofElements {rooted : Bool} {parts : List Text}
    (sound : ∀ part ∈ parts, part ≠ [] ∧ slash ∉ part) :
    isAbsolute (ofElements rooted parts) = rooted := by
  cases rooted with
  | true => rfl
  | false =>
    cases parts with
    | nil => rfl
    | cons first rest =>
      rcases sound first List.mem_cons_self with ⟨given, undivided⟩
      exact isAbsolute_join given undivided rest

/-- A cleaned path has the elements of the path. -/
theorem elements_clean (path : Text) : elements (clean path) = elements path := by
  have sound : ∀ part ∈ elements path, part ≠ [] ∧ slash ∉ part :=
    fun _ member => ne_nil_of_mem_elements member
  have again := (settled_elements path).foldl_push_reverse
  rw [List.reverse_reverse] at again
  have rooted : isAbsolute (clean path) = isAbsolute path := isAbsolute_ofElements sound
  rw [elements, rooted, clean]
  generalize isAbsolute path = start at again ⊢
  by_cases empty : elements path = []
  · rw [empty]
    cases start <;> rfl
  · rw [splitOn_ofElements start empty fun part member => (sound part member).2]
    cases start with
    | false =>
      rw [if_neg Bool.false_ne_true, again, List.reverse_reverse]
    | true =>
      rw [if_pos rfl, List.foldl_cons, push.eq_def, if_pos (.inl rfl), again, List.reverse_reverse]

theorem clean_ne_nil (path : Text) : clean path ≠ [] := by
  rw [clean, ofElements]
  split
  · simp [Text.ofString_slash]
  · split
    · decide
    next given =>
      rcases List.exists_cons_of_ne_nil (by simpa using given) with ⟨first, rest, split⟩
      rw [split]
      have first_ne := (ne_nil_of_mem_elements (split ▸ List.mem_cons_self)).1
      exact Text.join_cons_ne_nil _ first_ne rest

/-- Joining a name to a path adds it to the elements. -/
theorem elements_join_name {path name : Text} (given : path ≠ []) (proper : Proper name)
    (undivided : slash ∉ name) : elements (join path name) = elements path ++ [name] := by
  have leads : Leads name [name] := by
    constructor
    · rw [Text.splitOn_eq_singleton undivided, List.mem_singleton]
      exact Ne.symm proper.2.2
    · simp [names, Text.splitOn_eq_singleton undivided, proper]
  rw [join, if_neg (by simpa using given), elements_clean, List.append_assoc, Text.ofString_slash,
    List.singleton_append, leads.elements_append_slash given]

theorem join_ne_nil {path : Text} (given : path ≠ []) (name : Text) : join path name ≠ [] := by
  rw [join, if_neg (by simpa using given)]
  exact clean_ne_nil _

/-- The elements of a path stand between the slashes of the cleaned path. -/
theorem mem_splitOn_clean {path element : Text} (member : element ∈ elements path) :
    element ∈ (clean path).splitOn slash := by
  rw [clean, splitOn_ofElements _ (List.ne_nil_of_mem member)
    fun part among => (ne_nil_of_mem_elements among).2]
  split
  · exact List.mem_cons_of_mem _ member
  · exact member

end Protoclass.Path
