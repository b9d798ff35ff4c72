import Mathlib.Logic.Function.Iterate
import Protoclass.Proofs.Paths.Inside

/-!
# The directories above a path

The parent of a cleaned path has its elements without the last one, and a path without
elements is its own parent.  So the parents of any path, one above the other, come to a
highest one: after the first, which is cleaned, each has an element less, and there are
no more elements than bytes.
-/

namespace Protoclass

open Text (slash)

/-- The pieces of a text are no longer than the text. -/
theorem Text.length_flatten_splitOn_le (sep : UInt8) (text : Text) :
    (splitOn sep text).flatten.length ≤ text.length := by
  induction text with
  | nil => simp
  | cons b text ih =>
    by_cases same : b = sep
    · rw [same, splitOn_cons_self, List.flatten_cons, List.nil_append]
      exact Nat.le_succ_of_le ih
    · rcases exists_splitOn_eq_cons sep text with ⟨piece, pieces, split⟩
      rw [split, List.flatten_cons] at ih
      rw [splitOn_cons_of_ne same split, List.flatten_cons, List.cons_append]
      exact Nat.succ_le_succ ih

namespace Path

/-! ## Elements -/

theorem length_push_le (rooted : Bool) (stack : List Text) (element : Text) :
    (push rooted stack element).length ≤ stack.length + element.length := by
  unfold push
  split
  · exact Nat.le_add_right _ _
  next moves =>
    have long : 1 ≤ element.length := List.length_pos_iff.mpr (not_or.mp moves).1
    split
    · split
      · split
        · exact Nat.zero_le _
        · exact Nat.le_trans long (Nat.le_add_left _ _)
      · split
        · exact Nat.add_le_add_left long _
        · rw [List.length_cons]
          exact Nat.le_trans (Nat.le_succ _) (Nat.le_add_right _ _)
    · exact Nat.add_le_add_left long _

theorem length_foldl_push_le (rooted : Bool) (parts stack : List Text) :
    (parts.foldl (push rooted) stack).length ≤ stack.length + parts.flatten.length := by
  induction parts generalizing stack with
  | nil => exact Nat.le_refl _
  | cons part parts ih =>
    rw [List.foldl_cons, List.flatten_cons, List.length_append, ← Nat.add_assoc]
    exact Nat.le_trans (ih _) (Nat.add_le_add_right (length_push_le rooted stack part) _)

/-- A path has no more elements than bytes. -/
theorem length_elements_le (path : Text) : (elements path).length ≤ path.length := by
  have few := length_foldl_push_le (isAbsolute path) (path.splitOn slash) []
  rw [List.length_nil, Nat.zero_add] at few
  rw [elements, List.length_reverse]
  exact Nat.le_trans few (Text.length_flatten_splitOn_le slash path)

theorem Settled.tail {rooted : Bool} {element : Text} {stack : List Text}
    (settled : Settled rooted (element :: stack)) : Settled rooted stack := by
  cases settled with
  | up relative only below => exact below
  | name proper below => exact below

/-- Settled elements are those of the path that is written with them. -/
theorem elements_ofElements {rooted : Bool} {parts : List Text}
    (settled : Settled rooted parts.reverse) (sound : ∀ part ∈ parts, part ≠ [] ∧ slash ∉ part) :
    elements (ofElements rooted parts) = parts := by
  have again := settled.foldl_push_reverse
  rw [List.reverse_reverse] at again
  rw [elements, isAbsolute_ofElements sound]
  by_cases empty : parts = []
  · subst empty
    cases rooted <;> rfl
  · rw [splitOn_ofElements rooted empty fun part member => (sound part member).2]
    cases rooted with
    | true =>
      rw [if_pos rfl, List.foldl_cons, push.eq_def, if_pos (.inl rfl), again, List.reverse_reverse]
    | false => rw [if_neg Bool.false_ne_true, again, List.reverse_reverse]

theorem clean_ofElements {rooted : Bool} {parts : List Text}
    (settled : Settled rooted parts.reverse) (sound : ∀ part ∈ parts, part ≠ [] ∧ slash ∉ part) :
    clean (ofElements rooted parts) = ofElements rooted parts := by
  rw [clean, isAbsolute_ofElements sound, elements_ofElements settled sound]

theorem clean_clean (path : Text) : clean (clean path) = clean path := by
  rw [clean, isAbsolute_clean, elements_clean]
  rfl

theorem clean_append_slash {path : Text} (given : path ≠ []) :
    clean (path ++ [slash]) = clean path := by
  have stays : Leads [] [] := ⟨by decide, rfl⟩
  have rooted : isAbsolute (path ++ [slash]) = isAbsolute path := by
    rcases List.exists_cons_of_ne_nil given with ⟨b, rest, rfl⟩
    rfl
  rw [clean, rooted, stays.elements_append_slash given, List.append_nil]
  rfl

/-! ## Parents -/

/-- The parent of a path is what stands before its last name, cleaned. -/
theorem parent_append {front name : Text} (lead : IsLead front) (undivided : slash ∉ name) :
    parent (front ++ name) = clean front := by
  have dropped := Text.bne_of_notMem (mt List.mem_reverse.mp undivided)
  have kept : front.reverse.dropWhile (· != slash) = front.reverse := by
    rcases lead with rfl | ⟨rest, rfl⟩ <;> simp
  rw [parent, List.reverse_append, List.dropWhile_append_of_pos dropped, kept, List.reverse_reverse]

theorem exists_eq_append (path : Text) :
    ∃ front name, IsLead front ∧ slash ∉ name ∧ path = front ++ name := by
  refine ⟨_, (path.reverse.takeWhile (· != slash)).reverse, isLead_dropWhile path.reverse, ?_,
    (dropWhile_append_takeWhile_reverse _ path).symm⟩
  intro member
  simpa using List.mem_takeWhile_imp (List.mem_reverse.mp member)

theorem isAbsolute_parent {path : Text} (absolute : isAbsolute path = true) :
    isAbsolute (parent path) = true := by
  rcases exists_eq_append path with ⟨front, name, lead, undivided, rfl⟩
  rw [parent_append lead undivided, isAbsolute_clean]
  cases front with
  | nil =>
    cases name with
    | nil => contradiction
    | cons b name =>
      have first : b = slash := by simpa [isAbsolute] using absolute
      exact absurd (first ▸ List.mem_cons_self) undivided
  | cons b front => exact absolute

theorem ofElements_concat (rooted : Bool) {above : List Text} (nonempty : above ≠ [])
    (name : Text) :
    ofElements rooted (above ++ [name]) = ofElements rooted above ++ [slash] ++ name := by
  have joined := Text.join_append (Text.ofString "/") nonempty (List.cons_ne_nil name [])
  cases rooted with
  | true =>
    rw [ofElements, ofElements, if_pos rfl, if_pos rfl, joined, ← List.append_assoc,
      ← List.append_assoc]
    rfl
  | false =>
    rw [ofElements, ofElements, if_neg Bool.false_ne_true, if_neg Bool.false_ne_true,
      if_neg (by simp), if_neg (by simpa using nonempty), joined]
    rfl

/-- The directory above a cleaned path has its elements without the last one. -/
theorem parent_ofElements_concat {rooted : Bool} {above : List Text} {name : Text}
    (settled : Settled rooted above.reverse)
    (sound : ∀ part ∈ above ++ [name], part ≠ [] ∧ slash ∉ part) :
    parent (ofElements rooted (above ++ [name])) = ofElements rooted above := by
  rw [List.forall_mem_append] at sound
  have undivided : slash ∉ name := (sound.2 name List.mem_cons_self).2
  by_cases only : above = []
  · subst only
    cases rooted with
    | true =>
      have lead : IsLead [slash] := .inr ⟨[], rfl⟩
      exact parent_append lead undivided
    | false =>
      have lead : IsLead [] := .inl rfl
      exact parent_append lead undivided
  · have cleaned := clean_ofElements settled sound.1
    have given : ofElements rooted above ≠ [] := cleaned ▸ clean_ne_nil _
    rw [ofElements_concat rooted only, parent_append (.inr ⟨_, rfl⟩) undivided,
      clean_append_slash given, cleaned]

theorem parent_ofElements_nil (rooted : Bool) :
    parent (ofElements rooted []) = ofElements rooted [] := by
  cases rooted <;> rfl

/-- Above a cleaned path there are as many directories as it has elements. -/
theorem iterate_parent_ofElements {rooted : Bool} {parts : List Text}
    (settled : Settled rooted parts.reverse) (sound : ∀ part ∈ parts, part ≠ [] ∧ slash ∉ part) :
    parent^[parts.length] (ofElements rooted parts) = ofElements rooted [] := by
  induction parts using List.reverseRecOn with
  | nil => rfl
  | append_singleton above name ih =>
    rw [List.reverse_concat] at settled
    rw [List.length_append, List.length_singleton, Function.iterate_succ_apply,
      parent_ofElements_concat settled.tail sound]
    rw [List.forall_mem_append] at sound
    exact ih settled.tail sound.1

/-- The parents of a path come to one that is its own parent. -/
theorem exists_highest (path : Text) :
    ∃ count ≤ path.length + 1, parent (parent^[count] path) = parent^[count] path := by
  rcases exists_eq_append path with ⟨front, name, lead, undivided, rfl⟩
  have settled := settled_elements front
  have sound : ∀ part ∈ elements front, part ≠ [] ∧ slash ∉ part :=
    fun _ member => ne_nil_of_mem_elements member
  have few : (elements front).length ≤ (front ++ name).length :=
    Nat.le_trans (length_elements_le front) (by simp)
  refine ⟨(elements front).length + 1, Nat.succ_le_succ few, ?_⟩
  rw [Function.iterate_succ_apply, parent_append lead undivided, clean,
    iterate_parent_ofElements settled sound, parent_ofElements_nil]

end Path

end Protoclass
