import Mathlib.Data.List.Basic
import Mathlib.Data.List.Induction

/-!
# First occurrences

A list without its repetitions has the first occurrence of each element, in their
order.  How this goes together with what else is done to lists: appending,
filtering, and mapping by a function that tells the elements apart.
-/

namespace Protoclass

variable {α β γ : Type} [BEq α] [LawfulBEq α] [BEq β] [LawfulBEq β]

theorem eraseDups_concat (xs : List α) (x : α) :
    (xs ++ [x]).eraseDups = xs.eraseDups ++ if x ∈ xs then [] else [x] := by
  rw [List.eraseDups_append, List.removeAll]
  by_cases seen : x ∈ xs <;> simp [seen, List.eraseDups_cons]

/-- What is left comes in order of first occurrence. -/
theorem pairwise_idxOf_eraseDups (xs : List α) :
    xs.eraseDups.Pairwise fun x y => xs.idxOf x < xs.idxOf y := by
  induction xs using List.reverseRecOn with
  | nil => exact .nil
  | append_singleton xs x ih =>
    have earlier : xs.eraseDups.Pairwise fun y z => (xs ++ [x]).idxOf y < (xs ++ [x]).idxOf z := by
      refine ih.imp_of_mem ?_
      intro y z member among less
      rw [List.mem_eraseDups] at member among
      rwa [List.idxOf_append_of_mem member, List.idxOf_append_of_mem among]
    rw [eraseDups_concat]
    by_cases seen : x ∈ xs
    · rwa [if_pos seen, List.append_nil]
    · rw [if_neg seen, List.pairwise_append]
      refine ⟨earlier, List.pairwise_singleton _ _, ?_⟩
      intro y member z isNew
      rw [List.mem_eraseDups] at member
      rw [List.mem_singleton.mp isNew, List.idxOf_append_of_mem member,
        List.idxOf_append_of_notMem seen]
      exact Nat.lt_add_right _ (List.idxOf_lt_length_iff.mpr member)

theorem nodup_eraseDups (xs : List α) : xs.eraseDups.Nodup := by
  refine (pairwise_idxOf_eraseDups xs).imp ?_
  rintro x _ less rfl
  exact Nat.lt_irrefl _ less

theorem filter_eraseDups (p : α → Bool) (xs : List α) :
    xs.eraseDups.filter p = (xs.filter p).eraseDups := by
  induction xs using List.reverseRecOn with
  | nil => rfl
  | append_singleton xs x ih =>
    rw [eraseDups_concat, List.filter_append, List.filter_append, ih]
    by_cases kept : p x = true
    · rw [List.filter_cons_of_pos kept, List.filter_nil, eraseDups_concat]
      by_cases seen : x ∈ xs <;> simp [seen, kept]
    · by_cases seen : x ∈ xs <;> simp [seen, kept]

theorem eraseDups_eraseDups (xs : List α) : xs.eraseDups.eraseDups = xs.eraseDups := by
  induction xs using List.reverseRecOn with
  | nil => rfl
  | append_singleton xs x ih =>
    rw [eraseDups_concat]
    by_cases seen : x ∈ xs
    · simp [seen, ih]
    · simp [seen, eraseDups_concat, ih]

theorem eraseDups_map {f : α → β} {xs : List α}
    (injective : ∀ x ∈ xs, ∀ y ∈ xs, f x = f y → x = y) :
    (xs.map f).eraseDups = xs.eraseDups.map f := by
  induction xs using List.reverseRecOn with
  | nil => rfl
  | append_singleton xs x ih =>
    have earlier : ∀ y ∈ xs, y ∈ xs ++ [x] := fun y => List.mem_append_left [x]
    have seen_iff : f x ∈ xs.map f ↔ x ∈ xs := by
      rw [List.mem_map]
      constructor
      · rintro ⟨y, member, same⟩
        exact injective y (earlier y member) x (by simp) same ▸ member
      · intro member
        exact ⟨x, member, rfl⟩
    rw [List.map_append, List.map_singleton, eraseDups_concat, eraseDups_concat, List.map_append,
      ih fun y member z among => injective y (earlier y member) z (earlier z among)]
    by_cases seen : x ∈ xs <;> simp only [seen, seen_iff, if_true, if_false, List.map_nil,
      List.map_singleton]

theorem eraseDups_append_congr {first second first' second' : List α}
    (front : first.eraseDups = first'.eraseDups) (back : second.eraseDups = second'.eraseDups) :
    (first ++ second).eraseDups = (first' ++ second').eraseDups := by
  have members : ∀ x, x ∈ first ↔ x ∈ first' := by
    intro x
    rw [← List.mem_eraseDups, front, List.mem_eraseDups]
  have absent : (fun x => !first.elem x) = fun x => !first'.elem x := by
    funext x
    simp [members]
  rw [List.eraseDups_append, List.eraseDups_append, front, List.removeAll, List.removeAll,
    ← filter_eraseDups, ← filter_eraseDups, back, absent]

theorem eraseDups_flatMap_congr {f g : γ → List α} {xs : List γ}
    (same : ∀ x ∈ xs, (f x).eraseDups = (g x).eraseDups) :
    (xs.flatMap f).eraseDups = (xs.flatMap g).eraseDups := by
  induction xs with
  | nil => rfl
  | cons x rest ih =>
    rw [List.forall_mem_cons] at same
    rw [List.flatMap_cons, List.flatMap_cons]
    exact eraseDups_append_congr same.1 (ih same.2)

end Protoclass
