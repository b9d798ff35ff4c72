import Protoclass.Proofs.Attribution.Narrowing

/-!
# Descent selects by path

A table that is narrowed step by step keeps exactly the entries whose paths start
with the path of the steps, in order, each relative to that path.  Entries of every
length are covered: one that ends inside the path is dropped at the step where it
ends, and one that goes on behind it keeps the rest.
-/

namespace Protoclass.LocationTable

/-- The path of the steps, each of which goes to a child of a field. -/
def pathOf (steps : List (Int × Nat)) : List Int :=
  steps.flatMap fun (field, index) => [field, (index : Int)]

/-- The table narrowed by one step after the other. -/
def descend (table : LocationTable) (steps : List (Int × Nat)) : LocationTable :=
  steps.foldl (fun table (field, index) => table.narrow field index) table

/-- The entries whose paths start with `path`, each relative to it. -/
def below (table : LocationTable) (path : List Int) : LocationTable :=
  (table.filter fun entry => path <+: entry.path).map fun entry =>
    { entry with path := entry.path.drop path.length }

/-! ## One step -/

theorem below_nil (table : LocationTable) : table.below [] = table := by
  simp [below]

theorem append_isPrefix_iff {path rest whole : List Int} :
    path ++ rest <+: whole ↔ path <+: whole ∧ rest <+: whole.drop path.length := by
  constructor
  · rintro ⟨more, rfl⟩
    rw [List.append_assoc, List.drop_left]
    exact ⟨List.prefix_append path _, List.prefix_append rest more⟩
  · rintro ⟨⟨more, rfl⟩, within⟩
    rw [List.drop_left] at within
    exact (List.prefix_append_right_inj path).mpr within

/-- Selecting by a path and then by another is selecting by both, one behind the other. -/
theorem below_below (table : LocationTable) (path rest : List Int) :
    (table.below path).below rest = table.below (path ++ rest) := by
  simp only [below, List.filter_map, List.filter_filter, List.map_map]
  congr 1
  · funext entry
    simp [List.drop_drop]
  · apply List.filter_congr
    intro entry _
    simp [append_isPrefix_iff, Bool.and_comm]

theorem narrow_eq_below (table : LocationTable) (field : Int) {index : Nat}
    (small : index < indexLimit) :
    table.narrow field index = table.below [field, (index : Int)] := by
  induction table with
  | nil => rfl
  | cons entry table ih =>
    rw [narrow_cons, ih]
    cases leads : pathBelow? field index entry.path with
    | some rest =>
      have path := pathBelow?_eq_some_iff.mp leads
      rw [low32_natCast small] at path
      simp [below, path]
    | none =>
      have other : ¬[field, (index : Int)] <+: entry.path := by
        rintro ⟨rest, path⟩
        rw [pathBelow?_eq_some_iff.mpr (by rw [low32_natCast small]; exact path.symm)] at leads
        contradiction
      simp [below, other]

/-! ## All steps -/

theorem descend_eq_below (table : LocationTable) {steps : List (Int × Nat)}
    (small : ∀ step ∈ steps, step.2 < indexLimit) :
    table.descend steps = table.below (pathOf steps) := by
  induction steps generalizing table with
  | nil => exact (below_nil table).symm
  | cons step steps ih =>
    rw [List.forall_mem_cons] at small
    calc
      table.descend (step :: steps) = (table.narrow step.1 step.2).descend steps := rfl
      _ = (table.below [step.1, (step.2 : Int)]).below (pathOf steps) := by
        rw [ih _ small.2, narrow_eq_below table step.1 small.1]
      _ = table.below (pathOf (step :: steps)) := below_below table _ _

/-- A narrowed table serves the path of the steps. -/
theorem Serves.descend {table : LocationTable} {comments : List Int → Text} {path : List Int}
    (serves : table.Serves comments path) {steps : List (Int × Nat)}
    (small : ∀ step ∈ steps, step.2 < indexLimit) :
    (table.descend steps).Serves comments (path ++ pathOf steps) := by
  induction steps generalizing table path with
  | nil => rwa [pathOf, List.flatMap_nil, List.append_nil]
  | cons step steps ih =>
    rw [List.forall_mem_cons] at small
    have below := ih (serves.narrow step.1 small.1) small.2
    rwa [List.append_assoc] at below

/-- Narrowing by steps with indices below `2 ^ 31` leaves, in order, the entries whose
paths start with the path of the steps, each without that start and with its comment.
The comment of the node that is reached is that of the first entry at exactly its path. -/
theorem descend_selects_by_path (table : LocationTable) (steps : List (Int × Nat))
    (small : ∀ step ∈ steps, step.2 < indexLimit) :
    table.descend steps =
        (table.filter fun entry => pathOf steps <+: entry.path).map (fun entry =>
          { path := entry.path.drop (pathOf steps).length, comment := entry.comment }) ∧
      (table.descend steps).comment = table.commentAt (pathOf steps) :=
  ⟨descend_eq_below table small, ((serves_whole table).descend small).comment⟩

/-- Two steps through a table with entries above the node, beside it, below it and at
it twice; the second index is the last one below the limit. -/
theorem descend_among_repeated_entries :
    let table : LocationTable :=
      [⟨[4], "short"⟩, ⟨[4, 1], "above"⟩, ⟨[4, 1, 2, 2147483647, 8], "under"⟩,
        ⟨[4, 1, 3, 2147483647], "beside"⟩, ⟨[4, 1, 2, 2147483647], "first"⟩,
        ⟨[4, 1, 2, 2147483647], "second"⟩, ⟨[4, 1, 2, -1], "negative"⟩]
    let steps : List (Int × Nat) := [(4, 1), (2, 2147483647)]
    (∀ step ∈ steps, step.2 < indexLimit) ∧
      table.descend steps = [⟨[8], "under"⟩, ⟨[], "first"⟩, ⟨[], "second"⟩] ∧
      (table.descend steps).comment = "first" := by
  intro table steps
  have small : ∀ step ∈ steps, step.2 < indexLimit := by decide
  obtain ⟨entries, comment⟩ := descend_selects_by_path table steps small
  exact ⟨small, entries.trans (by decide), comment.trans (by decide)⟩

end Protoclass.LocationTable
