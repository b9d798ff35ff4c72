import Mathlib.Data.List.Dedup
import Mathlib.Data.List.Induction
import Mathlib.Data.List.Nodup
import Protoclass.TypeIndex

/-!
# Indexes of declared types

An index finds the last declaration that is listed under a name.  Where names are
declared once, the order of the files that declare them does not matter, and more
files only add to what is found.
-/

namespace Protoclass

/-! ## Entries by key -/

section

variable {α : Type} {entries added wider : List (Text × α)} {key : Text} {value : α}

theorem mem_of_lookup_eq_some (found : entries.lookup key = some value) :
    (key, value) ∈ entries := by
  obtain ⟨front, back, rfl, -⟩ := List.lookup_eq_some_iff.mp found
  exact List.mem_append_right front List.mem_cons_self

theorem lookup_eq_some_of_unique (member : (key, value) ∈ entries)
    (unique : ∀ other, (key, other) ∈ entries → other = value) :
    entries.lookup key = some value := by
  cases found : entries.lookup key with
  | none =>
    have other := List.lookup_eq_none_iff.mp found _ member
    simp at other
  | some other => rw [unique other (mem_of_lookup_eq_some found)]

/-- Entries under new keys, wherever they stand, leave those under a key that is
used once as they are found. -/
theorem lookup_eq_some_of_perm (distinct : (entries.map Prod.fst).Nodup)
    (new : ∀ key ∈ added.map Prod.fst, key ∉ entries.map Prod.fst)
    (perm : wider.Perm (entries ++ added)) (found : entries.lookup key = some value) :
    wider.lookup key = some value := by
  have member : (key, value) ∈ entries := mem_of_lookup_eq_some found
  apply lookup_eq_some_of_unique (perm.mem_iff.mpr (List.mem_append_left added member))
  intro other among
  rcases List.mem_append.mp (perm.mem_iff.mp among) with known | isNew
  · have same := List.inj_on_of_nodup_map distinct known member rfl
    exact congrArg Prod.snd same
  · exact absurd (List.mem_map_of_mem member) (new key (List.mem_map_of_mem isNew))

theorem lookup_filter_ne {other : Text} (differ : key ≠ other) (entries : List (Text × α)) :
    (entries.filter fun entry => entry.1 ≠ other).lookup key = entries.lookup key := by
  induction entries with
  | nil => rfl
  | cons entry rest ih =>
    obtain ⟨name, value⟩ := entry
    by_cases same : name = other
    · rw [List.filter_cons_of_neg (by simpa using same), List.lookup_cons,
        beq_false_of_ne (same ▸ differ)]
      exact ih
    · rw [List.filter_cons_of_pos (by simpa using same), List.lookup_cons, List.lookup_cons, ih]

end

namespace TypeIndex

/-! ## What an index finds -/

theorem get?_insert (index : TypeIndex) (name : Text) (declaration : Declaration) (key : Text) :
    (index.insert name declaration).get? key =
      if key = name then some declaration else index.get? key := by
  rw [get?, insert, List.lookup_cons]
  by_cases same : key = name
  · rw [if_pos same, same, beq_self_eq_true]
  · rw [if_neg same, beq_false_of_ne same]
    exact lookup_filter_ne same index.entries

/-- The last declaration of a name is found. -/
theorem get?_ofDeclarations (listed : List (Text × Declaration)) (name : Text) :
    (ofDeclarations listed).get? name = listed.reverse.lookup name := by
  induction listed using List.reverseRecOn with
  | nil => rfl
  | append_singleton listed entry ih =>
    rw [ofDeclarations] at ih ⊢
    rw [List.foldl_append, List.foldl_cons, List.foldl_nil, get?_insert, ih, List.reverse_append,
      List.reverse_singleton, List.singleton_append, List.lookup_cons]
    by_cases same : name = entry.1
    · rw [if_pos same, same, beq_self_eq_true]
    · rw [if_neg same, beq_false_of_ne same]

/-! ## Names -/

theorem map_fst_insert (index : TypeIndex) (name : Text) (declaration : Declaration) :
    (index.insert name declaration).entries.map Prod.fst =
      name :: (index.entries.map Prod.fst).filter (· ≠ name) := by
  rw [insert, List.map_cons, List.filter_map]
  rfl

theorem nodup_ofDeclarations (listed : List (Text × Declaration)) :
    ((ofDeclarations listed).entries.map Prod.fst).Nodup := by
  induction listed using List.reverseRecOn with
  | nil => exact List.nodup_nil
  | append_singleton listed entry ih =>
    rw [ofDeclarations, List.foldl_append, List.foldl_cons, List.foldl_nil, map_fst_insert]
    refine List.nodup_cons.mpr ⟨?_, ih.filter _⟩
    simp

theorem mem_ofDeclarations_iff {listed : List (Text × Declaration)} {name : Text} :
    name ∈ (ofDeclarations listed).entries.map Prod.fst ↔ name ∈ listed.map Prod.fst := by
  induction listed using List.reverseRecOn with
  | nil => rfl
  | append_singleton listed entry ih =>
    rw [ofDeclarations] at ih ⊢
    rw [List.foldl_append, List.foldl_cons, List.foldl_nil, map_fst_insert, List.mem_cons,
      List.mem_filter, ih, List.map_append, List.mem_append]
    by_cases same : name = entry.1 <;> simp [same]

/-- There are as many entries as names. -/
theorem size_ofDeclarations (listed : List (Text × Declaration)) :
    (ofDeclarations listed).size = (listed.map Prod.fst).dedup.length := by
  have names : ((ofDeclarations listed).entries.map Prod.fst).Perm (listed.map Prod.fst).dedup := by
    rw [List.perm_ext_iff_of_nodup (nodup_ofDeclarations listed) (List.nodup_dedup _)]
    intro name
    rw [mem_ofDeclarations_iff, List.mem_dedup]
  rw [size, ← names.length_eq, List.length_map]

/-! ## More files -/

/-- What one index finds, the other finds too. -/
def Extends (index wider : TypeIndex) : Prop :=
  ∀ name declaration, index.get? name = some declaration → wider.get? name = some declaration

theorem Extends.lookup_eq_some {index wider : TypeIndex} (extend : index.Extends wider)
    {reference : Text} {declaration : Declaration}
    (found : index.lookup reference = some declaration) :
    wider.lookup reference = some declaration :=
  extend _ declaration found

/-- Indexes that extend each other find the same. -/
theorem Extends.lookup_eq {index wider : TypeIndex} (extend : index.Extends wider)
    (extend' : wider.Extends index) (reference : Text) :
    index.lookup reference = wider.lookup reference := by
  apply Option.ext
  intro declaration
  exact ⟨extend.lookup_eq_some, extend'.lookup_eq_some⟩

theorem extends_ofFiles {files added wider : List FileDescriptor}
    (distinct : ((declarations files).map Prod.fst).Nodup)
    (new : ∀ name ∈ (declarations added).map Prod.fst, name ∉ (declarations files).map Prod.fst)
    (perm : wider.Perm (files ++ added)) : (ofFiles files).Extends (ofFiles wider) := by
  intro name declaration found
  have listed : (declarations wider).Perm (declarations files ++ declarations added) := by
    rw [declarations, declarations, declarations, ← List.flatMap_append]
    exact perm.flatMap_right _
  have backwards : (declarations wider).reverse.Perm
      ((declarations files).reverse ++ declarations added) :=
    (List.reverse_perm _).trans (listed.trans ((List.reverse_perm _).symm.append_right _))
  rw [ofFiles, get?_ofDeclarations] at found ⊢
  refine lookup_eq_some_of_perm ?_ ?_ backwards found
  · rwa [List.map_reverse, List.nodup_reverse]
  · simpa only [List.map_reverse, List.mem_reverse] using new

end TypeIndex

end Protoclass
