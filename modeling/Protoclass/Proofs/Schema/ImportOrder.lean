import Mathlib.Data.List.Nodup
import Mathlib.Logic.Relation
import Protoclass.Schema.Closure

/-!
# Compiled files in the order of their imports

The search for the closure of compiled files marks a path as seen before it turns to
the imports of its file.  So a path that was seen may belong to a file that is not
collected yet, but only to one that waits for the file at hand; and since no file
imports itself, the search never meets such a path again.  From this it follows, by
induction over the files, that the search collects all files that it reaches, each
once and after its imports.
-/

namespace Protoclass.Schema

open Relation

/-! ## Files that are reached -/

/-- One file imports another. -/
def CompiledFile.Imports (file other : CompiledFile) : Prop := other ∈ file.imports

/-- A file is one of the given ones, or imported by one of them, directly or not. -/
def Reaches (files : List CompiledFile) (file : CompiledFile) : Prop :=
  ∃ root ∈ files, ReflTransGen CompiledFile.Imports root file

theorem Reaches.of_mem {files : List CompiledFile} {file : CompiledFile} (given : file ∈ files) :
    Reaches files file :=
  ⟨file, given, .refl⟩

theorem Reaches.mono {files wider : List CompiledFile} {file : CompiledFile}
    (reached : Reaches files file) (sub : files ⊆ wider) : Reaches wider file := by
  rcases reached with ⟨root, given, route⟩
  exact ⟨root, sub given, route⟩

theorem Reaches.imported {files : List CompiledFile} {file other : CompiledFile}
    (reached : Reaches files file) (imported : other ∈ file.imports) : Reaches files other := by
  rcases reached with ⟨root, given, route⟩
  exact ⟨root, given, route.tail imported⟩

/-- A file reaches itself, and what its imports reach. -/
theorem Reaches.of_imports {file other : CompiledFile} (reached : Reaches file.imports other) :
    Reaches [file] other := by
  rcases reached with ⟨root, imported, route⟩
  exact ⟨file, List.mem_singleton_self file, .head imported route⟩

theorem sizeOf_lt_of_mem_imports {file other : CompiledFile} (imported : other ∈ file.imports) :
    sizeOf other < sizeOf file := by
  rcases file with ⟨path, descriptor, imports⟩
  have less := List.sizeOf_lt_of_mem imported
  simp only [CompiledFile.imports] at less
  simp only [CompiledFile.mk.sizeOf_spec]
  omega

/-- What is imported is smaller, so no file is reached from its own imports. -/
theorem not_reaches_imports (file : CompiledFile) : ¬ Reaches file.imports file := by
  have smaller : ∀ other, Reaches file.imports other → sizeOf other < sizeOf file := by
    rintro other ⟨root, imported, route⟩
    induction route with
    | refl => exact sizeOf_lt_of_mem_imports imported
    | tail _ next ih => exact Nat.lt_trans (sizeOf_lt_of_mem_imports next) ih
  exact fun reached => Nat.lt_irrefl _ (smaller file reached)

/-- Each file that is reached is known by its path, and its descriptor has the path as
its name. -/
structure Identified (files : List CompiledFile) : Prop where
  eq_of_path_eq : ∀ {file other}, Reaches files file → Reaches files other →
    file.path = other.path → file = other
  name_eq : ∀ {file}, Reaches files file → file.descriptor.name = file.path

/-- Files are known by their paths if they are among files whose paths differ, together
with all that these import. -/
theorem identified_of_subset {files : List CompiledFile} (all : List CompiledFile)
    (given : files ⊆ all) (closed : ∀ file ∈ all, file.imports ⊆ all)
    (distinct : (all.map (·.path)).Nodup)
    (named : ∀ file ∈ all, file.descriptor.name = file.path) : Identified files := by
  have among : ∀ {file}, Reaches files file → file ∈ all := by
    rintro file ⟨root, isGiven, route⟩
    induction route with
    | refl => exact given isGiven
    | tail _ imported ih => exact closed _ ih imported
  constructor
  · intro file other reached otherReached same
    exact List.inj_on_of_nodup_map distinct (among reached) (among otherReached) same
  · intro file reached
    exact named file (among reached)

/-- Files in the order of imports: the given files and all that they import, directly
or not, and no others, each once and after the files that it imports. -/
structure IsImportOrder (files order : List CompiledFile) : Prop where
  mem_iff : ∀ file, file ∈ order ↔ Reaches files file
  nodup : (order.map (·.path)).Nodup
  imports_first : ∀ before file after, order = before ++ file :: after → file.imports ⊆ before

/-! ## The search -/

/-- How far a search has come: it has collected the descriptors of `order`, in which no
path stands twice and imports come first, and it has seen their paths and those of the
files that wait. -/
structure Search.HasCollected (waiting : List Text) (order : List CompiledFile) (search : Search) :
    Prop where
  ordered_eq : search.ordered = order.map (·.descriptor)
  mem_seen : ∀ path, path ∈ search.seen ↔ path ∈ order.map (·.path) ∨ path ∈ waiting
  nodup : (order.map (·.path)).Nodup
  apart : ∀ path ∈ waiting, path ∉ order.map (·.path)
  imports_first : ∀ before file after, order = before ++ file :: after → file.imports ⊆ before

namespace Search.HasCollected

variable {waiting : List Text} {order : List CompiledFile} {search : Search}

/-- A new path starts to wait. -/
theorem wait (collected : search.HasCollected waiting order) {path : Text}
    (new : path ∉ search.seen) :
    Search.HasCollected (path :: waiting) order { search with seen := path :: search.seen } := by
  rw [collected.mem_seen, not_or] at new
  constructor
  · exact collected.ordered_eq
  · intro other
    rw [List.mem_cons, collected.mem_seen, List.mem_cons]
    exact or_left_comm
  · exact collected.nodup
  · exact List.forall_mem_cons.mpr ⟨new.1, collected.apart⟩
  · exact collected.imports_first

/-- A file whose imports are collected need not wait any longer. -/
theorem collect (file : CompiledFile) (collected : search.HasCollected (file.path :: waiting) order)
    (notWaiting : file.path ∉ waiting) (imported : file.imports ⊆ order) :
    Search.HasCollected waiting (order ++ [file])
      { search with ordered := search.ordered ++ [file.descriptor] } := by
  have new : file.path ∉ order.map (·.path) := collected.apart _ List.mem_cons_self
  constructor
  · simp [collected.ordered_eq]
  · intro path
    rw [collected.mem_seen, List.mem_cons, List.map_append, List.mem_append, List.map_singleton,
      List.mem_singleton, or_assoc]
  · rw [List.map_append, List.map_singleton, ← List.concat_eq_append]
    exact List.Nodup.concat new collected.nodup
  · intro path waits among
    rw [List.map_append, List.mem_append, List.map_singleton, List.mem_singleton] at among
    rcases among with old | rfl
    · exact collected.apart path (List.mem_cons_of_mem _ waits) old
    · exact notWaiting waits
  · intro before later after split
    rcases List.eq_nil_or_concat after with rfl | ⟨init, final, rfl⟩
    · rcases List.append_inj' split rfl with ⟨rfl, same⟩
      cases same
      exact imported
    · rw [List.concat_eq_append, ← List.cons_append, ← List.append_assoc] at split
      exact collected.imports_first before later init (List.append_inj' split rfl).1

end Search.HasCollected

/-- From one order to a longer one, which has all the given files and otherwise only
what they reach. -/
structure Search.Adds (files order longer : List CompiledFile) : Prop where
  kept : order ⊆ longer
  added : files ⊆ longer
  reached : ∀ file ∈ longer, file ∈ order ∨ Reaches files file

theorem Search.Adds.trans {file : CompiledFile} {files order longer longest : List CompiledFile}
    (first : Search.Adds [file] order longer) (others : Search.Adds files longer longest) :
    Search.Adds (file :: files) order longest := by
  constructor
  · exact List.Subset.trans first.kept others.kept
  · exact List.cons_subset.mpr ⟨others.kept (first.added List.mem_cons_self), others.added⟩
  · intro other among
    rcases others.reached other among with inLonger | reached
    · rcases first.reached other inLonger with old | reached
      · exact .inl old
      · exact .inr (reached.mono (by simp))
    · exact .inr (reached.mono (List.subset_cons_self file files))

mutual

/-- The search for a file adds it and all that it reaches, if none of these waits. -/
theorem Search.visit_adds {all order : List CompiledFile} (identified : Identified all)
    {waiting : List Text} {search : Search} (file : CompiledFile)
    (collected : search.HasCollected waiting order)
    (known : ∀ other ∈ order, Reaches all other)
    (below : ∀ other, Reaches [file] other → Reaches all other ∧ other.path ∉ waiting) :
    ∃ longer, (search.visit file).HasCollected waiting longer ∧
      Search.Adds [file] order longer := by
  rcases file with ⟨path, descriptor, imports⟩
  rcases below _ (.of_mem (List.mem_singleton_self _)) with ⟨isKnown, notWaiting⟩
  rw [Search.visit]
  simp only [List.contains_iff_mem]
  split
  case isTrue seen =>
    -- A path that was seen and does not wait is that of a collected file: this one.
    rcases List.mem_map.mp (((collected.mem_seen path).mp seen).resolve_right notWaiting) with
      ⟨other, among, same⟩
    cases identified.eq_of_path_eq (known other among) isKnown same
    refine ⟨order, collected, List.Subset.refl order, by simpa using among, fun _ => .inl⟩
  case isFalse new =>
    -- None of the imports leads back to the file that now waits.
    have inner : ∀ other, Reaches imports other →
        Reaches all other ∧ other.path ∉ path :: waiting := by
      intro other reached
      rcases below other (.of_imports reached) with ⟨otherKnown, apart⟩
      refine ⟨otherKnown, ?_⟩
      rw [List.mem_cons, not_or]
      refine ⟨?_, apart⟩
      intro same
      cases identified.eq_of_path_eq otherKnown isKnown same
      exact not_reaches_imports (.mk path descriptor imports) reached
    rcases Search.visitAll_adds identified imports (collected.wait new) known inner with
      ⟨longer, collected', adds⟩
    refine ⟨longer ++ [.mk path descriptor imports], ?_, ?_⟩
    · exact collected'.collect (.mk path descriptor imports) notWaiting adds.added
    constructor
    · exact List.Subset.trans adds.kept (List.subset_append_left _ _)
    · simp
    · intro other among
      rcases List.mem_append.mp among with inLonger | last
      · rcases adds.reached other inLonger with old | reached
        · exact .inl old
        · exact .inr (.of_imports reached)
      · exact .inr (.of_mem last)

theorem Search.visitAll_adds {all order : List CompiledFile} (identified : Identified all)
    {waiting : List Text} {search : Search} (files : List CompiledFile)
    (collected : search.HasCollected waiting order)
    (known : ∀ other ∈ order, Reaches all other)
    (below : ∀ other, Reaches files other → Reaches all other ∧ other.path ∉ waiting) :
    ∃ longer, (search.visitAll files).HasCollected waiting longer ∧
      Search.Adds files order longer := by
  cases files with
  | nil => exact ⟨order, collected, List.Subset.refl order, List.nil_subset order, fun _ => .inl⟩
  | cons file rest =>
    rw [Search.visitAll]
    rcases Search.visit_adds identified file collected known
      (fun other reached => below other (reached.mono (by simp))) with ⟨longer, collected', first⟩
    have known' : ∀ other ∈ longer, Reaches all other := by
      intro other among
      rcases first.reached other among with old | reached
      · exact known other old
      · exact (below other (reached.mono (by simp))).1
    rcases Search.visitAll_adds identified rest collected' known'
      (fun other reached => below other (reached.mono (List.subset_cons_self file rest))) with
      ⟨longest, collected'', others⟩
    exact ⟨longest, collected'', first.trans others⟩

end

/-- The closure of files that are known by their paths is in the order of imports. -/
theorem exists_isImportOrder_closure {all : List CompiledFile} (identified : Identified all) :
    ∃ order, closure all = order.map (·.descriptor) ∧ IsImportOrder all order := by
  have start : Search.HasCollected [] [] {} := by
    constructor <;> simp
  rcases Search.visitAll_adds identified all start (by simp)
    (fun other reached => ⟨reached, List.not_mem_nil⟩) with ⟨order, collected, adds⟩
  refine ⟨order, collected.ordered_eq, ?_, collected.nodup, collected.imports_first⟩
  intro file
  constructor
  · intro among
    exact (adds.reached file among).resolve_left List.not_mem_nil
  · rintro ⟨root, given, route⟩
    induction route with
    | refl => exact adds.added given
    | tail _ imported ih =>
      rcases List.append_of_mem ih with ⟨before, after, rfl⟩
      exact List.mem_append_left _ (collected.imports_first before _ after rfl imported)

end Protoclass.Schema
