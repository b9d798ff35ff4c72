import Protoclass.Proofs.Files.Walk
import Protoclass.Proofs.Paths.Inside
import Protoclass.Settings

/-!
# Discovered files

The schema files below a directory are found by a walk that does not enter excluded
directories.  They are exactly the files whose path ends in `.proto` and leads through no
excluded directory, in lexical order, and each file that the standard filter accepts is
among them.
-/

namespace Protoclass

open Protoclass.Path (Proper)
open Text (slash)

/-! ## Patterns for endings -/

namespace Glob

theorem afterAll?_map_byte_eq_some_iff {bytes text rest : Text} :
    afterAll? (bytes.map .byte) text = some rest ↔ text = bytes ++ rest := by
  induction bytes generalizing text with
  | nil => simp [afterAll?]
  | cons b bytes ih =>
    cases text with
    | nil => simp [afterAll?, Item.after?]
    | cons c text =>
      by_cases same : c = b
      · simp [afterAll?, Item.after?, same, ih]
      · simp [afterAll?, Item.after?, same]

theorem firstFit_map_byte_cons (bytes : Text) (b : UInt8) (text : Text) :
    firstFit (bytes.map .byte) true (b :: text) =
      if b :: text = bytes then some []
      else if b = slash then none else firstFit (bytes.map .byte) true text := by
  rw [firstFit]
  cases found : afterAll? (bytes.map .byte) (b :: text) with
  | none =>
    have other : b :: text ≠ bytes := by
      rintro rfl
      rw [afterAll?_map_byte_eq_some_iff.mpr (List.append_nil _).symm] at found
      contradiction
    rw [if_neg other]
  | some rest =>
    rw [afterAll?_map_byte_eq_some_iff] at found
    cases rest with
    | nil => simp [found]
    | cons c rest =>
      have other : b :: text ≠ bytes := by simp [found]
      rw [if_neg other]
      simp

/-- A text ends with some bytes, with no slash before them. -/
def Ends (text bytes : Text) : Prop := ∃ front, slash ∉ front ∧ text = front ++ bytes

theorem Ends.suffix {text bytes : Text} (ends : Ends text bytes) : bytes <:+ text := by
  obtain ⟨front, -, rfl⟩ := ends
  exact List.suffix_append front bytes

theorem Ends.proper {name : Text} (ends : Ends name ".proto") : Proper name ∧ slash ∉ name := by
  obtain ⟨front, undivided, rfl⟩ := ends
  have long {name : Text} (short : name.length < 6) : front ++ ".proto" ≠ name := by
    rintro rfl
    rw [List.length_append, show (Text.ofString ".proto").length = 6 from rfl] at short
    omega
  refine ⟨⟨long (by decide), long (by decide), long (by decide)⟩, ?_⟩
  rw [List.mem_append, not_or]
  exact ⟨undivided, by decide⟩

theorem ends_nil_iff {bytes : Text} : Ends [] bytes ↔ bytes = [] := by
  simp [Ends]

theorem ends_cons_iff {b : UInt8} {text bytes : Text} :
    Ends (b :: text) bytes ↔ b :: text = bytes ∨ b ≠ slash ∧ Ends text bytes := by
  constructor
  · rintro ⟨front, undivided, split⟩
    cases front with
    | nil => exact .inl split
    | cons c front =>
      rw [List.mem_cons, not_or] at undivided
      rw [List.cons_append, List.cons.injEq] at split
      exact .inr ⟨split.1 ▸ Ne.symm undivided.1, front, undivided.2, split.2⟩
  · rintro (whole | ⟨shown, front, undivided, rfl⟩)
    · exact ⟨[], List.not_mem_nil, whole⟩
    · refine ⟨b :: front, ?_, rfl⟩
      rw [List.mem_cons, not_or]
      exact ⟨Ne.symm shown, undivided⟩

/-- Bytes after a star match what ends with them. -/
theorem firstFit_map_byte_eq_some_iff {bytes text rest : Text} :
    firstFit (bytes.map .byte) true text = some rest ↔ rest = [] ∧ Ends text bytes := by
  induction text with
  | nil =>
    rw [ends_nil_iff]
    cases bytes <;> simp [firstFit, afterAll?, Item.after?, eq_comm]
  | cons b text ih =>
    rw [firstFit_map_byte_cons, ends_cons_iff]
    split
    next whole => simp [whole, eq_comm]
    next other =>
      split
      next same => simp [same ▸ other, same]
      next shown => simp [ih, other, shown]

theorem matchesAfterStar_map_byte_iff {bytes text : Text} (given : bytes ≠ []) :
    matchesAfterStar [bytes.map .byte] text = true ↔ Ends text bytes := by
  obtain ⟨b, bytes, rfl⟩ := List.exists_cons_of_ne_nil given
  cases fit : firstFit ((b :: bytes).map .byte) true text with
  | some rest =>
    obtain ⟨rfl, ends⟩ := firstFit_map_byte_eq_some_iff.mp fit
    rw [List.map_cons] at fit ⊢
    simp [matchesAfterStar, fit, ends]
  | none =>
    have apart : ¬Ends text (b :: bytes) := by
      intro ends
      rw [firstFit_map_byte_eq_some_iff.mpr ⟨rfl, ends⟩] at fit
      contradiction
    rw [List.map_cons] at fit ⊢
    simp [matchesAfterStar, fit, apart]

theorem isMatch_suffix_iff {name : Text} :
    isMatch "*.proto" name = true ↔ Ends name ".proto" := by
  have parsed : parse "*.proto" = some (.star :: (".proto" : Text).map .byte) := by decide
  have divided : segments (.star :: (".proto" : Text).map .byte)
      = ([], [(".proto" : Text).map .byte]) := by decide
  simp only [isMatch, parsed, matchesItems, divided, afterAll?]
  exact matchesAfterStar_map_byte_iff (by decide)

end Glob

theorem isExcluded_eq_false_iff {exclude : List Text} {name : Text} :
    isExcluded exclude name = false ↔
      ∀ pattern ∈ exclude, Glob.isMatch (Text.dropTail pattern "/") name = false := by
  simp [isExcluded]

/-- The standard filter accepts names that end in `.proto`, where no element is excluded. -/
theorem WatchFilter.accepts_standard_iff {exclude : List Text} {path : Text} :
    ({ Settings.standard.watch with exclude } : WatchFilter).accepts path = true ↔
      (∀ element ∈ path.splitOn slash, element ≠ [] → isExcluded exclude element = false) ∧
        Glob.Ends (Path.base path) ".proto" := by
  have patterns : Settings.standard.watch.patterns = ["*.proto", "**/*.proto"] := rfl
  have anyDepth : Text.dropLead "**/*.proto" "**/" = "*.proto" := by decide
  have oneLevel : Text.dropLead "*.proto" "**/" = "*.proto" := by decide
  rw [WatchFilter.accepts, Bool.and_eq_true, Bool.not_eq_true', List.any_eq_false, patterns,
    ← Glob.isMatch_suffix_iff]
  simp [matchesName, anyDepth, oneLevel]

namespace FileSystem

open FileTree (LeadsTo)

variable {system : FileSystem} {root : Text} {tree : FileTree} {exclude : List Text}

/-- A schema file below a directory, by the path that leads there: it ends in `.proto`, and no
directory on the way has a name that is excluded. -/
def IsSchemaFile (exclude : List Text) (tree : FileTree) (path : Text) : Prop :=
  ∃ through node, LeadsTo tree through node ∧ node.isDirectory = false ∧
    path = Text.join "/" through ∧ Text.ofString ".proto" <:+ path ∧
    ∀ above ∈ through.dropLast, ∀ pattern ∈ exclude,
      Glob.isMatch (Text.dropTail pattern "/") above = false

/-- The schema files that a walk comes to, with the names that lead there. -/
def schemaFiles (exclude : List Text) (tree : FileTree) : List (List Text × FileTree) :=
  (tree.walk fun tree => tree.isDirectory && isExcluded exclude tree.name).filter fun reached =>
    !reached.2.isDirectory && Text.endsWith (Text.join "/" reached.1) ".proto"

theorem ne_nil_of_resolve (resolved : system.resolve root = .ok tree) : root ≠ [] := by
  rintro rfl
  simp [resolve] at resolved

theorem ne_nil_of_leadsTo {node : FileTree} {through : List Text}
    (isDirectory : tree.isDirectory = true) (leads : LeadsTo tree through node)
    (isFile : node.isDirectory = false) : through ≠ [] := by
  rintro rfl
  rw [leads.eq_of_nil, isDirectory] at isFile
  contradiction

/-- What is found are the names that lead to schema files, with slashes between them. -/
theorem discover_eq (resolved : system.resolve root = .ok tree)
    (isDirectory : tree.isDirectory = true) (named : tree.HasNames) :
    system.discover root exclude =
      .ok ((schemaFiles exclude tree).map fun reached => Text.join "/" reached.1) := by
  have given := ne_nil_of_resolve resolved
  unfold discover schemaFiles
  simp only [FileSystem.visit, resolved, Result.ok_bind, FileTree.visit_eq_map_walk]
  rw [List.filterMap_map, ← List.filterMap_eq_map, List.filterMap_filter]
  apply congrArg Except.ok
  apply List.filterMap_congr
  rintro ⟨through, node⟩ member
  cases isFile : node.isDirectory with
  | true => simp [isFile]
  | false =>
    obtain ⟨reached, -⟩ := (FileTree.mem_walk_iff isFile).mp member
    have nonempty := ne_nil_of_leadsTo isDirectory reached isFile
    have sound := reached.proper named
    have leads := Path.leads_join nonempty sound
    have ending : Text.endsWith (Path.join root (Text.join "/" through)) ".proto"
        = Text.endsWith (Text.join "/" through) ".proto" := by
      rw [Bool.eq_iff_iff, Text.endsWith_iff, Text.endsWith_iff]
      exact leads.suffix_join_iff given nonempty (by decide)
    simp only [Function.comp_apply, isFile, Path.foldl_join given nonempty sound, ending,
      leads.relative?_join given nonempty]

theorem mem_schemaFiles_iff {reached : List Text × FileTree} :
    reached ∈ schemaFiles exclude tree ↔
      LeadsTo tree reached.1 reached.2 ∧ reached.2.isDirectory = false ∧
        Text.ofString ".proto" <:+ Text.join "/" reached.1 ∧
        ∀ above ∈ reached.1.dropLast, isExcluded exclude above = false := by
  rw [schemaFiles, List.mem_filter, Bool.and_eq_true, Bool.not_eq_true', Text.endsWith_iff]
  constructor
  · rintro ⟨member, isFile, ending⟩
    obtain ⟨leads, allowed⟩ := (FileTree.mem_walk_iff isFile).mp member
    exact ⟨leads, isFile, ending, allowed⟩
  · rintro ⟨leads, isFile, ending, allowed⟩
    exact ⟨(FileTree.mem_walk_iff isFile).mpr ⟨leads, allowed⟩, isFile, ending⟩

theorem mem_map_schemaFiles_iff {path : Text} :
    path ∈ (schemaFiles exclude tree).map (fun reached => Text.join "/" reached.1) ↔
      IsSchemaFile exclude tree path := by
  simp only [List.mem_map, mem_schemaFiles_iff, isExcluded_eq_false_iff]
  constructor
  · rintro ⟨⟨through, node⟩, ⟨leads, isFile, ending, allowed⟩, rfl⟩
    exact ⟨through, node, leads, isFile, rfl, ending, allowed⟩
  · rintro ⟨through, node, leads, isFile, rfl, ending, allowed⟩
    exact ⟨(through, node), ⟨leads, isFile, ending, allowed⟩, rfl⟩

/-- The elements of the paths that are found are in lexical order. -/
theorem pairwise_schemaFiles (exclude : List Text) (isDirectory : tree.isDirectory = true)
    (named : tree.HasNames) (ordered : tree.Ordered) :
    (((schemaFiles exclude tree).map fun reached => Text.join "/" reached.1).map
      (Text.splitOn slash)).Pairwise (· < ·) := by
  have divided : ∀ reached ∈ schemaFiles exclude tree,
      (Text.splitOn slash ∘ fun reached => Text.join "/" reached.1) reached = reached.1 := by
    intro reached member
    obtain ⟨leads, isFile, -⟩ := mem_schemaFiles_iff.mp member
    exact Text.splitOn_join (ne_nil_of_leadsTo isDirectory leads isFile)
      fun name among => (leads.proper named name among).2
  rw [List.map_map, List.map_congr_left divided]
  exact (FileTree.pairwise_walk _ tree ordered).sublist (List.filter_sublist.map Prod.fst)

/-- A file that the standard filter accepts is a schema file. -/
theorem isSchemaFile_of_accepts {node : FileTree} {through : List Text} {path : Text}
    (given : root ≠ []) (isDirectory : tree.isDirectory = true) (named : tree.HasNames)
    (leads : LeadsTo tree through node) (isFile : node.isDirectory = false)
    (same : Path.clean path = Path.join root (Text.join "/" through))
    (accepted : ({ Settings.standard.watch with exclude } : WatchFilter).accepts path = true) :
    IsSchemaFile exclude tree (Text.join "/" through) := by
  obtain ⟨allowed, ends⟩ := WatchFilter.accepts_standard_iff.mp accepted
  obtain ⟨proper, undivided⟩ := ends.proper
  have nonempty := ne_nil_of_leadsTo isDirectory leads isFile
  have sound := leads.proper named
  have elements : Path.elements path = Path.elements root ++ through := by
    rw [← Path.elements_clean, same, (Path.leads_join nonempty sound).elements_join given]
  have last : through.getLast? = some (Path.base path) := by
    rw [← Path.getLast?_elements proper undivided, elements,
      List.getLast?_append_of_ne_nil _ nonempty]
  obtain ⟨above, rfl⟩ := List.getLast?_eq_some_iff.mp last
  refine ⟨_, node, leads, isFile, rfl, ?_, ?_⟩
  · obtain ⟨front, lead, split⟩ := Path.exists_lead_join above (Path.base path)
    rw [split, lead.suffix_append_iff (by decide)]
    exact ends.suffix
  · intro name member
    rw [List.dropLast_concat] at member
    rw [← isExcluded_eq_false_iff]
    have proper := (sound name (List.mem_append_left _ member)).1
    apply allowed name _ proper.1
    apply Path.mem_splitOn_of_mem_elements _ proper
    rw [elements]
    exact List.mem_append_right _ (List.mem_append_left _ member)

/-- Discovery finds each schema file below a directory once, in lexical order, and nothing
else.  The files whose changes the standard filter accepts are among them. -/
theorem discover_finds_schema_files {name : Text} {entries : List FileTree}
    (resolved : system.resolve root = .ok (.directory name entries))
    (named : (FileTree.directory name entries).HasNames)
    (ordered : (FileTree.directory name entries).Ordered) (exclude : List Text) :
    ∃ found, system.discover root exclude = .ok found ∧
      found.Nodup ∧ (found.map (Text.splitOn slash)).Pairwise (· < ·) ∧
      (∀ path, path ∈ found ↔ IsSchemaFile exclude (.directory name entries) path) ∧
      ∀ path through node, LeadsTo (.directory name entries) through node →
        node.isDirectory = false → Path.clean path = Path.join root (Text.join "/" through) →
        ({ Settings.standard.watch with exclude } : WatchFilter).accepts path = true →
        Text.join "/" through ∈ found := by
  have given := ne_nil_of_resolve resolved
  have sorted := pairwise_schemaFiles exclude rfl named ordered
  refine ⟨_, discover_eq resolved rfl named, ?_, sorted, ?_, ?_⟩
  · apply List.Pairwise.of_map (Text.splitOn slash) _ sorted
    rintro path _ less rfl
    exact List.lt_irrefl _ less
  · intro path
    exact mem_map_schemaFiles_iff
  · intro path through node leads isFile same accepted
    rw [mem_map_schemaFiles_iff]
    exact isSchemaFile_of_accepts given rfl named leads isFile same accepted

/-- A directory with schema files at three places. -/
def sampleDirectory : FileTree :=
  .directory "project"
    [.file "a.proto" "", .directory "build" [.file "b.proto" ""],
      .directory "src" [.file "c.proto" "", .file "notes" ""]]

theorem discover_finds_schema_files_of_sample :
    ∃ found, discover { entries := [sampleDirectory] } "/project" ["build/"] = .ok found ∧
      found.Nodup ∧ (found.map (Text.splitOn slash)).Pairwise (· < ·) ∧
      (Text.ofString "build/b.proto" ∈ found ↔
        IsSchemaFile ["build/"] sampleDirectory "build/b.proto") ∧
      Text.ofString "src/c.proto" ∈ found := by
  have resolved : resolve { entries := [sampleDirectory] } "/project" = .ok sampleDirectory := rfl
  have named : sampleDirectory.HasNames := by
    simp only [sampleDirectory, FileTree.HasNames, FileTree.HaveNames]
    decide
  have ordered : sampleDirectory.Ordered := by
    simp only [sampleDirectory, FileTree.Ordered, FileTree.AreOrdered]
    decide
  have leads : LeadsTo sampleDirectory ["src", "c.proto"] (.file "c.proto" "") := by
    have inner : LeadsTo (.directory "src" [.file "c.proto" "", .file "notes" ""]) ["c.proto"]
        (.file "c.proto" "") :=
      .down List.mem_cons_self (.here _)
    exact .down (by simp) inner
  obtain ⟨found, discovered, distinct, sorted, exactly, watched⟩ :=
    discover_finds_schema_files resolved named ordered ["build/"]
  refine ⟨found, discovered, distinct, sorted, exactly _, ?_⟩
  exact watched "/project/src/c.proto" ["src", "c.proto"] _ leads rfl (by decide)
    (by decide)

end FileSystem

end Protoclass
