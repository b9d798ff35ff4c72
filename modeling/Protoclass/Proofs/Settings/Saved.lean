import Protoclass.Command.Init
import Protoclass.Proofs.Yaml.Nodes

/-!
# Saved settings

Settings that are written as YAML are read back as they were (`ofYaml?_toYaml`),
with any library that keeps their texts.  So a file of settings loads with only the
empty ones replaced by their defaults.  The standard library keeps every text on one
line, and of the others all that do not lose their start.
-/

namespace Protoclass.Settings

open Yaml (Value Library PartsKept IsFieldName present losesStart)

/-! ## Fields -/

/-- The value of a text, if it is not empty. -/
def textPart (value : Text) : Option Value := if value.isEmpty then none else some (.text value)

/-- The value of a list, if it is not empty. -/
def textsPart (items : List Text) : Option Value :=
  if items.isEmpty then none else some (.texts items)

/-- The value of a truth value, if it is true. -/
def boolPart (value : Bool) : Option Value := if value = false then none else some (.bool value)

/-- The value of a record, if it is not empty. -/
def recordPart (fields : List (Text × Value)) : Option Value :=
  if fields.isEmpty then none else some (.record fields)

/-- The fields of options, missing ones too. -/
def optionParts (options : Options) : List (Text × Option Value) :=
  [("target_package", textPart options.targetPackage), ("packages", textPart options.packages),
    ("flat_pack", boolPart options.flatPack), ("language", textPart options.language)]

/-- The fields of a watch filter, missing ones too. -/
def watchParts (watch : WatchFilter) : List (Text × Option Value) :=
  [("patterns", textsPart watch.patterns), ("exclude", textsPart watch.exclude)]

/-- The fields of settings, missing ones too. -/
def parts (settings : Settings) : List (Text × Option Value) :=
  [("import_paths", textsPart settings.importPaths), ("files", textsPart settings.files),
    ("out", textPart settings.out),
    ("options", recordPart (present (optionParts settings.options))),
    ("watch", recordPart (present (watchParts settings.watch)))]

theorem present_ite (name : Text) (value : Value) (missing : Prop) [Decidable missing] :
    present [(name, if missing then none else some value)]
      = if missing then [] else [(name, value)] := by
  split <;> rfl

theorem toFields_eq (settings : Settings) : settings.toFields = present settings.parts := by
  have texts : ∀ name items, textsField name items = present [(name, textsPart items)] :=
    fun name items => (present_ite name (.texts items) _).symm
  have text : ∀ name value, textField name value = present [(name, textPart value)] :=
    fun name value => (present_ite name (.text value) _).symm
  have record : ∀ name fields, recordField name fields = present [(name, recordPart fields)] :=
    fun name fields => (present_ite name (.record fields) _).symm
  have bool : ∀ name value, boolField name value = present [(name, boolPart value)] := by
    intro name value
    cases value <;> rfl
  simp only [toFields, texts, text, bool, record, parts, optionParts, watchParts, present,
    ← List.filterMap_append, List.cons_append, List.nil_append]

/-! ## Writing -/

/-- The names that settings are written under. -/
def keys : List Text :=
  ["import_paths", "files", "out", "options", "watch", "target_package", "packages", "flat_pack",
    "language", "patterns", "exclude"]

/-- The texts that are fields of their own. -/
def fieldTexts (settings : Settings) : List Text :=
  [settings.out, settings.options.targetPackage, settings.options.packages,
    settings.options.language]

/-- The texts that are items of a list. -/
def itemTexts (settings : Settings) : List Text :=
  settings.importPaths ++ settings.files ++ settings.watch.patterns ++ settings.watch.exclude

/-- A library keeps each text of the settings at its place.  An empty field is not
written. -/
structure TextsKept (kept : Bool → Text → Prop) (settings : Settings) : Prop where
  fields : ∀ text ∈ settings.fieldTexts, text ≠ [] → kept true text
  items : ∀ item ∈ settings.itemTexts, kept false item

section Kept

variable {kept : Bool → Text → Prop}

theorem kept_ite {value : Value} {missing : Prop} [Decidable missing]
    (isKept : ¬ missing → value.Kept (· ∈ keys) kept) :
    ∀ found ∈ if missing then none else some value, found.Kept (· ∈ keys) kept := by
  intro found mem
  rw [Option.mem_def, Option.ite_none_left_eq_some] at mem
  rcases mem with ⟨isThere, ⟨⟩⟩
  exact isKept isThere

theorem kept_textPart {text : Text} (isKept : text ≠ [] → kept true text) :
    ∀ value ∈ textPart text, value.Kept (· ∈ keys) kept :=
  kept_ite fun nonempty => .text (isKept (by simpa using nonempty))

theorem kept_textsPart {items : List Text} (areKept : ∀ item ∈ items, kept false item) :
    ∀ value ∈ textsPart items, value.Kept (· ∈ keys) kept :=
  kept_ite fun nonempty => .texts (by simpa using nonempty) areKept

theorem kept_recordPart {parts : List (Text × Option Value)}
    (areKept : PartsKept (· ∈ keys) kept parts) :
    ∀ value ∈ recordPart (present parts), value.Kept (· ∈ keys) kept :=
  kept_ite fun nonempty => areKept.record (by simpa using nonempty)

theorem kept_boolPart (value : Bool) :
    ∀ found ∈ boolPart value, found.Kept (· ∈ keys) kept :=
  kept_ite fun _ => .bool value

variable {settings : Settings} (areKept : settings.TextsKept kept)

include areKept

theorem partsKept_options : PartsKept (· ∈ keys) kept (optionParts settings.options) := by
  have texts := areKept.fields
  simp only [fieldTexts, List.forall_mem_cons] at texts
  rcases texts with ⟨-, target, packages, language, -⟩
  constructor
  · exact (by decide +kernel :
      (["target_package", "packages", "flat_pack", "language"] : List Text).Nodup)
  · simp [optionParts, keys]
  · simp only [optionParts, List.forall_mem_cons, List.not_mem_nil, false_imp_iff, implies_true,
      and_true]
    exact ⟨kept_textPart target, kept_textPart packages, kept_boolPart _, kept_textPart language⟩

theorem partsKept_watch : PartsKept (· ∈ keys) kept (watchParts settings.watch) := by
  have items := areKept.items
  simp only [itemTexts, List.forall_mem_append] at items
  rcases items with ⟨⟨-, patterns⟩, exclude⟩
  constructor
  · exact (by decide +kernel : (["patterns", "exclude"] : List Text).Nodup)
  · simp [watchParts, keys]
  · simp only [watchParts, List.forall_mem_cons, List.not_mem_nil, false_imp_iff, implies_true,
      and_true]
    exact ⟨kept_textsPart patterns, kept_textsPart exclude⟩

theorem partsKept_parts : PartsKept (· ∈ keys) kept settings.parts := by
  have texts := areKept.fields
  have items := areKept.items
  simp only [fieldTexts, List.forall_mem_cons] at texts
  simp only [itemTexts, List.forall_mem_append] at items
  rcases items with ⟨⟨⟨importPaths, files⟩, -⟩, -⟩
  constructor
  · exact (by decide +kernel :
      (["import_paths", "files", "out", "options", "watch"] : List Text).Nodup)
  · simp [parts, keys]
  · simp only [parts, List.forall_mem_cons, List.not_mem_nil, false_imp_iff, implies_true, and_true]
    exact ⟨kept_textsPart importPaths, kept_textsPart files, kept_textPart texts.1,
      kept_recordPart (partsKept_options areKept), kept_recordPart (partsKept_watch areKept)⟩

end Kept

/-! ## Reading -/

section Reading

variable {yaml : Library} {entries : List (Text × yaml.Node)} {parts : List (Text × Option Value)}
variable (each : yaml.HoldsAll entries (present parts)) (distinct : (parts.map Prod.fst).Nodup)
variable {name : Text}

include each distinct

/-- A field that is left out if it is empty is read as its value. -/
theorem field_ite {α : Type} {value : Value} {empty : Prop} [Decidable empty]
    {read : yaml.Node → Option (Option α)} {unset result : α}
    (mem : (name, if empty then none else some value) ∈ parts) (isUnset : empty → unset = result)
    (found : ∀ node, yaml.Holds node value → read node = some (some result)) :
    Yaml.field entries name read unset = some result := by
  obtain ⟨_, isRead, rfl⟩ :
      ∃ read', Yaml.field entries name read unset = some read' ∧ read' = result := by
    apply each.exists_field distinct mem
    · intro missing
      by_cases isEmpty : empty
      · exact isUnset isEmpty
      · rw [if_neg isEmpty] at missing
        cases missing
    · intro other isPart node holds
      rw [Option.mem_def, Option.ite_none_left_eq_some] at isPart
      rcases isPart with ⟨-, ⟨⟩⟩
      exact ⟨result, found node holds, rfl⟩
  exact isRead

theorem field_textPart {text : Text} (mem : (name, textPart text) ∈ parts) :
    Yaml.field entries name yaml.text? [] = some text := by
  apply field_ite each distinct mem
  · intro empty
    exact (List.isEmpty_iff.mp empty).symm
  · intro node holds
    cases holds with
    | text read => exact read

theorem field_textsPart {items : List Text} (mem : (name, textsPart items) ∈ parts) :
    Yaml.field entries name yaml.texts? [] = some items := by
  apply field_ite each distinct mem
  · intro empty
    exact (List.isEmpty_iff.mp empty).symm
  · intro node holds
    cases holds with
    | texts read => exact read

theorem field_boolPart {value : Bool} (mem : (name, boolPart value) ∈ parts) :
    Yaml.field entries name yaml.bool? false = some value := by
  apply field_ite each distinct mem
  · exact Eq.symm
  · intro node holds
    cases holds with
    | bool read => exact read

theorem field_recordPart {inner : List (Text × Option Value)}
    (mem : (name, recordPart (present inner)) ∈ parts) :
    ∃ found, Yaml.field entries name yaml.record? [] = some found ∧
      yaml.HoldsAll found (present inner) := by
  apply each.exists_field distinct mem
  · intro missing
    have empty : present inner = [] := by
      by_contra nonempty
      rw [recordPart, if_neg (by simpa using nonempty)] at missing
      cases missing
    rw [empty]
    exact .nil
  · intro value isPart node holds
    rw [recordPart, Option.mem_def, Option.ite_none_left_eq_some] at isPart
    rcases isPart with ⟨-, ⟨⟩⟩
    rcases holds with - | - | - | ⟨read, inside⟩
    exact ⟨_, read, inside⟩

end Reading

section Records

variable {yaml : Library} {entries : List (Text × yaml.Node)}

theorem optionsOf?_optionParts {options : Options}
    (each : yaml.HoldsAll entries (present (optionParts options)))
    (distinct : ((optionParts options).map Prod.fst).Nodup) :
    optionsOf? yaml entries = some options := by
  have target : (("target_package" : Text), textPart options.targetPackage)
      ∈ optionParts options := by
    simp [optionParts]
  have packages : (("packages" : Text), textPart options.packages) ∈ optionParts options := by
    simp [optionParts]
  have flatPack : (("flat_pack" : Text), boolPart options.flatPack) ∈ optionParts options := by
    simp [optionParts]
  have language : (("language" : Text), textPart options.language) ∈ optionParts options := by
    simp [optionParts]
  rw [optionsOf?, field_textPart each distinct target, field_textPart each distinct packages,
    field_boolPart each distinct flatPack, field_textPart each distinct language]
  rfl

theorem watchOf?_watchParts {watch : WatchFilter}
    (each : yaml.HoldsAll entries (present (watchParts watch)))
    (distinct : ((watchParts watch).map Prod.fst).Nodup) :
    watchOf? yaml entries = some watch := by
  have patterns : (("patterns" : Text), textsPart watch.patterns) ∈ watchParts watch := by
    simp [watchParts]
  have exclude : (("exclude" : Text), textsPart watch.exclude) ∈ watchParts watch := by
    simp [watchParts]
  rw [watchOf?, field_textsPart each distinct patterns, field_textsPart each distinct exclude]
  rfl

theorem of?_parts {settings : Settings} (each : yaml.HoldsAll entries (present settings.parts))
    (distinct : (settings.parts.map Prod.fst).Nodup)
    (distinctOptions : ((optionParts settings.options).map Prod.fst).Nodup)
    (distinctWatch : ((watchParts settings.watch).map Prod.fst).Nodup) :
    of? yaml entries = some settings := by
  have importPaths : (("import_paths" : Text), textsPart settings.importPaths)
      ∈ settings.parts := by
    simp [parts]
  have files : (("files" : Text), textsPart settings.files) ∈ settings.parts := by simp [parts]
  have out : (("out" : Text), textPart settings.out) ∈ settings.parts := by simp [parts]
  have options : (("options" : Text), recordPart (present (optionParts settings.options)))
      ∈ settings.parts := by simp [parts]
  have watch : (("watch" : Text), recordPart (present (watchParts settings.watch)))
      ∈ settings.parts := by
    simp [parts]
  rcases field_recordPart each distinct options with ⟨optionFields, optionsRead, optionsHeld⟩
  rcases field_recordPart each distinct watch with ⟨watchFields, watchRead, watchHeld⟩
  rw [of?, optionsRead, watchRead]
  simp only [Option.bind_eq_bind, Option.bind_some, field_textsPart each distinct importPaths,
    field_textsPart each distinct files, field_textPart each distinct out,
    optionsOf?_optionParts optionsHeld distinctOptions, watchOf?_watchParts watchHeld distinctWatch]
  rfl

end Records

/-- With a library that keeps their texts, settings are read back as they were
written. -/
theorem ofYaml?_toYaml {yaml : Library} {kept : Bool → Text → Prop}
    (faithful : yaml.Faithful (· ∈ keys) kept) {settings : Settings}
    (areKept : settings.TextsKept kept) : ofYaml? yaml (settings.toYaml yaml) = some settings := by
  have kept' := partsKept_parts areKept
  have whole : present settings.parts = [] ∨
      (Value.record (present settings.parts)).Kept (· ∈ keys) kept := by
    by_cases empty : present settings.parts = []
    · exact .inl empty
    · exact .inr (kept'.record empty)
  rcases faithful _ whole with ⟨root, parsed, holds⟩
  rcases holds with - | - | - | ⟨read, each⟩
  rw [ofYaml?, toYaml, toFields_eq, parsed]
  simp only [read, Option.getD_some]
  exact of?_parts each kept'.distinct (partsKept_options areKept).distinct
    (partsKept_watch areKept).distinct

/-! ## Loading -/

theorem isFieldName_ofString {name : String} (key : Yaml.KeyText name.toList) :
    IsFieldName (Text.ofString name) := by
  have utf8 : (Text.ofString name).chars? = some name.toList := Text.chars?_eq_some_iff.mpr rfl
  have chars : Yaml.nameChars (Text.ofString name) = name.toList := by
    rw [Yaml.nameChars, utf8, Option.getD_some]
  rw [← chars] at utf8 key
  exact ⟨utf8, key⟩

theorem isFieldName_of_mem_keys {name : Text} (mem : name ∈ keys) : IsFieldName name := by
  revert name
  simp only [keys, List.forall_mem_cons, List.not_mem_nil, false_imp_iff, implies_true, and_true]
  refine ⟨?_, ?_, ?_, ?_, ?_, ?_, ?_, ?_, ?_, ?_, ?_⟩ <;>
    exact isFieldName_ofString (by constructor <;> decide +kernel)

/-- The standard library keeps each text whose start is not lost. -/
theorem standard_faithful_keys :
    Library.standard.Faithful (· ∈ keys) fun room text => losesStart room text = false :=
  Yaml.standard_faithful.mono fun _ => isFieldName_of_mem_keys

/-- With the standard library, settings whose texts have no line ends are read back as
they were written. -/
theorem ofYaml?_standard_of_oneLine {settings : Settings}
    (oneLine : ∀ text ∈ settings.fieldTexts ++ settings.itemTexts, Text.newline ∉ text) :
    ofYaml? .standard (settings.toYaml .standard) = some settings := by
  rw [List.forall_mem_append] at oneLine
  apply ofYaml?_toYaml standard_faithful_keys
  constructor
  · intro text mem _
    exact Yaml.losesStart_of_oneLine true (oneLine.1 text mem)
  · intro item mem
    exact Yaml.losesStart_of_oneLine false (oneLine.2 item mem)

end Protoclass.Settings
