import Mathlib.Data.List.Nodup
import Protoclass.Yaml.Library

/-!
# What a YAML library keeps

The rules of a library, without its workings: a record of values that it keeps is
printed as a text whose document is read as that record (`Library.Faithful`).  Which
names can be keys and which texts are kept differs from library to library.

From a record that was kept, each field is read by its name; a field that was left
out is read as what stands for it.
-/

namespace Protoclass.Yaml

/-- Values that are kept: their names are keys, and each text is kept at its place,
which is that of a field's value (`kept true`) or of an item in a list
(`kept false`). -/
inductive Value.Kept (isKey : Text → Prop) (kept : Bool → Text → Prop) : Value → Prop where
  | text {text : Text} : kept true text → Kept isKey kept (.text text)
  | bool (value : Bool) : Kept isKey kept (.bool value)
  | texts {items : List Text} : items ≠ [] → (∀ item ∈ items, kept false item) →
    Kept isKey kept (.texts items)
  | record {fields : List (Text × Value)} : fields ≠ [] → (fields.map Prod.fst).Nodup →
    (∀ field ∈ fields, isKey field.1) → (∀ field ∈ fields, Kept isKey kept field.2) →
    Kept isKey kept (.record fields)

theorem Value.Kept.mono {isKey isKey' : Text → Prop} {kept : Bool → Text → Prop} {value : Value}
    (isKept : value.Kept isKey' kept) (keys : ∀ name, isKey' name → isKey name) :
    value.Kept isKey kept := by
  induction isKept with
  | text isKept => exact .text isKept
  | bool value => exact .bool value
  | texts nonempty areKept => exact .texts nonempty areKept
  | record nonempty distinct names values ih =>
    exact .record nonempty distinct (fun field mem => keys _ (names field mem)) ih

namespace Library

mutual

/-- A node is read as a value. -/
inductive Holds (yaml : Library) : yaml.Node → Value → Prop where
  | text {node : yaml.Node} {text : Text} (read : yaml.text? node = some (some text)) :
    Holds yaml node (.text text)
  | bool {node : yaml.Node} {value : Bool} (read : yaml.bool? node = some (some value)) :
    Holds yaml node (.bool value)
  | texts {node : yaml.Node} {items : List Text} (read : yaml.texts? node = some (some items)) :
    Holds yaml node (.texts items)
  | record {node : yaml.Node} {entries : List (Text × yaml.Node)} {fields : List (Text × Value)}
    (read : yaml.record? node = some (some entries)) (each : HoldsAll yaml entries fields) :
    Holds yaml node (.record fields)

/-- Entries are read as fields of the same names, one by one. -/
inductive HoldsAll (yaml : Library) : List (Text × yaml.Node) → List (Text × Value) → Prop where
  | nil : HoldsAll yaml [] []
  | cons (name : Text) {node : yaml.Node} {value : Value} {entries : List (Text × yaml.Node)}
    {fields : List (Text × Value)} (first : Holds yaml node value)
    (others : HoldsAll yaml entries fields) :
    HoldsAll yaml ((name, node) :: entries) ((name, value) :: fields)

end

/-- A record of kept values, which may be empty, is printed as a text whose document is
read as the record. -/
def Faithful (yaml : Library) (isKey : Text → Prop) (kept : Bool → Text → Prop) : Prop :=
  ∀ fields : List (Text × Value), fields = [] ∨ (Value.record fields).Kept isKey kept →
    ∃ root, yaml.root? (yaml.print fields) = some (some root) ∧ yaml.Holds root (.record fields)

theorem Faithful.mono {yaml : Library} {isKey isKey' : Text → Prop} {kept : Bool → Text → Prop}
    (faithful : yaml.Faithful isKey kept) (keys : ∀ name, isKey' name → isKey name) :
    yaml.Faithful isKey' kept := by
  rintro fields (empty | areKept)
  · exact faithful fields (.inl empty)
  · exact faithful fields (.inr (areKept.mono keys))

end Library

/-! ## Fields that may be missing -/

/-- The fields that have a value. -/
def present (parts : List (Text × Option Value)) : List (Text × Value) :=
  parts.filterMap fun part => part.2.map fun value => (part.1, value)

theorem mem_present {parts : List (Text × Option Value)} {field : Text × Value} :
    field ∈ present parts ↔ (field.1, some field.2) ∈ parts := by
  rw [present, List.mem_filterMap]
  constructor
  · rintro ⟨⟨name, value?⟩, mem, found⟩
    rcases Option.map_eq_some_iff.mp found with ⟨value, rfl, rfl⟩
    exact mem
  · intro mem
    exact ⟨_, mem, rfl⟩

theorem names_present_sublist (parts : List (Text × Option Value)) :
    ((present parts).map Prod.fst).Sublist (parts.map Prod.fst) := by
  induction parts with
  | nil => exact .slnil
  | cons part parts ih =>
    rcases part with ⟨name, _ | value⟩
    · exact ih.cons name
    · exact ih.cons_cons name

/-- Fields that may be missing, and whose values are kept. -/
structure PartsKept (isKey : Text → Prop) (kept : Bool → Text → Prop)
    (parts : List (Text × Option Value)) : Prop where
  distinct : (parts.map Prod.fst).Nodup
  names : ∀ part ∈ parts, isKey part.1
  values : ∀ part ∈ parts, ∀ value ∈ part.2, value.Kept isKey kept

theorem PartsKept.record {isKey : Text → Prop} {kept : Bool → Text → Prop}
    {parts : List (Text × Option Value)} (areKept : PartsKept isKey kept parts)
    (nonempty : present parts ≠ []) : (Value.record (present parts)).Kept isKey kept := by
  apply Value.Kept.record nonempty
  · exact (names_present_sublist parts).nodup areKept.distinct
  · intro field mem
    exact areKept.names _ (mem_present.mp mem)
  · intro field mem
    exact areKept.values _ (mem_present.mp mem) field.2 rfl

namespace Library.HoldsAll

variable {yaml : Library} {entries : List (Text × yaml.Node)}

theorem names_eq {fields : List (Text × Value)} (each : yaml.HoldsAll entries fields) :
    entries.map Prod.fst = fields.map Prod.fst := by
  induction fields generalizing entries with
  | nil =>
    cases each
    rfl
  | cons field fields ih =>
    cases each with
    | cons name first others => rw [List.map_cons, List.map_cons, ih others]

theorem filter_eq_nil {fields : List (Text × Value)} (each : yaml.HoldsAll entries fields)
    {name : Text} (missing : name ∉ fields.map Prod.fst) :
    entries.filter (fun entry => entry.1 = name) = [] := by
  rw [← each.names_eq] at missing
  rw [List.filter_eq_nil_iff]
  intro entry mem same
  exact missing (of_decide_eq_true same ▸ List.mem_map_of_mem mem)

theorem exists_filter_eq {fields : List (Text × Value)} (each : yaml.HoldsAll entries fields)
    (distinct : (fields.map Prod.fst).Nodup) {name : Text} {value : Value}
    (mem : (name, value) ∈ fields) :
    ∃ node, entries.filter (fun entry => entry.1 = name) = [(name, node)] ∧
      yaml.Holds node value := by
  induction fields generalizing entries with
  | nil => cases mem
  | cons field fields ih =>
    cases each with
    | @cons first node _ entries _ holds others =>
      rw [List.map_cons, List.nodup_cons] at distinct
      rcases List.mem_cons.mp mem with same | later
      · cases same
        rw [List.filter_cons_of_pos (by simp), others.filter_eq_nil distinct.1]
        exact ⟨node, rfl, holds⟩
      · have apart : first ≠ name := by
          rintro rfl
          exact distinct.1 (List.mem_map.mpr ⟨_, later, rfl⟩)
        rw [List.filter_cons_of_neg (by simpa using apart)]
        exact ih others distinct.2 later

/-- A field that may be missing is read as something with a property, if what stands for
it when it is missing has the property, and so has what is read from its value. -/
theorem exists_field {parts : List (Text × Option Value)}
    (each : yaml.HoldsAll entries (present parts)) (distinct : (parts.map Prod.fst).Nodup)
    {name : Text} {value? : Option Value} (mem : (name, value?) ∈ parts) {α : Type}
    {read : yaml.Node → Option (Option α)} {unset : α} {holds : α → Prop}
    (missing : value? = none → holds unset)
    (found : ∀ value ∈ value?, ∀ node, yaml.Holds node value →
      ∃ result, read node = some (some result) ∧ holds result) :
    ∃ result, field entries name read unset = some result ∧ holds result := by
  cases value? with
  | none =>
    have isMissing : name ∉ (present parts).map Prod.fst := by
      intro among
      rcases List.mem_map.mp among with ⟨⟨other, value⟩, isField, rfl⟩
      have same := List.inj_on_of_nodup_map distinct (mem_present.mp isField) mem rfl
      cases same
    exact ⟨unset, by rw [field, each.filter_eq_nil isMissing], missing rfl⟩
  | some value =>
    rcases each.exists_filter_eq ((names_present_sublist parts).nodup distinct)
      (mem_present.mpr mem) with ⟨node, filtered, isHeld⟩
    rcases found value rfl node isHeld with ⟨result, isRead, holdsResult⟩
    refine ⟨result, ?_, holdsResult⟩
    rw [field, filtered]
    simp only [isRead, Option.map_some, Option.getD_some]

end Library.HoldsAll

end Protoclass.Yaml
