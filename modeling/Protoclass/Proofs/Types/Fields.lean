import Protoclass.Proofs.Layout.Places
import Protoclass.Proofs.Types.Listing

/-!
# Field types and the index

What emission makes of a field and what the index of the files finds for it agree.
Emission carries down the full name of each message that it visits and compares
names to find map entries; the index is made of names too, put together in another
way.  Where no name is declared twice, the two come to the same: a field is a map
exactly when its reference finds a map entry that is declared directly in the
message of the field.
-/

namespace Protoclass

open Docstring (indent)

variable {files : List FileDescriptor} {file : FileDescriptor} {around : List Text}
  {fullName package : Text} {m inner : MessageDescriptor} {place : Place}
  {field : FieldDescriptor} {hint value : Text}

/-! ## Visited messages -/

namespace FileDescriptor.Visits

/-- The full name that emission carries down is made of the names around a
message and its own. -/
theorem join_eq (visited : file.Visits around fullName m) :
    Text.join "." (Listed.packageNames file.package ++ around ++ [m.name]) = fullName := by
  induction visited with
  | @top m member =>
    rw [List.append_nil, Listed.join_concat_eq, Listed.packageNames, qualify]
    split <;> simp [Listed.scopeOf]
  | @nested around fullName m inner _ _ _ ih =>
    rw [← List.append_assoc, Listed.join_concat_concat, ih]

/-- What a visited message declares is listed. -/
theorem exists_subset (visited : file.Visits around fullName m) (among : file ∈ files) :
    ∃ place, Listed.ofMessage place (Listed.packageNames file.package ++ around) m ⊆
      Listed.ofFiles files := by
  induction visited with
  | @top m member =>
    obtain ⟨number, numbered⟩ := List.mem_iff_getElem?.mp among
    obtain ⟨i, declared⟩ := List.mem_iff_getElem?.mp member
    refine ⟨Place.child { file := number } FieldNumber.fileMessage i, ?_⟩
    rw [List.append_nil]
    exact List.Subset.trans (Listed.ofMessage_subset_ofFile number declared)
      (Listed.ofFile_subset_ofFiles numbered)
  | @nested around fullName m inner _ member _ ih =>
    obtain ⟨place, listed⟩ := ih
    obtain ⟨i, declared⟩ := List.mem_iff_getElem?.mp member
    refine ⟨place.child FieldNumber.messageNested i, ?_⟩
    rw [← List.append_assoc]
    exact List.Subset.trans (Listed.ofMessage_subset_of_nested place _ declared) listed

end FileDescriptor.Visits

/-! ## Map entries -/

namespace FieldDescriptor

/-- The field is repeated, and its reference finds the map entry `inner`, which is
declared directly in the message `m` at a place. -/
structure IsMapOf (files : List FileDescriptor) (place : Place) (m : MessageDescriptor)
    (field : FieldDescriptor) (inner : MessageDescriptor) : Prop where
  repeated : field.label = repeatedLabel
  ofMessages : field.typeCode = messageCode
  found : (TypeIndex.ofFiles files).lookup field.typeName = some (.message inner)
  isEntry : inner.mapEntry = true
  /-- What is found is the very declaration in `m`, and not another one like it. -/
  declared : ∃ i, m.nested[i]? = some inner ∧
    (Listed.find? files field.typeName).map Listed.place =
      some (place.child FieldNumber.messageNested i)

/-- The map entries whose names emission compares with the reference are those
that the reference finds. -/
theorem mem_mapEntries_iff
    (distinct : ((Listed.ofFiles files).map Listed.fullName).Nodup)
    (named : Text.join "." (around ++ [m.name]) = fullName)
    (listed : Listed.ofMessage place around m ⊆ Listed.ofFiles files) :
    inner ∈ field.mapEntries m fullName ↔ field.IsMapOf files place m inner := by
  -- Each message declared in `m` is listed under the name that emission compares.
  have entry {i : Nat} {inner : MessageDescriptor} (declared : m.nested[i]? = some inner) :
      ∃ entry ∈ Listed.ofFiles files, entry.place = place.child FieldNumber.messageNested i ∧
        entry.declaration = .message inner ∧ entry.fullName = fullName ++ "." ++ inner.name := by
    refine ⟨_, listed (Listed.ofMessage_subset_of_nested place around declared
      (Listed.self_mem_ofMessage _ _ _)), rfl, rfl, ?_⟩
    rw [Listed.fullName, Listed.join_concat_concat, named]
  rw [mapEntries]
  constructor
  · intro member
    split at member
    · rename_i shape
      obtain ⟨among, compared⟩ := List.mem_filter.mp member
      obtain ⟨reference, isEntry⟩ := of_decide_eq_true compared
      obtain ⟨i, declared⟩ := List.mem_iff_getElem?.mp among
      obtain ⟨entry, isListed, stands, declaration, own⟩ := entry declared
      have found := Listed.find?_eq_some_of_mem distinct isListed (own.trans reference.symm)
      refine ⟨shape.1, shape.2, ?_, isEntry, i, declared, ?_⟩
      · rw [Listed.lookup_ofFiles, found, Option.map_some, declaration]
      · rw [found, Option.map_some, stands]
    · contradiction
  · rintro ⟨repeated, ofMessages, -, isEntry, i, declared, stands⟩
    obtain ⟨entry, isListed, standsHere, -, own⟩ := entry declared
    obtain ⟨other, found, same⟩ := Option.map_eq_some_iff.mp stands
    obtain ⟨otherListed, reference⟩ := Listed.mem_of_find?_eq_some found
    obtain rfl := Listed.eq_of_place_eq isListed otherListed (standsHere.trans same.symm)
    rw [if_pos ⟨repeated, ofMessages⟩, List.mem_filter]
    exact ⟨List.mem_of_getElem? declared, decide_eq_true ⟨reference.symm.trans own, isEntry⟩⟩

/-! ## Hints and defaults -/

/-- What emission writes for a field of the message `m`, whose full name is
`fullName`. -/
structure Gets (code : ClassCode) (m : MessageDescriptor) (fullName : Text)
    (field : FieldDescriptor) (hint value : Text) : Prop where
  hinted : TypeHint.hint code.package field (.of field m fullName) = .ok hint
  valued : TypeHint.defaultValue code.package field (.of field m fullName) code.types = .ok value

variable {code : ClassCode}

theorem Gets.map {entry : MessageDescriptor} {rest : List MessageDescriptor}
    (gets : field.Gets code m fullName hint value)
    (mapped : field.mapEntries m fullName = entry :: rest) :
    (∃ key element others K V, entry.fields = key :: element :: others ∧
      TypeHint.baseType code.package key = .ok K ∧
      TypeHint.baseType code.package element = .ok V ∧
      hint = "_tp.Dict[" ++ K ++ ", " ++ V ++ "]") ∧
    value = "_dc.field(default_factory=dict)" := by
  obtain ⟨hinted, valued⟩ := gets
  have shape : FieldShape.cardinalityOf field m fullName = .map entry := by
    rw [FieldShape.cardinalityOf_eq, mapped]
  rw [TypeHint.defaultValue, FieldShape.of, shape] at valued
  rw [TypeHint.hint, FieldShape.of, shape] at hinted
  refine ⟨?_, (Except.ok.inj valued).symm⟩
  dsimp only [TypeHint.mapType] at hinted
  split at hinted
  · obtain ⟨K, ofKey, hinted⟩ := Result.bind_eq_ok_iff.mp hinted
    obtain ⟨V, ofElement, hinted⟩ := Result.bind_eq_ok_iff.mp hinted
    exact ⟨_, _, _, K, V, ‹_›, ofKey, ofElement, (Except.ok.inj hinted).symm⟩
  · contradiction

theorem Gets.list (gets : field.Gets code m fullName hint value)
    (unmapped : field.mapEntries m fullName = []) (repeated : field.label = repeatedLabel) :
    (∃ T, TypeHint.baseType code.package field = .ok T ∧ hint = "_tp.List[" ++ T ++ "]") ∧
    value = "_dc.field(default_factory=list)" := by
  obtain ⟨hinted, valued⟩ := gets
  have shape : FieldShape.cardinalityOf field m fullName = .list := by
    rw [FieldShape.cardinalityOf_eq, unmapped]
    exact if_pos repeated
  rw [TypeHint.defaultValue, FieldShape.of, shape] at valued
  rw [TypeHint.hint, FieldShape.of, shape] at hinted
  obtain ⟨T, based, hinted⟩ := Result.bind_eq_ok_iff.mp hinted
  exact ⟨⟨T, based, (Except.ok.inj hinted).symm⟩, (Except.ok.inj valued).symm⟩

theorem Gets.enum (gets : field.Gets code m fullName hint value)
    (defaulted : field.HasEnumDefault) :
    ∃ e first others, code.types.lookup field.typeName = some (.enum e) ∧
      e.values = first :: others ∧ value = hint ++ "." ++ first.name := by
  obtain ⟨hinted, valued⟩ := gets
  have shape : FieldShape.of field m fullName = ⟨.enum, .singular⟩ :=
    FieldShape.of_eq_singular_enum_iff.mpr defaulted
  have category : Category.ofTypeCode field.typeCode = .enum := congrArg FieldShape.category shape
  rw [shape] at hinted valued
  dsimp only [TypeHint.hint, TypeHint.baseType] at hinted
  rw [category] at hinted
  cases hinted
  dsimp only [TypeHint.defaultValue, TypeHint.enumDefault] at valued
  split at valued
  · rename_i e found
    split at valued
    · rename_i first others values
      exact ⟨e, first, others, found, values, (Except.ok.inj valued).symm⟩
    · contradiction
  · contradiction

theorem Gets.none (gets : field.Gets code m fullName hint value)
    (single : field.label ≠ repeatedLabel) (other : ¬field.HasEnumDefault) :
    value = "None" := by
  have valued := gets.valued
  have unrepeated : (FieldShape.of field m fullName).cardinality.isRepeated = false := by
    dsimp only [FieldShape.of]
    rw [FieldShape.cardinalityOf, if_neg single]
    split_ifs <;> rfl
  cases shape : FieldShape.of field m fullName with
  | mk category cardinality =>
    rw [shape] at valued unrepeated
    cases cardinality with
    | singular =>
      cases category with
      | enum => exact absurd (FieldShape.of_eq_singular_enum_iff.mp shape) other
      | primitive => exact (Except.ok.inj valued).symm
      | message => exact (Except.ok.inj valued).symm
    | list => contradiction
    | map entry => contradiction
    | oneof => exact (Except.ok.inj valued).symm
    | optional => exact (Except.ok.inj valued).symm

/-- A field that is written as a map has a map entry: an enum value never looks
like a fresh map, where its hint looks like the hint of one. -/
theorem Gets.exists_mapEntries {K V : Text} (gets : field.Gets code m fullName hint value)
    (dict : hint = "_tp.Dict[" ++ K ++ ", " ++ V ++ "]")
    (fresh : value = "_dc.field(default_factory=dict)") :
    ∃ entry rest, field.mapEntries m fullName = entry :: rest := by
  cases mapped : field.mapEntries m fullName with
  | cons entry rest => exact ⟨entry, rest, rfl⟩
  | nil =>
    exfalso
    by_cases repeated : field.label = repeatedLabel
    · have listed := (gets.list mapped repeated).2
      exact absurd (listed.symm.trans fresh) (by decide)
    · by_cases defaulted : field.HasEnumDefault
      · obtain ⟨e, first, others, -, -, named⟩ := gets.enum defaulted
        have opening : Text.ofString "_tp.Dict[" <+: value := by
          rw [named, dict]
          simp only [List.append_assoc]
          exact List.prefix_append _ _
        rw [fresh] at opening
        exact absurd opening (by decide)
      · exact absurd ((gets.none repeated defaulted).symm.trans fresh) (by decide)

/-! ## Agreement -/

/-- The hint and the default of a field of the message `m` at a place, in a file of
some package, are what the index of the files says. -/
structure Agrees (files : List FileDescriptor) (package : Text) (place : Place)
    (m : MessageDescriptor) (field : FieldDescriptor) (hint value : Text) : Prop where
  /-- Maps are the fields whose reference finds a map entry in the message. -/
  map_iff :
    (∃ K V, hint = "_tp.Dict[" ++ K ++ ", " ++ V ++ "]") ∧
      value = "_dc.field(default_factory=dict)" ↔ ∃ inner, field.IsMapOf files place m inner
  /-- The hint of a map names the types of the first two fields of its entry. -/
  map_types : ∀ inner, field.IsMapOf files place m inner →
    ∃ first second others K V, inner.fields = first :: second :: others ∧
      TypeHint.baseType package first = .ok K ∧ TypeHint.baseType package second = .ok V ∧
      hint = "_tp.Dict[" ++ K ++ ", " ++ V ++ "]"
  /-- Other repeated fields are lists. -/
  list : field.label = repeatedLabel → (¬∃ inner, field.IsMapOf files place m inner) →
    (∃ T, TypeHint.baseType package field = .ok T ∧ hint = "_tp.List[" ++ T ++ "]") ∧
      value = "_dc.field(default_factory=list)"
  /-- A field that always holds one enum value starts out with the first one. -/
  enum : field.HasEnumDefault →
    ∃ e first others, (TypeIndex.ofFiles files).lookup field.typeName = some (.enum e) ∧
      e.values = first :: others ∧ value = hint ++ "." ++ first.name

/-- A reference finds one declaration only, so that a field has no two map entries
to choose from. -/
theorem IsMapOf.exists_mapEntries_eq (mapOf : field.IsMapOf files place m inner)
    (isMapOf : ∀ inner, inner ∈ field.mapEntries m fullName ↔ field.IsMapOf files place m inner) :
    ∃ rest, field.mapEntries m fullName = inner :: rest := by
  have member := (isMapOf inner).mpr mapOf
  cases mapped : field.mapEntries m fullName with
  | nil =>
    rw [mapped] at member
    contradiction
  | cons entry rest =>
    have found := ((isMapOf entry).mp (mapped ▸ List.mem_cons_self)).found
    cases mapOf.found.symm.trans found
    exact ⟨rest, rfl⟩

theorem Gets.agrees
    (gets : field.Gets ⟨package, TypeIndex.ofFiles files⟩ m fullName hint value)
    (isMapOf : ∀ inner, inner ∈ field.mapEntries m fullName ↔ field.IsMapOf files place m inner) :
    field.Agrees files package place m hint value where
  map_iff := by
    constructor
    · rintro ⟨⟨K, V, dict⟩, fresh⟩
      obtain ⟨entry, rest, mapped⟩ := gets.exists_mapEntries dict fresh
      exact ⟨entry, (isMapOf entry).mp (mapped ▸ List.mem_cons_self)⟩
    · rintro ⟨inner, mapOf⟩
      obtain ⟨rest, mapped⟩ := mapOf.exists_mapEntries_eq isMapOf
      obtain ⟨⟨_, _, _, K, V, -, -, -, dict⟩, fresh⟩ := gets.map mapped
      exact ⟨⟨K, V, dict⟩, fresh⟩
  map_types := by
    intro inner mapOf
    obtain ⟨rest, mapped⟩ := mapOf.exists_mapEntries_eq isMapOf
    exact (gets.map mapped).1
  list := by
    intro repeated noMap
    refine gets.list (List.eq_nil_iff_forall_not_mem.mpr fun inner member => ?_) repeated
    exact noMap ⟨inner, (isMapOf inner).mp member⟩
  enum := gets.enum

/-- The line of a field in the class of its message. -/
def memberLine (depth : Int) (field : FieldDescriptor) (hint value : Text) : Text :=
  indent depth ++ (field.name ++ ": " ++ hint ++ " = " ++ value) ++ "\n"

end FieldDescriptor

/-- Each member of a class has its line there. -/
theorem ClassCode.exists_line_of_members {code : ClassCode} {depth : Int} {body : Text}
    {fields : List (FieldDescriptor × Text)} {entry : FieldDescriptor × Text}
    (made : members code depth m fullName fields = .ok body) (among : entry ∈ fields) :
    ∃ hint value, entry.1.Gets code m fullName hint value ∧
      entry.1.memberLine depth hint value <:+: body := by
  rw [members, if_neg (by simpa using List.ne_nil_of_mem among)] at made
  obtain ⟨texts, each, made⟩ := Result.bind_eq_ok_iff.mp made
  cases made
  obtain ⟨r, found⟩ := List.mem_iff_getElem?.mp among
  obtain ⟨text, own, made⟩ := Result.exists_getElem?_of_mapM_eq_ok each found
  obtain ⟨outline, ⟨hint, value, hinted, valued, rfl⟩, rfl⟩ := exists_isMember made
  refine ⟨hint, value, ⟨hinted, valued⟩, ?_⟩
  have inside := (List.suffix_append _ _).isInfix.trans
    (Text.flatten_take_append_isPrefix own).isInfix
  refine List.IsInfix.trans (List.IsPrefix.isInfix ?_) inside
  rw [Outline.lines, Text.ofLines_cons, FieldDescriptor.memberLine, Text.ofString_newline]
  exact ⟨_, List.append_assoc _ _ _⟩

namespace FileDescriptor

/-- Each field of a message that emission visits has its line in the code. -/
theorem Visits.exists_line {types : TypeIndex} {text : Text}
    (visited : file.Visits around fullName m) (emitted : (file.emit types).result = .ok text)
    (among : field ∈ m.fields) :
    ∃ depth hint value, field.Gets ⟨file.package, types⟩ m fullName hint value ∧
      field.memberLine depth hint value <:+: text := by
  obtain ⟨cursor, scope, before, place⟩ := visited.exists_place emitted
  obtain ⟨own, written, stands⟩ := place.code_stands emitted
  obtain ⟨enums, nested, body, -, -, ofMembers, rfl⟩ := ClassCode.exists_eq_of_emitMessage written
  have documented := ClassCode.map_fst_documented
    (ClassCode.inner cursor FieldNumber.messageField) m.fields
  rw [← documented, List.mem_map] at among
  obtain ⟨entry, among, rfl⟩ := among
  obtain ⟨hint, value, gets, line⟩ := ClassCode.exists_line_of_members ofMembers among
  refine ⟨_, hint, value, gets, line.trans (List.IsInfix.trans ?_ stands.isInfix)⟩
  rw [← List.append_assoc]
  exact (List.suffix_append _ _).isInfix

/-- The hints and defaults that emission writes agree with the index of the files.
Where no name is declared twice, the full name that a visited message is emitted
with is its name in the index, and what each of its fields gets agrees with what the
index finds for the field's reference.  In the code of the file, each of them has a
line with what it gets. -/
theorem emitted_fields_agree_with_index
    (distinct : ((Listed.ofFiles files).map Listed.fullName).Nodup) (among : file ∈ files)
    (visited : file.Visits around fullName m) :
    ∃ entry ∈ Listed.ofFiles files, entry.fullName = fullName ∧ entry.declaration = .message m ∧
      (TypeIndex.ofFiles files).get? fullName = some (.message m) ∧
      (∀ field ∈ m.fields, ∀ hint value,
        field.Gets ⟨file.package, TypeIndex.ofFiles files⟩ m fullName hint value →
          field.Agrees files file.package entry.place m hint value) ∧
      ∀ text, (file.emit (TypeIndex.ofFiles files)).result = .ok text → ∀ field ∈ m.fields,
        ∃ depth hint value,
          field.Gets ⟨file.package, TypeIndex.ofFiles files⟩ m fullName hint value ∧
          field.memberLine depth hint value <:+: text := by
  obtain ⟨place, listed⟩ := visited.exists_subset among
  have member := listed (Listed.self_mem_ofMessage place _ m)
  refine ⟨_, member, visited.join_eq, rfl, ?_, ?_, ?_⟩
  · have reference : Text.dropLead ("." ++ fullName) "." = fullName := Text.dropLead_append _ _
    have found := Listed.find?_eq_some_of_mem distinct member
      (visited.join_eq.trans reference.symm)
    have held := Listed.lookup_ofFiles files ("." ++ fullName)
    rwa [found, TypeIndex.lookup, reference] at held
  · intro field _ hint value gets
    exact gets.agrees fun inner =>
      FieldDescriptor.mem_mapEntries_iff distinct visited.join_eq listed
  · intro text emitted field
    exact visited.exists_line emitted

/-- A map field of a message inside another. -/
theorem emitted_fields_agree_in_nested :
    let entry : MessageDescriptor := {
      name := "XEntry", mapEntry := true
      fields := [{ name := "key", typeCode := 9 }, { name := "value", typeCode := 5 }] }
    let field : FieldDescriptor := {
      name := "x", label := FieldDescriptor.repeatedLabel
      typeCode := FieldDescriptor.messageCode, typeName := ".p.A.M.XEntry" }
    let m : MessageDescriptor := { name := "M", fields := [field], nested := [entry] }
    let outer : MessageDescriptor := { name := "A", nested := [m] }
    let file : FileDescriptor := { name := "a.proto", package := "p", messages := [outer] }
    ((Listed.ofFiles [file]).map Listed.fullName).Nodup ∧ file.Visits ["A"] "p.A.M" m ∧ ∃ place,
      field.Agrees [file] "p" place m "_tp.Dict[str, int]" "_dc.field(default_factory=dict)" := by
  intro entry field m outer file
  have declared : outer ∈ file.messages := List.mem_cons_self
  have around : file.Visits [] "p.A" outer := .top declared
  have visited : file.Visits ["A"] "p.A.M" m := .nested around List.mem_cons_self rfl
  have distinct : ((Listed.ofFiles [file]).map Listed.fullName).Nodup := by decide
  obtain ⟨listed, -, -, -, -, agrees, -⟩ :=
    emitted_fields_agree_with_index distinct List.mem_cons_self visited
  exact ⟨distinct, visited, listed.place, agrees field List.mem_cons_self _ _ ⟨rfl, rfl⟩⟩

end FileDescriptor

end Protoclass
