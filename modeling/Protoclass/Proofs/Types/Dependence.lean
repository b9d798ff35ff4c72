import Protoclass.Proofs.Faults.Emission
import Protoclass.Proofs.Types.Index

/-!
# How emission depends on the index of types

Emission looks up the enums that fields take their defaults from, and nothing else.
Two indexes that mean the same by these references give the same code, or the same
fault; and what is emitted with one index is emitted with every index that extends
it, since all the enums were found.
-/

namespace Protoclass

variable {types types' : TypeIndex}

/-! ## Fields -/

namespace FieldDescriptor

/-- Two indexes mean the same by the enum that the field takes its default from. -/
def SameDefault (types types' : TypeIndex) (field : FieldDescriptor) : Prop :=
  field.HasEnumDefault → types.lookup field.typeName = types'.lookup field.typeName

variable {field : FieldDescriptor} {message : MessageDescriptor} {fullName : Text}

theorem SameDefault.defaultValue_eq (same : field.SameDefault types types') (package : Text) :
    TypeHint.defaultValue package field (FieldShape.of field message fullName) types =
      TypeHint.defaultValue package field (FieldShape.of field message fullName) types' := by
  by_cases defaulted : field.HasEnumDefault
  · rw [TypeHint.defaultValue_eq_enumDefault _ _ _ _ _ defaulted,
      TypeHint.defaultValue_eq_enumDefault _ _ _ _ _ defaulted, TypeHint.enumDefault,
      TypeHint.enumDefault, same defaulted]
  · obtain ⟨value, made⟩ :=
      TypeHint.exists_defaultValue_eq_ok package field message fullName defaulted
    rw [made, made]

/-- The enum that a sound field takes its default from is found in every index that
extends the one it was found in. -/
theorem Sound.sameDefault (sound : field.Sound types message fullName)
    (extend : types.Extends types') : field.SameDefault types types' := by
  intro defaulted
  rw [Sound, mapEntries_eq_nil defaulted] at sound
  obtain ⟨e, first, rest, found, -⟩ := sound.2 defaulted
  rw [found, extend.lookup_eq_some found]

end FieldDescriptor

/-- Two indexes mean the same by the defaults of all messages that emission visits. -/
def FileDescriptor.SameDefaults (types types' : TypeIndex) (file : FileDescriptor) : Prop :=
  ∀ around fullName m, file.Visits around fullName m →
    ∀ field ∈ m.fields, field.SameDefault types types'

/-! ## Declarations -/

namespace ClassCode

variable {package : Text}

theorem member_congr {depth : Int} {message : MessageDescriptor} {fullName : Text}
    {entry : FieldDescriptor × Text} (same : entry.1.SameDefault types types') :
    member ⟨package, types⟩ depth message fullName entry =
      member ⟨package, types'⟩ depth message fullName entry := by
  rw [member, member, same.defaultValue_eq]

theorem members_congr {depth : Int} {message : MessageDescriptor} {fullName : Text}
    {fields : List (FieldDescriptor × Text)}
    (same : ∀ field ∈ fields.map Prod.fst, field.SameDefault types types') :
    members ⟨package, types⟩ depth message fullName fields =
      members ⟨package, types'⟩ depth message fullName fields := by
  rw [members, members, Result.mapM_congr fun entry member =>
    member_congr (same entry.1 (List.mem_map_of_mem member))]

mutual

theorem result_emitMessage_congr {file : FileDescriptor} (same : file.SameDefaults types types') :
    (m : MessageDescriptor) → (cursor : Cursor) → (scope fullName : Text) → (around : List Text) →
    file.Visits around fullName m →
    (emitMessage ⟨package, types⟩ cursor scope fullName m).result =
      (emitMessage ⟨package, types'⟩ cursor scope fullName m).result
  | ⟨name, fields, nested, enums, mapEntry⟩, cursor, scope, fullName, around, visited => by
    have nested_eq (cursor : Cursor) (scope : Text) :=
      result_emitNested_congr same nested cursor scope fullName 0 (around ++ [name])
        fun m member isOwn => visited.nested member isOwn
    have members_eq (cursor : Cursor) (depth : Int) :
        members ⟨package, types⟩ depth ⟨name, fields, nested, enums, mapEntry⟩ fullName
            (cursor.documented fields) =
          members ⟨package, types'⟩ depth ⟨name, fields, nested, enums, mapEntry⟩ fullName
            (cursor.documented fields) := by
      apply members_congr
      rw [map_fst_documented]
      exact same around fullName _ visited
    rw [emitMessage, emitMessage]
    simp only [Logged.result_bind, Logged.result_lift, nested_eq, members_eq]

theorem result_emitNested_congr {file : FileDescriptor} (same : file.SameDefaults types types') :
    (nested : List MessageDescriptor) → (cursor : Cursor) → (scope fullName : Text) → (i : Nat) →
    (around : List Text) →
    (∀ m ∈ nested, m.mapEntry = false → file.Visits around (fullName ++ "." ++ m.name) m) →
    (emitNested ⟨package, types⟩ cursor scope fullName i nested).result =
      (emitNested ⟨package, types'⟩ cursor scope fullName i nested).result
  | [], _, _, _, _, _, _ => by rw [emitNested, emitNested]
  | m :: rest, cursor, scope, fullName, i, around, visited => by
    have others := result_emitNested_congr same rest cursor scope fullName (i + 1) around
      fun inner member => visited inner (List.mem_cons_of_mem m member)
    rw [emitNested, emitNested]
    cases isEntry : m.mapEntry with
    | true => simp only [if_true, Logged.result_bind, others]
    | false =>
      have first := result_emitMessage_congr same m (cursor.step i) scope _ around
        (visited m List.mem_cons_self isEntry)
      simp only [Bool.false_eq_true, if_false, Logged.result_bind, first, others]

end

end ClassCode

/-! ## Files -/

namespace FileDescriptor

variable {file : FileDescriptor}

/-- Emission of a file depends only on what the index finds for the defaults of the
messages that it visits. -/
theorem result_emit_congr (same : file.SameDefaults types types') :
    (file.emit types).result = (file.emit types').result := by
  rw [emit, emit]
  simp only [ClassCode.emit, Logged.result_bind, Logged.result_mapM]
  -- Enums and services are emitted without the index.
  refine bind_congr fun _ => bind_congr fun enums => congrArg (· >>= _) (Result.mapM_congr ?_)
  rintro ⟨m, i⟩ member
  exact ClassCode.result_emitMessage_congr same m _ _ _ []
    (.top (List.fst_mem_of_mem_zipIdx member))

/-- What is emitted with an index is emitted with every index that extends it. -/
theorem result_emit_of_extends (extend : types.Extends types') {text : Text}
    (emitted : (file.emit types).result = .ok text) : (file.emit types').result = .ok text := by
  rw [← emitted]
  symm
  apply result_emit_congr
  intro around fullName m visited field member
  exact ((visited.sound emitted).fields field member).sameDefault extend

end FileDescriptor

end Protoclass
