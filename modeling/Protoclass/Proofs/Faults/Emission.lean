import Protoclass.Proofs.Faults.Offences
import Protoclass.Proofs.Result
import Protoclass.Proofs.Text.Lines

/-!
# When emission fails

Emission of a file fails with the first of the file's offences, and succeeds when
there is none.  Each part of the emitter fails with the first offence of what it
emits; comments, depths and what was emitted before make no difference.
-/

namespace Protoclass

open Result (error? error?_bind error?_mapM error?_pure)

/-! ## Fields -/

/-- A repeated field is a map of the first of its map entries. -/
theorem FieldShape.cardinalityOf_eq (field : FieldDescriptor) (message : MessageDescriptor)
    (fullName : Text) :
    cardinalityOf field message fullName =
      match field.mapEntries message fullName with
      | entry :: _ => .map entry
      | [] =>
        if field.label = FieldDescriptor.repeatedLabel then .list
        else if field.proto3Optional then .optional
        else if field.oneofIndex.isSome then .oneof
        else .singular := by
  by_cases repeated : field.label = FieldDescriptor.repeatedLabel
  · have first : mapEntry? field message fullName =
        (field.mapEntries message fullName).head? := by
      by_cases isMessage : field.typeCode = FieldDescriptor.messageCode
      · simp [FieldDescriptor.mapEntries, mapEntry?, repeated, isMessage]
      · simp [FieldDescriptor.mapEntries, mapEntry?, isMessage]
    rw [cardinalityOf, if_pos repeated, first]
    cases field.mapEntries message fullName with
    | nil => rw [if_pos repeated]; rfl
    | cons entry rest => rfl
  · have none : field.mapEntries message fullName = [] := by
      simp [FieldDescriptor.mapEntries, repeated]
    rw [cardinalityOf, if_neg repeated, none, if_neg repeated]

/-- Only an enum field that always holds one value is seen as such. -/
theorem FieldShape.of_eq_singular_enum_iff {field : FieldDescriptor} {message : MessageDescriptor}
    {fullName : Text} :
    FieldShape.of field message fullName = ⟨.enum, .singular⟩ ↔ field.HasEnumDefault := by
  have category : Category.ofTypeCode field.typeCode = .enum ↔
      field.typeCode = FieldDescriptor.enumCode := by
    unfold Category.ofTypeCode
    split_ifs with isMessage isEnum
    · simp [isMessage, FieldDescriptor.messageCode, FieldDescriptor.enumCode]
    · simp [isEnum]
    · simp [isEnum]
  have cardinality : cardinalityOf field message fullName = .singular ↔
      field.label ≠ FieldDescriptor.repeatedLabel ∧ field.proto3Optional = false ∧
        field.oneofIndex = none := by
    unfold cardinalityOf
    split_ifs with repeated optional inOneof
    · cases mapEntry? field message fullName <;> simp [repeated]
    · simp [optional]
    · simp [Option.isSome_iff_ne_none.mp inOneof]
    · simp_all
  rw [FieldShape.of, FieldShape.mk.injEq, category, cardinality, FieldDescriptor.HasEnumDefault]

namespace TypeHint

theorem knownType_iff (code : Int) :
    KnownType code ↔ code = FieldDescriptor.messageCode ∨ code = FieldDescriptor.enumCode ∨
      (primitive? code).isSome := by
  unfold KnownType FieldDescriptor.messageCode FieldDescriptor.enumCode primitive?
  split
  case h_16 =>
    simp only [imp_false] at *
    simp only [Option.isSome_none, Bool.false_eq_true, or_false]
    omega
  all_goals decide

theorem error?_baseType (package : Text) (field : FieldDescriptor) :
    error? (baseType package field) = field.typeOffences.head? := by
  rw [baseType, FieldDescriptor.typeOffences, Category.ofTypeCode]
  simp only [knownType_iff]
  by_cases isMessage : field.typeCode = FieldDescriptor.messageCode
  · rw [if_pos isMessage, if_pos (.inl isMessage)]
    rfl
  by_cases isEnum : field.typeCode = FieldDescriptor.enumCode
  · rw [if_neg isMessage, if_pos isEnum, if_pos (.inr (.inl isEnum))]
    rfl
  cases found : primitive? field.typeCode <;> simp [isMessage, isEnum]

theorem error?_mapType (package : Text) (field : FieldDescriptor) (entry : MessageDescriptor) :
    error? (mapType package field entry) = (field.entryOffences entry).head? := by
  rw [mapType, FieldDescriptor.entryOffences]
  rcases entry.fields with _ | ⟨key, _ | ⟨value, rest⟩⟩
  · rfl
  · rfl
  · dsimp only
    rw [List.head?_append, ← error?_baseType package, ← error?_baseType package]
    apply error?_bind
    intro keyHint
    rw [error?_bind fun _ => error?_pure _, Option.or_none]

variable (package : Text) (field : FieldDescriptor) (message : MessageDescriptor) (fullName : Text)

theorem error?_hint :
    error? (hint package field (FieldShape.of field message fullName)) =
      match field.mapEntries message fullName with
      | entry :: _ => (field.entryOffences entry).head?
      | [] => field.typeOffences.head? := by
  have wrapped : ∀ opening closing : Text,
      error? (do return opening ++ (← baseType package field) ++ closing) =
        field.typeOffences.head? := by
    intro opening closing
    rw [error?_bind fun _ => error?_pure _, Option.or_none, error?_baseType]
  rw [hint, FieldShape.of, FieldShape.cardinalityOf_eq]
  cases field.mapEntries message fullName with
  | cons entry rest => exact error?_mapType package field entry
  | nil =>
    dsimp only
    split_ifs
    · exact wrapped "_tp.List[" "]"
    · exact wrapped "_tp.Optional[" "]"
    · exact wrapped "_tp.Optional[" "]"
    · exact error?_baseType package field

theorem error?_enumDefault (types : TypeIndex) (defaulted : field.HasEnumDefault) :
    error? (enumDefault package field types) = (field.defaultOffences types).head? := by
  rw [enumDefault, FieldDescriptor.defaultOffences, if_pos defaulted]
  cases types.lookup field.typeName with
  | none => rfl
  | some declared =>
    cases declared with
    | enum e => cases values : e.values <;> simp [values]
    | message m => rfl
    | service s => rfl

theorem defaultValue_eq_enumDefault (types : TypeIndex) (defaulted : field.HasEnumDefault) :
    defaultValue package field (FieldShape.of field message fullName) types =
      enumDefault package field types := by
  rw [FieldShape.of_eq_singular_enum_iff.mpr defaulted]
  rfl

/-- A default that is no enum value does not depend on the types. -/
theorem exists_defaultValue_eq_ok (other : ¬field.HasEnumDefault) :
    ∃ value, ∀ types,
      defaultValue package field (FieldShape.of field message fullName) types = .ok value := by
  cases shape : FieldShape.of field message fullName with
  | mk category cardinality =>
    cases cardinality with
    | singular =>
      cases category with
      | enum => exact absurd (FieldShape.of_eq_singular_enum_iff.mp shape) other
      | primitive => exact ⟨_, fun _ => rfl⟩
      | message => exact ⟨_, fun _ => rfl⟩
    | list => exact ⟨_, fun _ => rfl⟩
    | map entry => exact ⟨_, fun _ => rfl⟩
    | oneof => exact ⟨_, fun _ => rfl⟩
    | optional => exact ⟨_, fun _ => rfl⟩

theorem error?_defaultValue (types : TypeIndex) :
    error? (defaultValue package field (FieldShape.of field message fullName) types) =
      match field.mapEntries message fullName with
      | _ :: _ => none
      | [] => (field.defaultOffences types).head? := by
  by_cases defaulted : field.HasEnumDefault
  · rw [defaultValue_eq_enumDefault package field message fullName types defaulted,
      FieldDescriptor.mapEntries_eq_nil defaulted]
    exact error?_enumDefault package field types defaulted
  · obtain ⟨value, made⟩ := exists_defaultValue_eq_ok package field message fullName defaulted
    rw [made, FieldDescriptor.defaultOffences, if_neg defaulted]
    cases field.mapEntries message fullName <;> rfl

end TypeHint

namespace ClassCode

variable {code : ClassCode} {depth : Int} {message : MessageDescriptor} {fullName : Text}

theorem error?_member (entry : FieldDescriptor × Text) :
    error? (member code depth message fullName entry) =
      (entry.1.offences code.types message fullName).head? := by
  have parts : error? (member code depth message fullName entry) =
      (error? (TypeHint.hint code.package entry.1 (FieldShape.of entry.1 message fullName))).or
        (error? (TypeHint.defaultValue code.package entry.1
          (FieldShape.of entry.1 message fullName) code.types)) := by
    rw [member]
    apply error?_bind
    intro hint
    rw [error?_bind fun _ => error?_pure _, Option.or_none]
  rw [parts, TypeHint.error?_hint, TypeHint.error?_defaultValue, FieldDescriptor.offences]
  cases entry.1.mapEntries message fullName with
  | nil => rw [List.head?_append]
  | cons first rest => exact Option.or_none

theorem error?_members (fields : List (FieldDescriptor × Text)) :
    error? (members code depth message fullName fields) =
      ((fields.map Prod.fst).flatMap
        (FieldDescriptor.offences code.types message fullName)).head? := by
  rw [List.flatMap_map, ← error?_mapM fun entry _ => error?_member entry, members]
  cases fields with
  | nil => rfl
  | cons first rest => exact (error?_bind fun _ => error?_pure _).trans Option.or_none

/-! ## Scopes -/

theorem dottedPath_eq_nil_iff {names : List Text} :
    dottedPath names = [] ↔ ∀ name ∈ names, name = [] := by
  induction names with
  | nil => simp [dottedPath, Text.join]
  | cons name rest ih =>
    cases name with
    | nil => simpa [dottedPath] using ih
    | cons b name => cases rest <;> simp [dottedPath, Text.join]

theorem innerScope_dottedPath (names : List Text) (name : Text) :
    innerScope (dottedPath names) name = dottedPath (names ++ [name]) := by
  induction names with
  | nil => cases name <;> rfl
  | cons first rest ih =>
    cases first with
    | nil => simpa [dottedPath] using ih
    | cons b first =>
      have named : dottedPath ((b :: first) :: rest) ≠ [] := by simp [dottedPath_eq_nil_iff]
      rw [innerScope, if_neg (by simpa using named)]
      exact (Text.join_concat "." (b :: first) rest name).symm

/-! ## Declarations -/

theorem error?_emitEnum (cursor : Cursor) (around : List Text) (fullName : Text)
    (e : EnumDescriptor) :
    error? (emitEnum cursor (dottedPath around) fullName e).result =
      (e.offences around).head? := by
  rw [emitEnum, EnumDescriptor.offences]
  by_cases unnamed : ∀ name ∈ around, name = []
  · rw [if_pos unnamed, if_pos (List.isEmpty_iff.mpr (dottedPath_eq_nil_iff.mpr unnamed))]
    rfl
  · rw [if_neg unnamed, if_neg fun empty =>
      unnamed (dottedPath_eq_nil_iff.mp (List.isEmpty_iff.mp empty))]
    rfl

theorem flatMap_fst_zipIdx {α β : Type} (f : α → List β) (xs : List α) :
    (xs.zipIdx.flatMap fun entry => f entry.1) = xs.flatMap f := by
  rw [← List.flatMap_map, List.zipIdx_map_fst]

theorem map_fst_documented {α : Type} (cursor : Cursor) (children : List α) :
    (cursor.documented children).map Prod.fst = children := by
  rw [Cursor.documented, List.map_map]
  exact List.zipIdx_map_fst 0 children

mutual

theorem error?_emitMessage (code : ClassCode) :
    (m : MessageDescriptor) → (cursor : Cursor) → (around : List Text) → (fullName : Text) →
    error? (emitMessage code cursor (dottedPath around) fullName m).result =
      (m.offences code.types around fullName).head?
  | ⟨name, fields, nested, enums, mapEntry⟩, cursor, around, fullName => by
    rw [emitMessage, MessageDescriptor.offences, List.head?_append, List.head?_append,
      Option.or_assoc]
    simp only [Logged.result_bind, Logged.result_debug, Logged.result_mapM, Logged.result_lift,
      Logged.result_pure, Result.ok_bind, innerScope_dottedPath]
    refine (error?_bind fun enumTexts => error?_bind fun nestedTexts =>
      error?_bind fun body => error?_pure _).trans ?_
    rw [error?_mapM (fun entry _ => error?_emitEnum _ (around ++ [name]) _ entry.1),
      flatMap_fst_zipIdx, error?_emitNested code nested, error?_members, map_fst_documented,
      Option.or_none]

theorem error?_emitNested (code : ClassCode) :
    (nested : List MessageDescriptor) → (cursor : Cursor) → (around : List Text) →
    (fullName : Text) → (i : Nat) →
    error? (emitNested code cursor (dottedPath around) fullName i nested).result =
      (MessageDescriptor.nestedOffences code.types around fullName nested).head?
  | [], _, _, _, _ => by
    rw [emitNested, MessageDescriptor.nestedOffences]
    rfl
  | m :: rest, cursor, around, fullName, i => by
    have others := error?_emitNested code rest cursor around fullName (i + 1)
    rw [emitNested, MessageDescriptor.nestedOffences, List.head?_append, ← others]
    cases m.mapEntry with
    | true =>
      simp only [if_true, Logged.result_bind, Logged.result_pure, Result.ok_bind]
      exact (error?_bind fun more => error?_pure _).trans Option.or_none
    | false =>
      simp only [Bool.false_eq_true, if_false, Logged.result_bind, Logged.result_pure]
      rw [← error?_emitMessage code m (cursor.step i) around]
      apply error?_bind
      intro text
      exact (error?_bind fun more => error?_pure _).trans Option.or_none

end

end ClassCode

/-! ## Files -/

/-- Emission of a file fails with the first of its offences.  Only messages have
any: no enum of the file is inside a message. -/
theorem FileDescriptor.error?_emit (types : TypeIndex) (file : FileDescriptor) :
    error? (file.emit types).result = (file.offences types).head? := by
  rw [emit, offences]
  simp only [ClassCode.emit, Logged.result_bind, Logged.result_debug, Logged.result_mapM,
    Logged.result_pure, Result.ok_bind]
  refine (error?_bind fun enums => error?_bind fun messages => error?_bind fun services =>
    error?_pure _).trans ?_
  rw [Result.error?_mapM_eq_none fun entry _ => ClassCode.error?_emitEnum _ [] _ entry.1,
    error?_mapM fun entry _ => ClassCode.error?_emitMessage _ entry.1 _ [] _,
    ClassCode.flatMap_fst_zipIdx fun m : MessageDescriptor =>
      m.offences types [] (qualify file.package m.name),
    Result.error?_mapM_eq_none fun entry _ => rfl]
  simp

/-- What emission visits is sound, if it succeeds. -/
theorem FileDescriptor.Visits.sound {types : TypeIndex} {file : FileDescriptor} {text : Text}
    {around : List Text} {fullName : Text} {m : MessageDescriptor}
    (visited : file.Visits around fullName m) (emitted : (file.emit types).result = .ok text) :
    m.Sound types around fullName := by
  have nothing : file.offences types = [] := by
    rw [← List.head?_eq_none_iff, ← error?_emit, emitted, Result.error?_ok]
  exact offences_eq_nil_iff.mp nothing around fullName m visited

/-- Emission succeeds exactly when every message that it visits is sound: it
declares no enum, unless neither it nor a message around it has a name, and each
of its fields has a known type and a default, or a map entry with a key and a
value of known types.  When it fails, the fault is the first offence in the order
of emission. -/
theorem FileDescriptor.emit_fails_at_first_offence (types : TypeIndex) (file : FileDescriptor) :
    ((∃ text, (file.emit types).result = .ok text) ↔
      ∀ around fullName m, file.Visits around fullName m → m.Sound types around fullName) ∧
    ∀ fault, (file.emit types).result = .error fault ↔
      (file.offences types).head? = some fault := by
  constructor
  · rw [← Result.error?_eq_none_iff, error?_emit, List.head?_eq_none_iff, offences_eq_nil_iff]
  · intro fault
    rw [← Result.error?_eq_some_iff, error?_emit]

/-- An enum declared in a message without a name is taken for one of the file, and
emitted inside the class of the message. -/
theorem emit_enum_in_unnamed_message :
    let m : MessageDescriptor := { enums := [{ name := "E", values := [{ name := "A" }] }] }
    let file : FileDescriptor := { name := "a.proto", messages := [m] }
    file.Visits [] [] m ∧ m.enums ≠ [] ∧
      (file.emit {}).result = .ok ("\n@_dc.dataclass\nclass :\n\n    class E(_enum.Enum):\n\n"
        ++ "        A = 0,\n\n    pass\n\n\n\n" : Text) := by
  intro m file
  have visited : file.Visits [] (qualify file.package m.name) m := .top List.mem_cons_self
  exact ⟨visited, List.cons_ne_nil _ _, by decide +kernel⟩

end Protoclass
