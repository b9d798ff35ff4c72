import Protoclass.Proofs.Wire.Encoding
import Protoclass.Wire.Descriptor

/-!
# Descriptors as records

Each descriptor as the records of its message, with every field that it has, in
the order of the fields' numbers.  A descriptor whose integers have 32 bits is
what its records stand for.
-/

namespace Protoclass.Wire

open Protoclass

/-! ## Fields of a list of records -/

namespace Record

section Fields

variable {α : Type} (number other value : Nat) (body : Text) (held records others : List Record)
variable (values : List α) (toRecords : α → List Record)

@[simp]
theorem texts_nil : texts number [] = [] := rfl

@[simp]
theorem texts_cons_text :
    texts number (.text other body :: records)
      = (if other = number then [body] else []) ++ texts number records := by
  by_cases same : other = number <;> simp [texts, same]

@[simp]
theorem texts_cons_varint : texts number (.varint other value :: records) = texts number records :=
  rfl

@[simp]
theorem texts_cons_message : texts number (.message other held :: records) = texts number records :=
  rfl

@[simp]
theorem texts_append :
    texts number (records ++ others) = texts number records ++ texts number others :=
  List.filterMap_append

@[simp]
theorem texts_map_message :
    texts number (values.map fun value => .message other (toRecords value)) = [] := by
  simp [texts]

@[simp]
theorem texts_map_text (bodies : List Text) :
    texts number (bodies.map (.text other)) = if other = number then bodies else [] := by
  induction bodies with
  | nil => simp
  | cons body bodies ih =>
    rw [List.map_cons, texts_cons_text, ih]
    split <;> simp

@[simp]
theorem messages_nil : messages number [] = [] := rfl

@[simp]
theorem messages_cons_text :
    messages number (.text other body :: records) = messages number records :=
  rfl

@[simp]
theorem messages_cons_varint :
    messages number (.varint other value :: records) = messages number records :=
  rfl

@[simp]
theorem messages_cons_message :
    messages number (.message other held :: records)
      = (if other = number then [held] else []) ++ messages number records := by
  by_cases same : other = number <;> simp [messages, same]

@[simp]
theorem messages_append :
    messages number (records ++ others) = messages number records ++ messages number others :=
  List.filterMap_append

@[simp]
theorem messages_map_message :
    messages number (values.map fun value => .message other (toRecords value))
      = if other = number then values.map toRecords else [] := by
  induction values with
  | nil => simp
  | cons value values ih =>
    rw [List.map_cons, messages_cons_message, ih]
    split <;> simp

@[simp]
theorem messages_map_text (bodies : List Text) :
    messages number (bodies.map (.text other)) = [] := by
  simp [messages]

end Fields

end Record

/-- What is read back value by value is read back as a list. -/
theorem map_ofRecords_map_toRecords {α : Type} {toRecords : α → List Record}
    {ofRecords : List Record → α} {values : List α}
    (each : ∀ value ∈ values, ofRecords (toRecords value) = value) :
    (values.map toRecords).map ofRecords = values := by
  rw [List.map_map]
  exact (List.map_congr_left each).trans (List.map_id values)

/-! ## Integers -/

/-- An integer that has 32 bits. -/
def IsInt32 (n : Int) : Prop := -2 ^ 31 ≤ n ∧ n < 2 ^ 31

/-- A number of 64 bits for an integer. -/
def numberOfInt (n : Int) : Nat := (n % 2 ^ 64).toNat

theorem numberOfInt_lt (n : Int) : numberOfInt n < 2 ^ 64 := by
  unfold numberOfInt
  omega

theorem int32OfNumber_numberOfInt {n : Int} (narrow : IsInt32 n) :
    int32OfNumber (numberOfInt n) = n := by
  rcases narrow with ⟨lower, upper⟩
  rw [int32OfNumber, low32, numberOfInt, Int.bmod_def]
  omega

/-- The number for a truth value. -/
def numberOfBool (flag : Bool) : Nat := if flag then 1 else 0

theorem numberOfBool_lt (flag : Bool) : numberOfBool flag < 2 ^ 64 := by
  cases flag <;> decide

@[simp]
theorem numberOfBool_ne_zero (flag : Bool) : (numberOfBool flag != 0) = flag := by
  cases flag <;> rfl

end Protoclass.Wire

namespace Protoclass

open Wire

/-! ## Enums and services -/

/-- The records of a value of an enum. -/
def EnumValue.toRecords (value : EnumValue) : List Record :=
  [.text 1 value.name, .varint 2 (numberOfInt value.number)]

theorem EnumValue.ofRecords_toRecords {value : EnumValue} (narrow : IsInt32 value.number) :
    EnumValue.ofRecords value.toRecords = value := by
  simp [EnumValue.ofRecords, EnumValue.toRecords, textOrEmpty, Record.text?, int32Or,
    Record.number?, int32OfNumber_numberOfInt narrow]

theorem EnumValue.fits_toRecords (value : EnumValue) : Fits .enumValue value.toRecords :=
  .text (by decide) rfl (.varint (by decide) (numberOfInt_lt _) .nil)

/-- The records of an enum. -/
def EnumDescriptor.toRecords (enum : EnumDescriptor) : List Record :=
  .text 1 enum.name :: enum.values.map fun value => .message 2 value.toRecords

/-- The numbers of an enum have 32 bits. -/
def EnumDescriptor.IsNarrow (enum : EnumDescriptor) : Prop :=
  ∀ value ∈ enum.values, IsInt32 value.number

theorem EnumDescriptor.ofRecords_toRecords {enum : EnumDescriptor} (narrow : enum.IsNarrow) :
    EnumDescriptor.ofRecords enum.toRecords = enum := by
  have values : (enum.values.map EnumValue.toRecords).map EnumValue.ofRecords = enum.values :=
    map_ofRecords_map_toRecords fun value member => EnumValue.ofRecords_toRecords (narrow value member)
  simp only [EnumDescriptor.ofRecords, EnumDescriptor.toRecords, textOrEmpty, Record.text?,
    Record.texts_cons_text, Record.texts_map_message, Record.messages_cons_text,
    Record.messages_map_message, if_true, values]
  rfl

theorem EnumDescriptor.fits_toRecords (enum : EnumDescriptor) : Fits .enum enum.toRecords := by
  apply Fits.text (by decide) rfl
  exact fits_map_message (by decide) rfl fun value _ => ⟨value.fits_toRecords, rfl⟩

/-- The records of a method. -/
def MethodDescriptor.toRecords (method : MethodDescriptor) : List Record :=
  [.text 1 method.name, .text 2 method.inputType, .text 3 method.outputType]

theorem MethodDescriptor.ofRecords_toRecords (method : MethodDescriptor) :
    MethodDescriptor.ofRecords method.toRecords = method := by
  simp [MethodDescriptor.ofRecords, MethodDescriptor.toRecords, textOrEmpty, Record.text?]

theorem MethodDescriptor.fits_toRecords (method : MethodDescriptor) :
    Fits .method method.toRecords :=
  .text (by decide) rfl (.text (by decide) rfl (.text (by decide) rfl .nil))

/-- The records of a service. -/
def ServiceDescriptor.toRecords (service : ServiceDescriptor) : List Record :=
  .text 1 service.name :: service.methods.map fun method => .message 2 method.toRecords

theorem ServiceDescriptor.ofRecords_toRecords (service : ServiceDescriptor) :
    ServiceDescriptor.ofRecords service.toRecords = service := by
  have methods : (service.methods.map MethodDescriptor.toRecords).map MethodDescriptor.ofRecords
      = service.methods :=
    map_ofRecords_map_toRecords fun method _ => method.ofRecords_toRecords
  simp only [ServiceDescriptor.ofRecords, ServiceDescriptor.toRecords, textOrEmpty, Record.text?,
    Record.texts_cons_text, Record.texts_map_message, Record.messages_cons_text,
    Record.messages_map_message, if_true, methods]
  rfl

theorem ServiceDescriptor.fits_toRecords (service : ServiceDescriptor) :
    Fits .service service.toRecords := by
  apply Fits.text (by decide) rfl
  exact fits_map_message (by decide) rfl fun method _ => ⟨method.fits_toRecords, rfl⟩

/-! ## Messages -/

/-- The records of a field.  A place in a oneof is written only if it is set. -/
def FieldDescriptor.toRecords (field : FieldDescriptor) : List Record :=
  [.text 1 field.name, .varint 3 (numberOfInt field.number), .varint 4 (numberOfInt field.label),
    .varint 5 (numberOfInt field.typeCode), .text 6 field.typeName]
    ++ field.oneofIndex.toList.map (fun index => .varint 9 (numberOfInt index))
    ++ [.varint 17 (numberOfBool field.proto3Optional)]

/-- The integers of a field have 32 bits. -/
structure FieldDescriptor.IsNarrow (field : FieldDescriptor) : Prop where
  number : IsInt32 field.number
  label : IsInt32 field.label
  typeCode : IsInt32 field.typeCode
  oneofIndex : ∀ index ∈ field.oneofIndex, IsInt32 index

theorem FieldDescriptor.ofRecords_toRecords {field : FieldDescriptor} (narrow : field.IsNarrow) :
    FieldDescriptor.ofRecords field.toRecords = field := by
  rcases field with ⟨name, number, label, typeCode, typeName, - | index, proto3Optional⟩
  · simp [FieldDescriptor.ofRecords, FieldDescriptor.toRecords, textOrEmpty, Record.text?, int32Or,
      isFlagged, Record.number?, int32OfNumber_numberOfInt narrow.number,
      int32OfNumber_numberOfInt narrow.label, int32OfNumber_numberOfInt narrow.typeCode]
  · simp [FieldDescriptor.ofRecords, FieldDescriptor.toRecords, textOrEmpty, Record.text?, int32Or,
      isFlagged, Record.number?, int32OfNumber_numberOfInt narrow.number,
      int32OfNumber_numberOfInt narrow.label, int32OfNumber_numberOfInt narrow.typeCode,
      int32OfNumber_numberOfInt (narrow.oneofIndex index rfl)]

theorem FieldDescriptor.fits_toRecords (field : FieldDescriptor) : Fits .field field.toRecords := by
  have flag : Fits .field [.varint 17 (numberOfBool field.proto3Optional)] :=
    .varint (by decide) (numberOfBool_lt _) .nil
  have place : Fits .field (field.oneofIndex.toList.map fun index =>
      .varint 9 (numberOfInt index)) := by
    cases field.oneofIndex with
    | none => exact .nil
    | some index => exact .varint (by decide) (numberOfInt_lt _) .nil
  apply Fits.append _ flag
  apply Fits.append _ place
  apply Fits.text (by decide) rfl
  apply Fits.varint (by decide) (numberOfInt_lt _)
  apply Fits.varint (by decide) (numberOfInt_lt _)
  apply Fits.varint (by decide) (numberOfInt_lt _)
  exact .text (by decide) rfl .nil

mutual

/-- The records of a message. -/
def MessageDescriptor.toRecords : MessageDescriptor → List Record
  | ⟨name, fields, nested, enums, mapEntry⟩ =>
    [.text 1 name] ++ (fields.map fun field => .message 2 field.toRecords)
      ++ MessageDescriptor.recordsAt 3 nested
      ++ (enums.map fun enum => .message 4 enum.toRecords)
      ++ [.message 7 [.varint 7 (numberOfBool mapEntry)]]

/-- The records, of a given number, that hold messages. -/
def MessageDescriptor.recordsAt (number : Nat) : List MessageDescriptor → List Record
  | [] => []
  | message :: rest =>
    .message number message.toRecords :: MessageDescriptor.recordsAt number rest

end

mutual

/-- The integers of a message, and of those inside it, have 32 bits. -/
def MessageDescriptor.IsNarrow : MessageDescriptor → Prop
  | ⟨_, fields, nested, enums, _⟩ =>
    (∀ field ∈ fields, field.IsNarrow) ∧ MessageDescriptor.AreNarrow nested
      ∧ ∀ enum ∈ enums, enum.IsNarrow

/-- The integers of messages have 32 bits. -/
def MessageDescriptor.AreNarrow : List MessageDescriptor → Prop
  | [] => True
  | message :: rest => message.IsNarrow ∧ MessageDescriptor.AreNarrow rest

end

theorem MessageDescriptor.recordsAt_eq_map (number : Nat) (messages : List MessageDescriptor) :
    MessageDescriptor.recordsAt number messages
      = messages.map fun message => .message number message.toRecords := by
  induction messages with
  | nil => rw [recordsAt, List.map_nil]
  | cons message rest ih => rw [recordsAt, ih, List.map_cons]

/-- A message from its records. -/
def MessageDescriptor.ofRecords (records : List Record) : MessageDescriptor where
  name := textOrEmpty 1 records
  fields := (Record.messages 2 records).map FieldDescriptor.ofRecords
  nested := MessageDescriptor.ofRecordsAt 3 records
  enums := (Record.messages 4 records).map EnumDescriptor.ofRecords
  mapEntry := isFlagged 7 (Record.merged 7 records)

theorem MessageDescriptor.ofRecordsAt_eq_map (number : Nat) (records : List Record) :
    MessageDescriptor.ofRecordsAt number records
      = (Record.messages number records).map MessageDescriptor.ofRecords := by
  induction records with
  | nil => rw [ofRecordsAt, Record.messages_nil, List.map_nil]
  | cons record records ih =>
    cases record with
    | message other held =>
      rw [ofRecordsAt, Record.messages_cons_message, List.map_append, ih]
      split
      · rw [ofRecord, Option.toList_some]
        rfl
      · rfl
    | varint | packed | text | skipped =>
      rw [ofRecordsAt, ih]
      · rfl
      · simp

mutual

theorem MessageDescriptor.ofRecords_toRecords : (message : MessageDescriptor) → message.IsNarrow →
    MessageDescriptor.ofRecords message.toRecords = message
  | ⟨name, fields, nested, enums, mapEntry⟩, narrow => by
    rw [IsNarrow] at narrow
    rcases narrow with ⟨narrowFields, narrowNested, narrowEnums⟩
    have fieldsBack : (fields.map FieldDescriptor.toRecords).map FieldDescriptor.ofRecords = fields :=
      map_ofRecords_map_toRecords fun field member =>
        FieldDescriptor.ofRecords_toRecords (narrowFields field member)
    have nestedBack := MessageDescriptor.map_ofRecords_toRecords nested narrowNested
    have enumsBack : (enums.map EnumDescriptor.toRecords).map EnumDescriptor.ofRecords = enums :=
      map_ofRecords_map_toRecords fun enum member =>
        EnumDescriptor.ofRecords_toRecords (narrowEnums enum member)
    simp only [MessageDescriptor.ofRecords, MessageDescriptor.ofRecordsAt_eq_map,
      MessageDescriptor.toRecords, MessageDescriptor.recordsAt_eq_map, textOrEmpty, Record.text?,
      Record.merged, Record.texts_append, Record.texts_cons_text, Record.texts_nil,
      Record.texts_map_message, Record.texts_cons_message, Record.messages_append,
      Record.messages_cons_text, Record.messages_nil, Record.messages_map_message,
      Record.messages_cons_message]
    simp [isFlagged, Record.number?, fieldsBack, nestedBack, enumsBack]

theorem MessageDescriptor.map_ofRecords_toRecords : (messages : List MessageDescriptor) →
    MessageDescriptor.AreNarrow messages →
    (messages.map MessageDescriptor.toRecords).map MessageDescriptor.ofRecords = messages
  | [], _ => rfl
  | message :: rest, narrow => by
    rw [AreNarrow] at narrow
    rw [List.map_cons, List.map_cons, MessageDescriptor.ofRecords_toRecords message narrow.1,
      MessageDescriptor.map_ofRecords_toRecords rest narrow.2]

end

mutual

theorem MessageDescriptor.fits_toRecords :
    (message : MessageDescriptor) → Fits .message message.toRecords
  | ⟨name, fields, nested, enums, mapEntry⟩ => by
    have options : Fits .message [.message 7 [.varint 7 (numberOfBool mapEntry)]] :=
      .message (by decide) rfl (.varint (by decide) (numberOfBool_lt _) .nil) rfl .nil
    rw [MessageDescriptor.toRecords]
    apply Fits.append _ options
    apply Fits.append _ (fits_map_message (by decide) rfl fun enum _ => ⟨enum.fits_toRecords, rfl⟩)
    apply Fits.append _ (MessageDescriptor.fits_recordsAt (by decide) rfl nested)
    apply Fits.append _ (fits_map_message (by decide) rfl fun field _ => ⟨field.fits_toRecords, rfl⟩)
    exact .text (by decide) rfl .nil

theorem MessageDescriptor.fits_recordsAt {type : MessageType} {number : Nat}
    (numbered : IsFieldNumber number) (isMessage : type.part? number = some (.message .message)) :
    (messages : List MessageDescriptor) → Fits type (MessageDescriptor.recordsAt number messages)
  | [] => .nil
  | message :: rest =>
    .message numbered isMessage (MessageDescriptor.fits_toRecords message) rfl
      (MessageDescriptor.fits_recordsAt numbered isMessage rest)

end

/-! ## Files -/

/-- The records of a source location. -/
def SourceLocation.toRecords (location : SourceLocation) : List Record :=
  [.packed 1 (location.path.map numberOfInt), .text 3 location.comment]

/-- The path of a location has integers of 32 bits. -/
def SourceLocation.IsNarrow (location : SourceLocation) : Prop :=
  ∀ n ∈ location.path, IsInt32 n

theorem SourceLocation.ofRecords_toRecords {location : SourceLocation}
    (narrow : location.IsNarrow) : SourceLocation.ofRecords location.toRecords = location := by
  have path : location.path.map (int32OfNumber ∘ numberOfInt) = location.path := by
    rw [List.map_congr_left (g := id), List.map_id]
    intro n member
    rw [Function.comp_apply, int32OfNumber_numberOfInt (narrow n member), id]
  simp [SourceLocation.ofRecords, SourceLocation.toRecords, textOrEmpty, Record.text?,
    Record.texts, Record.numbers, path]

theorem SourceLocation.fits_toRecords (location : SourceLocation) :
    Fits .location location.toRecords := by
  apply Fits.packed (by decide) rfl
  · intro value member
    rcases List.mem_map.mp member with ⟨n, -, rfl⟩
    exact numberOfInt_lt n
  · exact .text (by decide) rfl .nil

/-- The records of a file. -/
def FileDescriptor.toRecords (file : FileDescriptor) : List Record :=
  [.text 1 file.name, .text 2 file.package] ++ file.dependencies.map (.text 3)
    ++ MessageDescriptor.recordsAt 4 file.messages
    ++ (file.enums.map fun enum => .message 5 enum.toRecords)
    ++ (file.services.map fun service => .message 6 service.toRecords)
    ++ [.message 9 (file.locations.map fun location => .message 1 location.toRecords)]

/-- The integers of a file have 32 bits. -/
structure FileDescriptor.IsNarrow (file : FileDescriptor) : Prop where
  messages : MessageDescriptor.AreNarrow file.messages
  enums : ∀ enum ∈ file.enums, enum.IsNarrow
  locations : ∀ location ∈ file.locations, location.IsNarrow

theorem FileDescriptor.ofRecords_toRecords {file : FileDescriptor} (narrow : file.IsNarrow) :
    FileDescriptor.ofRecords file.toRecords = file := by
  have messages := MessageDescriptor.map_ofRecords_toRecords file.messages narrow.messages
  have enums : (file.enums.map EnumDescriptor.toRecords).map EnumDescriptor.ofRecords = file.enums :=
    map_ofRecords_map_toRecords fun enum member =>
      EnumDescriptor.ofRecords_toRecords (narrow.enums enum member)
  have services : (file.services.map ServiceDescriptor.toRecords).map ServiceDescriptor.ofRecords
      = file.services :=
    map_ofRecords_map_toRecords fun service _ => service.ofRecords_toRecords
  have locations : (file.locations.map SourceLocation.toRecords).map SourceLocation.ofRecords
      = file.locations :=
    map_ofRecords_map_toRecords fun location member =>
      SourceLocation.ofRecords_toRecords (narrow.locations location member)
  simp only [FileDescriptor.ofRecords, MessageDescriptor.ofRecordsAt_eq_map,
    FileDescriptor.toRecords, MessageDescriptor.recordsAt_eq_map, textOrEmpty, Record.text?,
    Record.merged, Record.texts_append, Record.texts_cons_text, Record.texts_nil,
    Record.texts_map_text, Record.texts_map_message, Record.texts_cons_message,
    Record.messages_append, Record.messages_cons_text, Record.messages_nil,
    Record.messages_map_text, Record.messages_map_message, Record.messages_cons_message]
  simp [messages, enums, services, locations]

theorem FileDescriptor.fits_toRecords (file : FileDescriptor) : Fits .file file.toRecords := by
  have locations : Fits .sourceInfo (file.locations.map fun location =>
      .message 1 location.toRecords) :=
    fits_map_message (by decide) rfl fun location _ => ⟨location.fits_toRecords, rfl⟩
  apply Fits.append _ (.message (by decide) rfl locations rfl .nil)
  apply Fits.append _
    (fits_map_message (by decide) rfl fun service _ => ⟨service.fits_toRecords, rfl⟩)
  apply Fits.append _ (fits_map_message (by decide) rfl fun enum _ => ⟨enum.fits_toRecords, rfl⟩)
  apply Fits.append _ (MessageDescriptor.fits_recordsAt (by decide) rfl file.messages)
  apply Fits.append _ (fits_map_text file.dependencies (by decide) rfl)
  exact .text (by decide) rfl (.text (by decide) rfl .nil)

end Protoclass
