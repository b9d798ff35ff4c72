import Protoclass.Dataclass.ClassCode

/-!
# Offences of a schema

Everything in a file that its code cannot be generated with: enums inside
messages, fields without a known type, map entries without a key and a value,
and defaults without an enum value to name.  `FileDescriptor.offences` lists them
in the order in which emission comes across them, as the faults they are reported
by.  `Visits` and `Sound` say the same without an order: a file has no offence
exactly when every message that emission visits is sound.
-/

namespace Protoclass

/-! ## Fields -/

/-- The type codes that stand for a type: 1 to 18, without that of groups. -/
def KnownType (code : Int) : Prop :=
  1 ≤ code ∧ code ≤ 18 ∧ code ≠ 10

instance (code : Int) : Decidable (KnownType code) :=
  inferInstanceAs (Decidable (_ ∧ _))

namespace FieldDescriptor

/-- The map entries declared in `message`, whose full name is `fullName`, that
the field is a map of. -/
def mapEntries (field : FieldDescriptor) (message : MessageDescriptor) (fullName : Text) :
    List MessageDescriptor :=
  if field.label = repeatedLabel ∧ field.typeCode = messageCode then
    message.nested.filter fun inner =>
      Text.dropLead field.typeName "." = fullName ++ "." ++ inner.name ∧ inner.mapEntry
  else []

/-- The field always holds one value, and that is one of an enum. -/
def HasEnumDefault (field : FieldDescriptor) : Prop :=
  field.typeCode = enumCode ∧ field.label ≠ repeatedLabel ∧ field.proto3Optional = false ∧
    field.oneofIndex = none

instance (field : FieldDescriptor) : Decidable field.HasEnumDefault :=
  inferInstanceAs (Decidable (_ ∧ _))

theorem mapEntries_eq_nil {field : FieldDescriptor} {message : MessageDescriptor}
    {fullName : Text} (defaulted : field.HasEnumDefault) :
    field.mapEntries message fullName = [] := by
  rw [mapEntries, if_neg]
  rintro ⟨repeated, -⟩
  exact defaulted.2.1 repeated

/-- Code can be generated for a field of `message`, whose full name is
`fullName`.  Of a map field, only the entry message counts: the first one of its
name. -/
def Sound (types : TypeIndex) (message : MessageDescriptor) (fullName : Text)
    (field : FieldDescriptor) : Prop :=
  match field.mapEntries message fullName with
  | entry :: _ =>
    ∃ key value rest, entry.fields = key :: value :: rest ∧
      KnownType key.typeCode ∧ KnownType value.typeCode
  | [] =>
    KnownType field.typeCode ∧
      (field.HasEnumDefault → ∃ e first rest,
        types.lookup field.typeName = some (.enum e) ∧ e.values = first :: rest)

/-- A type code that is not known. -/
def typeOffences (field : FieldDescriptor) : List Fault :=
  if KnownType field.typeCode then []
  else
    [{ kind := .unknownFieldType
       subject := field.name
       details := "type code = " ++ Text.ofInt field.typeCode }]

/-- What is wrong with the entry message of a map field. -/
def entryOffences (field : FieldDescriptor) (entry : MessageDescriptor) : List Fault :=
  match entry.fields with
  | key :: value :: _ => key.typeOffences ++ value.typeOffences
  | _ =>
    [{ kind := .unknownTypeReference
       subject := field.typeName
       details := "map entry must declare key and value fields" }]

/-- What is wrong with the enum that a field takes its default from. -/
def defaultOffences (types : TypeIndex) (field : FieldDescriptor) : List Fault :=
  if field.HasEnumDefault then
    match types.lookup field.typeName with
    | some (.enum e) =>
      if e.values = [] then
        [{ kind := .unknownTypeReference
           subject := field.typeName
           details := "enum declares no values" }]
      else []
    | _ =>
      [{ kind := .unknownTypeReference
         subject := field.typeName
         details := "field " ++ field.name }]
  else []

/-- What is wrong with a field of `message`, whose full name is `fullName`: its
type first, then its default. -/
def offences (types : TypeIndex) (message : MessageDescriptor) (fullName : Text)
    (field : FieldDescriptor) : List Fault :=
  match field.mapEntries message fullName with
  | entry :: _ => field.entryOffences entry
  | [] => field.typeOffences ++ field.defaultOffences types

theorem typeOffences_eq_nil_iff {field : FieldDescriptor} :
    field.typeOffences = [] ↔ KnownType field.typeCode := by
  rw [typeOffences]
  split
  case isTrue known => simp [known]
  case isFalse unknown => simp [unknown]

theorem entryOffences_eq_nil_iff {field : FieldDescriptor} {entry : MessageDescriptor} :
    field.entryOffences entry = [] ↔
      ∃ key value rest, entry.fields = key :: value :: rest ∧
        KnownType key.typeCode ∧ KnownType value.typeCode := by
  rw [entryOffences]
  split
  case h_1 key value rest fields =>
    rw [List.append_eq_nil_iff, typeOffences_eq_nil_iff, typeOffences_eq_nil_iff]
    constructor
    · rintro ⟨ofKey, ofValue⟩
      exact ⟨key, value, rest, fields, ofKey, ofValue⟩
    · rintro ⟨key', value', rest', fields', ofKey, ofValue⟩
      rw [fields] at fields'
      cases fields'
      exact ⟨ofKey, ofValue⟩
  case h_2 short =>
    simp only [List.cons_ne_nil, false_iff]
    rintro ⟨key, value, rest, fields, _⟩
    exact short key value rest fields

theorem defaultOffences_eq_nil_iff {types : TypeIndex} {field : FieldDescriptor} :
    field.defaultOffences types = [] ↔
      (field.HasEnumDefault → ∃ e first rest,
        types.lookup field.typeName = some (.enum e) ∧ e.values = first :: rest) := by
  rw [defaultOffences]
  by_cases defaulted : field.HasEnumDefault
  · simp only [defaulted, if_true, forall_const]
    split
    case h_1 e found =>
      cases values : e.values with
      | nil =>
        simp only [if_true, List.cons_ne_nil, false_iff]
        rintro ⟨e', first, rest, found', values'⟩
        cases found.symm.trans found'
        rw [values] at values'
        contradiction
      | cons first rest =>
        simp only [reduceCtorEq, if_false, true_iff]
        exact ⟨e, first, rest, found, values⟩
    case h_2 other =>
      simp only [List.cons_ne_nil, false_iff]
      rintro ⟨e, _, _, found, _⟩
      exact other e found
  · simp [defaulted]

theorem offences_eq_nil_iff {types : TypeIndex} {message : MessageDescriptor} {fullName : Text}
    {field : FieldDescriptor} :
    field.offences types message fullName = [] ↔ field.Sound types message fullName := by
  rw [offences, Sound]
  split
  · exact entryOffences_eq_nil_iff
  · rw [List.append_eq_nil_iff, typeOffences_eq_nil_iff, defaultOffences_eq_nil_iff]

end FieldDescriptor

/-! ## Enums inside messages -/

/-- The dotted path of some names, which starts with the first that is not
empty. -/
def dottedPath (names : List Text) : Text :=
  Text.join "." (names.dropWhile List.isEmpty)

/-- An enum declared inside messages of given names, outermost first.  Where
none of them has a name, the enum counts as one of the file itself. -/
def EnumDescriptor.offences (around : List Text) (e : EnumDescriptor) : List Fault :=
  if ∀ name ∈ around, name = [] then []
  else [{ kind := .nestedEnum, subject := dottedPath around ++ "." ++ e.name }]

/-! ## Messages -/

namespace MessageDescriptor

/-- Code can be generated for a message, apart from the messages inside it. -/
structure Sound (types : TypeIndex) (around : List Text) (fullName : Text)
    (m : MessageDescriptor) : Prop where
  enums : m.enums = [] ∨ ∀ name ∈ around ++ [m.name], name = []
  fields : ∀ field ∈ m.fields, field.Sound types m fullName

mutual

/-- What is wrong with a message inside messages of given names: its enums, the
messages inside it, and its fields. -/
def offences (types : TypeIndex) (around : List Text) (fullName : Text) :
    MessageDescriptor → List Fault
  | ⟨name, fields, nested, enums, mapEntry⟩ =>
    enums.flatMap (EnumDescriptor.offences (around ++ [name]))
      ++ nestedOffences types (around ++ [name]) fullName nested
      ++ fields.flatMap (FieldDescriptor.offences types ⟨name, fields, nested, enums, mapEntry⟩
          fullName)

/-- What is wrong with the messages declared in a message; map entries are not
looked at. -/
def nestedOffences (types : TypeIndex) (around : List Text) (fullName : Text) :
    List MessageDescriptor → List Fault
  | [] => []
  | m :: rest =>
    (if m.mapEntry then [] else m.offences types around (fullName ++ "." ++ m.name))
      ++ nestedOffences types around fullName rest

end

theorem offences_eq (types : TypeIndex) (around : List Text) (fullName : Text)
    (m : MessageDescriptor) :
    m.offences types around fullName =
      m.enums.flatMap (EnumDescriptor.offences (around ++ [m.name]))
        ++ nestedOffences types (around ++ [m.name]) fullName m.nested
        ++ m.fields.flatMap (FieldDescriptor.offences types m fullName) := by
  cases m
  rw [offences]

variable {types : TypeIndex} {around : List Text} {fullName : Text}

theorem subset_nestedOffences {inner : MessageDescriptor} {nested : List MessageDescriptor}
    (member : inner ∈ nested) (isOwn : inner.mapEntry = false) :
    inner.offences types around (fullName ++ "." ++ inner.name) ⊆
      nestedOffences types around fullName nested := by
  induction nested with
  | nil => contradiction
  | cons m rest ih =>
    rw [nestedOffences]
    rcases List.mem_cons.mp member with rfl | member
    · rw [isOwn]
      exact List.subset_append_left _ _
    · exact List.Subset.trans (ih member) (List.subset_append_right _ _)

/-- A message has no offence of its own exactly when it is sound. -/
theorem sound_iff {m : MessageDescriptor} :
    m.Sound types around fullName ↔
      m.enums.flatMap (EnumDescriptor.offences (around ++ [m.name])) = [] ∧
        m.fields.flatMap (FieldDescriptor.offences types m fullName) = [] := by
  have ofEnums : m.enums.flatMap (EnumDescriptor.offences (around ++ [m.name])) = [] ↔
      (m.enums = [] ∨ ∀ name ∈ around ++ [m.name], name = []) := by
    rw [List.flatMap_eq_nil_iff]
    by_cases unnamed : ∀ name ∈ around ++ [m.name], name = []
    · simp only [EnumDescriptor.offences, if_pos unnamed, implies_true, true_iff]
      exact .inr unnamed
    · simp only [EnumDescriptor.offences, if_neg unnamed]
      constructor
      · intro absent
        refine .inl (List.eq_nil_iff_forall_not_mem.mpr ?_)
        intro e member
        exact List.cons_ne_nil _ _ (absent e member)
      · intro allowed e member
        rw [allowed.resolve_right unnamed] at member
        contradiction
  have ofFields : m.fields.flatMap (FieldDescriptor.offences types m fullName) = [] ↔
      ∀ field ∈ m.fields, field.Sound types m fullName := by
    rw [List.flatMap_eq_nil_iff]
    simp only [FieldDescriptor.offences_eq_nil_iff]
  rw [ofEnums, ofFields]
  exact ⟨fun sound => ⟨sound.enums, sound.fields⟩, fun ⟨enums, fields⟩ => ⟨enums, fields⟩⟩

end MessageDescriptor

/-! ## Files -/

namespace FileDescriptor

/-- What is wrong with a file, in the order of emission. -/
def offences (types : TypeIndex) (file : FileDescriptor) : List Fault :=
  file.messages.flatMap fun m => m.offences types [] (qualify file.package m.name)

/-- Emission visits a message: one of the file, or one declared in a message that
is visited, if it is no map entry.  `around` names the messages around it, and
its full name comes with it. -/
inductive Visits (file : FileDescriptor) :
    (around : List Text) → (fullName : Text) → MessageDescriptor → Prop
  | top {m : MessageDescriptor} (member : m ∈ file.messages) :
      Visits file [] (qualify file.package m.name) m
  | nested {around : List Text} {fullName : Text} {m inner : MessageDescriptor}
      (visited : Visits file around fullName m) (member : inner ∈ m.nested)
      (isOwn : inner.mapEntry = false) :
      Visits file (around ++ [m.name]) (fullName ++ "." ++ inner.name) inner

variable {types : TypeIndex} {file : FileDescriptor}

theorem Visits.subset_offences {around : List Text} {fullName : Text} {m : MessageDescriptor}
    (visited : file.Visits around fullName m) :
    m.offences types around fullName ⊆ file.offences types := by
  induction visited with
  | top member => exact fun fault inside => List.mem_flatMap.mpr ⟨_, member, inside⟩
  | @nested around fullName m inner visited member isOwn ih =>
    refine List.Subset.trans ?_ ih
    rw [m.offences_eq]
    intro fault inside
    have inNested := MessageDescriptor.subset_nestedOffences member isOwn inside
    simp only [List.mem_append]
    exact .inl (.inr inNested)

mutual

theorem offences_eq_nil_of_visits
    (sound : ∀ around fullName m, file.Visits around fullName m → m.Sound types around fullName) :
    (around : List Text) → (fullName : Text) → (m : MessageDescriptor) →
    file.Visits around fullName m → m.offences types around fullName = []
  | around, fullName, ⟨name, fields, nested, enums, mapEntry⟩, visited => by
    obtain ⟨ofEnums, ofFields⟩ := MessageDescriptor.sound_iff.mp (sound _ _ _ visited)
    have inner := nestedOffences_eq_nil_of_visits sound (around ++ [name]) fullName nested
      fun m member isOwn => visited.nested member isOwn
    rw [MessageDescriptor.offences, ofEnums, inner, ofFields]
    rfl

theorem nestedOffences_eq_nil_of_visits
    (sound : ∀ around fullName m, file.Visits around fullName m → m.Sound types around fullName) :
    (around : List Text) → (fullName : Text) → (nested : List MessageDescriptor) →
    (∀ m ∈ nested, m.mapEntry = false → file.Visits around (fullName ++ "." ++ m.name) m) →
    MessageDescriptor.nestedOffences types around fullName nested = []
  | _, _, [], _ => by rw [MessageDescriptor.nestedOffences]
  | around, fullName, m :: rest, visited => by
    have others := nestedOffences_eq_nil_of_visits sound around fullName rest
      fun inner member => visited inner (List.mem_cons_of_mem m member)
    rw [MessageDescriptor.nestedOffences, others, List.append_nil]
    cases isEntry : m.mapEntry with
    | true => rfl
    | false =>
      exact offences_eq_nil_of_visits sound around _ m (visited m List.mem_cons_self isEntry)

end

/-- A file has no offence exactly when every visited message is sound. -/
theorem offences_eq_nil_iff :
    file.offences types = [] ↔
      ∀ around fullName m, file.Visits around fullName m → m.Sound types around fullName := by
  constructor
  · intro nothing around fullName m visited
    have none : m.offences types around fullName ⊆ file.offences types := visited.subset_offences
    rw [nothing, List.subset_nil, m.offences_eq, List.append_eq_nil_iff,
      List.append_eq_nil_iff] at none
    exact MessageDescriptor.sound_iff.mpr ⟨none.1.1, none.2⟩
  · intro sound
    rw [offences, List.flatMap_eq_nil_iff]
    intro m member
    exact offences_eq_nil_of_visits sound [] _ m (.top member)

end FileDescriptor

end Protoclass
