import Protoclass.Proofs.Faults.Emission

/-!
# The words of declarations

What a declaration gives to the lines of its class: its names and its type
references, and for the defaults of enum fields the names of the enums' first
values.  When none of them has a line end, neither has a type hint, a default or a
number, so that each is written in one line.
-/

namespace Protoclass

open Text (newline)

/-! ## Names and references -/

def EnumDescriptor.words (e : EnumDescriptor) : List Text :=
  e.name :: e.values.map EnumValue.name

def FieldDescriptor.words (field : FieldDescriptor) : List Text :=
  [field.name, field.typeName]

def MethodDescriptor.words (method : MethodDescriptor) : List Text :=
  [method.name, method.inputType, method.outputType]

def ServiceDescriptor.words (s : ServiceDescriptor) : List Text :=
  s.name :: s.methods.flatMap MethodDescriptor.words

mutual

/-- The names and references of a message and of all that is declared inside
it. -/
def MessageDescriptor.words : MessageDescriptor → List Text
  | ⟨name, fields, nested, enums, _⟩ =>
    name :: (fields.flatMap FieldDescriptor.words ++ MessageDescriptor.allWords nested
      ++ enums.flatMap EnumDescriptor.words)

def MessageDescriptor.allWords : List MessageDescriptor → List Text
  | [] => []
  | m :: rest => m.words ++ MessageDescriptor.allWords rest

end

def Declaration.words : Declaration → List Text
  | .enum e => e.words
  | .message m => m.words
  | .service s => s.words

theorem MessageDescriptor.mem_allWords {messages : List MessageDescriptor} {word : Text} :
    word ∈ MessageDescriptor.allWords messages ↔ ∃ m ∈ messages, word ∈ m.words := by
  induction messages with
  | nil => simp [allWords]
  | cons m rest ih => simp [allWords, ih]

theorem MessageDescriptor.typeName_mem_words {m : MessageDescriptor} {field : FieldDescriptor}
    (member : field ∈ m.fields) : field.typeName ∈ m.words := by
  obtain ⟨name, fields, nested, enums, mapEntry⟩ := m
  have among : field.typeName ∈ fields.flatMap FieldDescriptor.words :=
    List.mem_flatMap.mpr ⟨field, member, by simp [FieldDescriptor.words]⟩
  rw [words]
  simp only [List.mem_cons, List.mem_append]
  exact .inr (.inl (.inl among))

/-! ## Names in defaults -/

/-- The name of the enum value that the default of a field prints. -/
def FieldDescriptor.defaultName? (types : TypeIndex) (field : FieldDescriptor) : Option Text :=
  if field.HasEnumDefault then
    match types.lookup field.typeName with
    | some (.enum e) => e.values.head?.map EnumValue.name
    | _ => none
  else none

mutual

/-- The names of the enum values that defaults print, in the class of a message and in
the classes inside it.  A map entry has no class. -/
def MessageDescriptor.defaultNames (types : TypeIndex) : MessageDescriptor → List Text
  | ⟨_, fields, nested, _, _⟩ =>
    fields.filterMap (FieldDescriptor.defaultName? types)
      ++ MessageDescriptor.allDefaultNames types nested

def MessageDescriptor.allDefaultNames (types : TypeIndex) : List MessageDescriptor → List Text
  | [] => []
  | m :: rest =>
    (if m.mapEntry then [] else m.defaultNames types)
      ++ MessageDescriptor.allDefaultNames types rest

end

def Declaration.defaultNames (types : TypeIndex) : Declaration → List Text
  | .message m => m.defaultNames types
  | .enum _ | .service _ => []

/-! ## What is written of them -/

theorem newline_notMem_ofNat (n : Nat) : newline ∉ Text.ofNat n := by
  intro member
  obtain ⟨c, among, code⟩ := List.mem_map.mp member
  have digit := Nat.isDigit_of_mem_toDigits (by decide) (by decide) among
  have range : 48 ≤ c.val.toNat ∧ c.val.toNat ≤ 57 := by
    simpa [Char.isDigit, UInt32.le_iff_toNat_le] using digit
  have low : c.val.toNat % 256 = 10 := congrArg UInt8.toNat code
  omega

theorem newline_notMem_ofInt (n : Int) : newline ∉ Text.ofInt n := by
  cases n with
  | ofNat n => exact newline_notMem_ofNat n
  | negSucc n =>
    rw [Text.ofInt, List.mem_append, not_or]
    exact ⟨by decide, newline_notMem_ofNat (n + 1)⟩

namespace TypeHint

theorem typeName_suffix (package reference : Text) : typeName package reference <:+ reference := by
  unfold typeName
  dsimp only
  refine (Text.dropLead_suffix _ _).trans ?_
  split
  · exact Text.dropLead_suffix reference "."
  · exact (Text.dropLead_suffix _ _).trans (Text.dropLead_suffix reference ".")

variable {package : Text} {field : FieldDescriptor}

theorem newline_notMem_typeName {reference : Text} (oneLine : newline ∉ reference) :
    newline ∉ typeName package reference :=
  fun member => oneLine ((typeName_suffix package reference).subset member)

theorem newline_notMem_primitive? {code : Int} {hint : Text} (known : primitive? code = some hint) :
    newline ∉ hint := by
  unfold primitive? at known
  split at known
  all_goals cases known
  all_goals decide

theorem newline_notMem_baseType {hint : Text} (oneLine : newline ∉ field.typeName)
    (hinted : baseType package field = .ok hint) : newline ∉ hint := by
  unfold baseType at hinted
  split at hinted
  case h_1 | h_2 =>
    cases hinted
    exact newline_notMem_typeName oneLine
  case h_3 =>
    split at hinted
    case h_1 known =>
      cases hinted
      exact newline_notMem_primitive? known
    case h_2 => contradiction

/-- A bracketed hint has a line end only if what is in the brackets has one. -/
theorem newline_notMem_hint {shape : FieldShape} {hint : Text}
    (oneLine : newline ∉ field.typeName)
    (entries : ∀ entry, shape.cardinality = .map entry →
      ∀ inner ∈ entry.fields, newline ∉ inner.typeName)
    (hinted : TypeHint.hint package field shape = .ok hint) : newline ∉ hint := by
  unfold TypeHint.hint at hinted
  split at hinted
  case h_1 entry cardinality =>
    have ofEntry := entries entry cardinality
    unfold mapType at hinted
    split at hinted
    case h_1 key value _ fields =>
      rw [fields] at ofEntry
      obtain ⟨keyHint, keyHinted, hinted⟩ := Result.bind_eq_ok_iff.mp hinted
      obtain ⟨valueHint, valueHinted, hinted⟩ := Result.bind_eq_ok_iff.mp hinted
      cases hinted
      have ofKey := newline_notMem_baseType (ofEntry key (by simp)) keyHinted
      have ofValue := newline_notMem_baseType (ofEntry value (by simp)) valueHinted
      simp only [List.mem_append, not_or]
      exact ⟨⟨⟨⟨by decide, ofKey⟩, by decide⟩, ofValue⟩, by decide⟩
    case h_2 => contradiction
  case h_2 | h_3 | h_4 =>
    obtain ⟨base, based, hinted⟩ := Result.bind_eq_ok_iff.mp hinted
    cases hinted
    simp only [List.mem_append, not_or]
    exact ⟨⟨by decide, newline_notMem_baseType oneLine based⟩, by decide⟩
  case h_5 => exact newline_notMem_baseType oneLine hinted

theorem newline_notMem_enumDefault {types : TypeIndex} {value : Text}
    (oneLine : newline ∉ field.typeName) (defaulted : field.HasEnumDefault)
    (printed : ∀ name ∈ field.defaultName? types, newline ∉ name)
    (made : enumDefault package field types = .ok value) : newline ∉ value := by
  unfold enumDefault at made
  split at made
  case h_1 e found =>
    split at made
    case h_1 first _ values =>
      cases made
      have ofFirst := printed first.name (by
        simp [FieldDescriptor.defaultName?, defaulted, found, values])
      simp only [List.mem_append, not_or]
      exact ⟨⟨newline_notMem_typeName oneLine, by decide⟩, ofFirst⟩
    case h_2 => contradiction
  case h_2 => contradiction

theorem newline_notMem_defaultValue {message : MessageDescriptor} {fullName : Text}
    {types : TypeIndex} {value : Text} (oneLine : newline ∉ field.typeName)
    (printed : ∀ name ∈ field.defaultName? types, newline ∉ name)
    (made : defaultValue package field (FieldShape.of field message fullName) types = .ok value) :
    newline ∉ value := by
  unfold defaultValue at made
  split at made
  case h_5 singular =>
    split at made
    case h_1 isEnum =>
      have shape : FieldShape.of field message fullName = ⟨.enum, .singular⟩ :=
        FieldShape.mk.injEq .. |>.mpr ⟨isEnum, singular⟩
      exact newline_notMem_enumDefault oneLine (FieldShape.of_eq_singular_enum_iff.mp shape) printed
        made
    all_goals
      cases made
      decide
  all_goals
    cases made
    decide

end TypeHint

/-- The entry message of a map field is declared in the field's message. -/
theorem FieldShape.mem_nested_of_map {field : FieldDescriptor} {message entry : MessageDescriptor}
    {fullName : Text} (mapped : (FieldShape.of field message fullName).cardinality = .map entry) :
    entry ∈ message.nested := by
  simp only [FieldShape.of, cardinalityOf] at mapped
  split at mapped
  · split at mapped
    case h_1 found =>
      cases mapped
      unfold mapEntry? at found
      split at found
      · exact List.mem_of_find?_eq_some found
      · contradiction
    case h_2 => contradiction
  · split at mapped
    · contradiction
    · split at mapped <;> contradiction

end Protoclass
