import Protoclass.Proofs.Faults.Emission
import Protoclass.Proofs.Layout.Classes

/-!
# Places of classes in the code of a file

The code of a file is that of its enums, of its messages and of its services, and
the code of a message holds that of the messages inside it.  The place of a class
is what emission writes before it.  Every class statement stands at its place, and
the places of the enums of a file lie before those of its messages.
-/

namespace Protoclass

open Docstring (indent)

namespace ClassCode

/-! ## The code of a message -/

/-- The decorator, the class statement and the docstring of a message. -/
def messageHead (cursor : Cursor) (m : MessageDescriptor) : Text :=
  (openClass cursor.depth cursor.comment ["@_dc.dataclass", "class " ++ m.name ++ ":"]).text

/-- The cursor at the first child of a field inside the declaration that a cursor
points at. -/
def inner (cursor : Cursor) (field : Int) : Cursor :=
  Cursor.under cursor.scope field (cursor.depth + 1)

/-- The code of each enum declared in a message. -/
def enumCodes (cursor : Cursor) (scope fullName : Text) (m : MessageDescriptor) :
    Except Fault (List Text) :=
  m.enums.zipIdx.mapM fun (e, i) =>
    (emitEnum ((inner cursor FieldNumber.messageEnum).step i) (innerScope scope m.name)
      (fullName ++ "." ++ e.name) e).result

/-- The code of a message declared in a message; a map entry has none. -/
def nestedCode (code : ClassCode) (cursor : Cursor) (scope fullName : Text)
    (entry : MessageDescriptor × Nat) : Except Fault Text :=
  if entry.1.mapEntry then .ok []
  else (emitMessage code (cursor.step entry.2) scope (fullName ++ "." ++ entry.1.name)
    entry.1).result

/-- The code of each message declared in a message. -/
def nestedCodes (code : ClassCode) (cursor : Cursor) (scope fullName : Text)
    (m : MessageDescriptor) : Except Fault (List Text) :=
  m.nested.zipIdx.mapM (nestedCode code (inner cursor FieldNumber.messageNested)
    (innerScope scope m.name) fullName)

theorem result_emitNested_eq (code : ClassCode) (cursor : Cursor) (scope fullName : Text)
    (i : Nat) (nested : List MessageDescriptor) :
    (emitNested code cursor scope fullName i nested).result =
      List.flatten <$> (nested.zipIdx i).mapM (nestedCode code cursor scope fullName) := by
  induction nested generalizing i with
  | nil =>
    rw [emitNested]
    rfl
  | cons m rest ih =>
    have step : (emitNested code cursor scope fullName i (m :: rest)).result =
        nestedCode code cursor scope fullName (m, i) >>= fun text =>
          (emitNested code cursor scope fullName (i + 1) rest).result >>= fun more =>
            .ok (text ++ more) := by
      rw [emitNested]
      unfold nestedCode
      split <;> simp only [Logged.result_bind, Logged.result_pure]
    rw [step, ih, List.zipIdx_cons, List.mapM_cons]
    cases nestedCode code cursor scope fullName (m, i) with
    | error fault => rfl
    | ok text => cases (rest.zipIdx (i + 1)).mapM (nestedCode code cursor scope fullName) <;> rfl

/-- The code of a message is its head, the code of what is declared inside it, and
its members. -/
theorem exists_eq_of_emitMessage {code : ClassCode} {cursor : Cursor} {scope fullName text : Text}
    {m : MessageDescriptor} (emitted : (emitMessage code cursor scope fullName m).result = .ok text) :
    ∃ enums nested body, enumCodes cursor scope fullName m = .ok enums ∧
      nestedCodes code cursor scope fullName m = .ok nested ∧
      members code (cursor.depth + 1) m fullName
        ((inner cursor FieldNumber.messageField).documented m.fields) = .ok body ∧
      text = messageHead cursor m ++ enums.flatten ++ nested.flatten ++ body := by
  cases m with
  | mk name fields nested enums mapEntry =>
    rw [emitMessage] at emitted
    simp only [Logged.result_bind, Logged.result_debug, Logged.result_mapM, Logged.result_lift,
      Logged.result_pure, Result.ok_bind, result_emitNested_eq] at emitted
    obtain ⟨enumTexts, ofEnums, emitted⟩ := Result.bind_eq_ok_iff.mp emitted
    obtain ⟨inside, ofNested, emitted⟩ := Result.bind_eq_ok_iff.mp emitted
    obtain ⟨body, ofMembers, emitted⟩ := Result.bind_eq_ok_iff.mp emitted
    obtain ⟨nestedTexts, ofEach, rfl⟩ := Result.map_eq_ok_iff.mp ofNested
    exact ⟨enumTexts, nestedTexts, body, ofEnums, ofEach, ofMembers, (Except.ok.inj emitted).symm⟩

/-! ## Class statements -/

/-- The class statement of an enum. -/
def enumStatement (e : EnumDescriptor) : Text :=
  "class " ++ e.name ++ "(_enum.Enum):"

/-- The class statement of a message. -/
def messageStatement (m : MessageDescriptor) : Text :=
  "class " ++ m.name ++ ":"

/-- A class statement ends in a colon. -/
theorem getLast?_enumStatement (e : EnumDescriptor) : (enumStatement e).getLast? = some 58 := by
  have closing : (Text.ofString "(_enum.Enum):").getLast? = some 58 := rfl
  rw [enumStatement, List.getLast?_append, closing, Option.some_or]

theorem getLast?_messageStatement (m : MessageDescriptor) :
    (messageStatement m).getLast? = some 58 := by
  have closing : (Text.ofString ":").getLast? = some 58 := rfl
  rw [messageStatement, List.getLast?_append, closing, Option.some_or]

/-- What stands before the class statement of a message at a depth. -/
def decorator (depth : Int) : Text :=
  indent depth ++ "@_dc.dataclass\n" ++ indent depth

theorem statement_prefix_enumClass {depth : Int} (nonneg : 0 ≤ depth) (comment : Text)
    (e : EnumDescriptor) (values : List (EnumValue × Text)) :
    indent depth ++ (enumStatement e ++ [Text.newline]) <+:
      enumClass depth comment e.name values := by
  have nonempty : ∀ line ∈ [("class " ++ e.name ++ "(_enum.Enum):" : Text)], line ≠ [] := by
    simp [Text.ofString]
  obtain ⟨lines, written⟩ : ∃ lines, enumClass depth comment e.name values =
      Text.ofLines ((indent depth ++ enumStatement e) :: lines) := by
    rw [enumClass, openClass_eq_ready nonneg comment nonempty]
    cases values with
    | nil => exact ⟨_, congrArg Writer.text pass_ready⟩
    | cons value rest =>
      exact ⟨_, congrArg Writer.text (foldl_ready (valueOutline (depth + 1)) writeValue_ready _ _)⟩
  rw [written, Text.ofLines_cons]
  exact ⟨Text.ofLines lines, by simp⟩

theorem statement_prefix_messageHead {cursor : Cursor} (nonneg : 0 ≤ cursor.depth)
    (m : MessageDescriptor) :
    decorator cursor.depth ++ (messageStatement m ++ [Text.newline]) <+: messageHead cursor m := by
  have nonempty : ∀ line ∈ [Text.ofString "@_dc.dataclass", "class " ++ m.name ++ ":"],
      line ≠ [] := by
    simp [Text.ofString]
  rw [messageHead, openClass_eq_ready nonneg cursor.comment nonempty]
  have ended : Text.ofString "@_dc.dataclass\n" =
      Text.ofString "@_dc.dataclass" ++ [Text.newline] := rfl
  refine ⟨Text.ofLines (docLines cursor.comment (cursor.depth + 1)), ?_⟩
  simp [ready, Text.ofLines_cons, decorator, messageStatement, ended]

end ClassCode

/-! ## The code of a file -/

namespace FileDescriptor

/-- The code of each enum of a file. -/
def enumCodes (file : FileDescriptor) : Except Fault (List Text) :=
  file.enums.zipIdx.mapM fun (e, i) =>
    (ClassCode.emitEnum ((Cursor.under file.locations FieldNumber.fileEnum 0).step i) []
      (qualify file.package e.name) e).result

/-- The code of each message of a file. -/
def messageCodes (types : TypeIndex) (file : FileDescriptor) : Except Fault (List Text) :=
  file.messages.zipIdx.mapM fun (m, i) =>
    (ClassCode.emitMessage { package := file.package, types }
      ((Cursor.under file.locations FieldNumber.fileMessage 0).step i) []
      (qualify file.package m.name) m).result

theorem exists_eq_of_emit {types : TypeIndex} {file : FileDescriptor} {text : Text}
    (emitted : (file.emit types).result = .ok text) :
    ∃ enums messages rest, file.enumCodes = .ok enums ∧ file.messageCodes types = .ok messages ∧
      text = Text.join "\n" enums ++ "\n" ++ (Text.join "\n" messages ++ rest) := by
  rw [emit] at emitted
  simp only [ClassCode.emit, Logged.result_bind, Logged.result_debug, Logged.result_mapM,
    Logged.result_pure, Result.ok_bind] at emitted
  obtain ⟨enums, ofEnums, emitted⟩ := Result.bind_eq_ok_iff.mp emitted
  obtain ⟨messages, ofMessages, emitted⟩ := Result.bind_eq_ok_iff.mp emitted
  obtain ⟨services, -, emitted⟩ := Result.bind_eq_ok_iff.mp emitted
  refine ⟨enums, messages, "\n" ++ Text.join "\n" services ++ "\n", ofEnums, ofMessages, ?_⟩
  rw [← Except.ok.inj emitted]
  simp only [List.append_assoc]

/-! ## Places -/

/-- Emission writes the class of the enum `e` of a file behind `before`. -/
def EnumPlace (file : FileDescriptor) (e : EnumDescriptor) (before : Text) : Prop :=
  ∃ k enums, file.enums[k]? = some e ∧ file.enumCodes = .ok enums ∧
    before = Text.ofLines (enums.take k)

/-- Emission writes the class of a message behind `before`, visiting it with a cursor,
a scope and its full name. -/
inductive MessagePlace (types : TypeIndex) (file : FileDescriptor) :
    Cursor → (scope fullName : Text) → MessageDescriptor → (before : Text) → Prop
  | top {r : Nat} {m : MessageDescriptor} {enums messages : List Text}
      (declared : file.messages[r]? = some m) (ofEnums : file.enumCodes = .ok enums)
      (ofMessages : file.messageCodes types = .ok messages) :
      MessagePlace types file ((Cursor.under file.locations FieldNumber.fileMessage 0).step r) []
        (qualify file.package m.name) m
        (Text.join "\n" enums ++ "\n" ++ Text.ofLines (messages.take r))
  | nested {cursor : Cursor} {scope fullName before : Text} {m inner : MessageDescriptor} {r : Nat}
      {enums nested : List Text} (outer : MessagePlace types file cursor scope fullName m before)
      (declared : m.nested[r]? = some inner) (isOwn : inner.mapEntry = false)
      (ofEnums : ClassCode.enumCodes cursor scope fullName m = .ok enums)
      (ofNested : ClassCode.nestedCodes { package := file.package, types } cursor scope fullName m =
        .ok nested) :
      MessagePlace types file ((ClassCode.inner cursor FieldNumber.messageNested).step r)
        (ClassCode.innerScope scope m.name) (fullName ++ "." ++ inner.name) inner
        (before ++ (ClassCode.messageHead cursor m ++ enums.flatten ++ (nested.take r).flatten))

section

variable {types : TypeIndex} {file : FileDescriptor} {text : Text}

/-- The class statement of an enum stands at its place, as a line. -/
theorem EnumPlace.line_among {e : EnumDescriptor} {before : Text} {enums : List Text}
    (place : file.EnumPlace e before) (ofEnums : file.enumCodes = .ok enums) :
    before ++ (ClassCode.enumStatement e ++ [Text.newline]) <+: Text.join "\n" enums := by
  obtain ⟨k, enums', declared, ofEnums', rfl⟩ := place
  cases ofEnums.symm.trans ofEnums'
  obtain ⟨own, found, written⟩ := Result.exists_getElem?_of_mapM_zipIdx_eq_ok ofEnums declared
  refine List.IsPrefix.trans ?_ (Text.ofLines_take_append_prefix_join found)
  rw [List.prefix_append_right_inj]
  cases written
  exact ClassCode.statement_prefix_enumClass (Int.le_refl 0) _ e _

theorem EnumPlace.line_stands {e : EnumDescriptor} {before : Text}
    (place : file.EnumPlace e before) (emitted : (file.emit types).result = .ok text) :
    before ++ (ClassCode.enumStatement e ++ [Text.newline]) <+: text := by
  obtain ⟨enums, messages, rest, ofEnums, -, rfl⟩ := exists_eq_of_emit emitted
  rw [List.append_assoc]
  exact (place.line_among ofEnums).trans (List.prefix_append _ _)

/-- What stands in a line stands without its end. -/
theorem stands_of_line {before statement text : Text}
    (line : before ++ (statement ++ [Text.newline]) <+: text) : before ++ statement <+: text := by
  rw [← List.append_assoc] at line
  exact (List.prefix_append _ _).trans line

theorem EnumPlace.stands {e : EnumDescriptor} {before : Text} (place : file.EnumPlace e before)
    (emitted : (file.emit types).result = .ok text) :
    before ++ ClassCode.enumStatement e <+: text :=
  stands_of_line (place.line_stands emitted)

theorem MessagePlace.depth_nonneg {cursor : Cursor} {scope fullName before : Text}
    {m : MessageDescriptor} (place : file.MessagePlace types cursor scope fullName m before) :
    0 ≤ cursor.depth := by
  induction place with
  | top => exact Int.le_refl 0
  | nested _ _ _ _ _ ih => exact Int.le_add_one ih

/-- The code of a message stands at its place. -/
theorem MessagePlace.code_stands {cursor : Cursor} {scope fullName before : Text}
    {m : MessageDescriptor} (place : file.MessagePlace types cursor scope fullName m before)
    (emitted : (file.emit types).result = .ok text) :
    ∃ own, (ClassCode.emitMessage { package := file.package, types } cursor scope fullName
      m).result = .ok own ∧ before ++ own <+: text := by
  induction place with
  | @top r m enums messages declared ofEnums ofMessages =>
    obtain ⟨enums', messages', rest, ofEnums', ofMessages', rfl⟩ := exists_eq_of_emit emitted
    cases ofEnums.symm.trans ofEnums'
    cases ofMessages.symm.trans ofMessages'
    obtain ⟨own, found, written⟩ := Result.exists_getElem?_of_mapM_zipIdx_eq_ok ofMessages declared
    refine ⟨own, written, ?_⟩
    rw [List.append_assoc, List.prefix_append_right_inj]
    exact (Text.ofLines_take_append_prefix_join found).trans (List.prefix_append _ _)
  | @nested cursor scope fullName before m inner r enums nested _ declared isOwn ofEnums ofNested ih =>
    obtain ⟨outer, writtenOuter, stands⟩ := ih
    obtain ⟨enums', nested', body, ofEnums', ofNested', -, rfl⟩ :=
      ClassCode.exists_eq_of_emitMessage writtenOuter
    cases ofEnums.symm.trans ofEnums'
    cases ofNested.symm.trans ofNested'
    obtain ⟨own, found, written⟩ := Result.exists_getElem?_of_mapM_zipIdx_eq_ok ofNested declared
    rw [ClassCode.nestedCode, if_neg (by simp [isOwn])] at written
    refine ⟨own, written, List.IsPrefix.trans ?_ stands⟩
    simp only [List.append_assoc, List.prefix_append_right_inj]
    exact (Text.flatten_take_append_isPrefix found).trans (List.prefix_append _ _)

/-- The class statement of a message stands at its place, as a line behind the decorator. -/
theorem MessagePlace.line_stands {cursor : Cursor} {scope fullName before : Text}
    {m : MessageDescriptor} (place : file.MessagePlace types cursor scope fullName m before)
    (emitted : (file.emit types).result = .ok text) :
    before ++ ClassCode.decorator cursor.depth ++
      (ClassCode.messageStatement m ++ [Text.newline]) <+: text := by
  obtain ⟨own, written, stands⟩ := place.code_stands emitted
  obtain ⟨enums, nested, body, -, -, -, rfl⟩ := ClassCode.exists_eq_of_emitMessage written
  refine List.IsPrefix.trans ?_ stands
  rw [List.append_assoc, List.prefix_append_right_inj, List.append_assoc, List.append_assoc]
  exact (ClassCode.statement_prefix_messageHead place.depth_nonneg m).trans (List.prefix_append _ _)

theorem MessagePlace.stands {cursor : Cursor} {scope fullName before : Text}
    {m : MessageDescriptor} (place : file.MessagePlace types cursor scope fullName m before)
    (emitted : (file.emit types).result = .ok text) :
    before ++ ClassCode.decorator cursor.depth ++ ClassCode.messageStatement m <+: text :=
  stands_of_line (place.line_stands emitted)

/-- The enums of a file are written before its messages. -/
theorem MessagePlace.enums_isPrefix {cursor : Cursor} {scope fullName before : Text}
    {m : MessageDescriptor} (place : file.MessagePlace types cursor scope fullName m before) :
    ∃ enums, file.enumCodes = .ok enums ∧ Text.join "\n" enums <+: before := by
  induction place with
  | @top _ _ enums messages _ ofEnums _ =>
    refine ⟨enums, ofEnums, ?_⟩
    rw [List.append_assoc]
    exact List.prefix_append _ _
  | nested _ _ _ _ _ ih =>
    obtain ⟨enums, ofEnums, behind⟩ := ih
    exact ⟨enums, ofEnums, behind.trans (List.prefix_append _ _)⟩

/-! ## Order -/

/-- Before a text that goes on there is less than with it. -/
theorem length_lt_of_stands {before statement text : Text} {last : UInt8}
    (stands : before ++ statement <+: text) (ends : statement.getLast? = some last) :
    before.length < text.length := by
  have pos : 0 < statement.length := by
    rw [List.length_pos_iff]
    rintro rfl
    contradiction
  have within := stands.length_le
  rw [List.length_append] at within
  omega

theorem EnumPlace.length_lt {e : EnumDescriptor} {before : Text} (place : file.EnumPlace e before)
    (emitted : (file.emit types).result = .ok text) : before.length < text.length :=
  length_lt_of_stands (place.stands emitted) (ClassCode.getLast?_enumStatement e)

theorem MessagePlace.length_lt {cursor : Cursor} {scope fullName before : Text}
    {m : MessageDescriptor} (place : file.MessagePlace types cursor scope fullName m before)
    (emitted : (file.emit types).result = .ok text) :
    (before ++ ClassCode.decorator cursor.depth).length < text.length :=
  length_lt_of_stands (place.stands emitted) (ClassCode.getLast?_messageStatement m)

/-- The place of an enum of a file lies before that of a message of the file. -/
theorem EnumPlace.lt_messagePlace {e : EnumDescriptor} {before before' : Text} {cursor : Cursor}
    {scope fullName : Text} {m : MessageDescriptor} (place : file.EnumPlace e before)
    (place' : file.MessagePlace types cursor scope fullName m before') :
    before.length < before'.length := by
  obtain ⟨enums, ofEnums, behind⟩ := place'.enums_isPrefix
  exact length_lt_of_stands ((stands_of_line (place.line_among ofEnums)).trans behind)
    (ClassCode.getLast?_enumStatement e)

/-! ## Existence -/

theorem exists_enumPlace {e : EnumDescriptor} (declared : e ∈ file.enums)
    (emitted : (file.emit types).result = .ok text) : ∃ before, file.EnumPlace e before := by
  obtain ⟨k, found⟩ := List.mem_iff_getElem?.mp declared
  obtain ⟨enums, -, -, ofEnums, -⟩ := exists_eq_of_emit emitted
  exact ⟨_, k, enums, found, ofEnums, rfl⟩

/-- Every message that emission visits has a place. -/
theorem Visits.exists_place {around : List Text} {fullName : Text} {m : MessageDescriptor}
    (visited : file.Visits around fullName m) (emitted : (file.emit types).result = .ok text) :
    ∃ cursor scope before, file.MessagePlace types cursor scope fullName m before := by
  induction visited with
  | top member =>
    obtain ⟨r, declared⟩ := List.mem_iff_getElem?.mp member
    obtain ⟨enums, messages, -, ofEnums, ofMessages, -⟩ := exists_eq_of_emit emitted
    exact ⟨_, _, _, .top declared ofEnums ofMessages⟩
  | nested _ member isOwn ih =>
    obtain ⟨cursor, scope, before, outer⟩ := ih
    obtain ⟨own, written, -⟩ := outer.code_stands emitted
    obtain ⟨enums, nested, -, ofEnums, ofNested, -⟩ := ClassCode.exists_eq_of_emitMessage written
    obtain ⟨r, declared⟩ := List.mem_iff_getElem?.mp member
    exact ⟨_, _, _, outer.nested declared isOwn ofEnums ofNested⟩

end

end FileDescriptor

end Protoclass
