import Protoclass.Proofs.Wire.Message

/-!
# Writing records

`Record.writeAll` writes the records of a message one after another.  Records
that fit a message's schema, and whose bytes have a length of 64 bits, are read
back as they are, however deep messages lie in them, unless that is deeper than
the reader allows.
-/

namespace Protoclass.Wire

mutual

/-- The bytes of a record; those of a skipped one are not known. -/
def Record.write : Record → Text
  | .varint number value => numberField number value
  | .packed number values => textField number (values.flatMap Wire.varint)
  | .text number bytes => textField number bytes
  | .message number records => textField number (Record.writeAll records)
  | .skipped _ => []

/-- The bytes of records, one after another. -/
def Record.writeAll : List Record → Text
  | [] => []
  | record :: records => record.write ++ Record.writeAll records

end

theorem Record.writeAll_append (records others : List Record) :
    Record.writeAll (records ++ others) = Record.writeAll records ++ Record.writeAll others := by
  induction records with
  | nil => rw [Record.writeAll, List.nil_append, List.nil_append]
  | cons record records ih =>
    rw [List.cons_append, Record.writeAll, Record.writeAll, ih, List.append_assoc]

/-- A number that a field can have. -/
def IsFieldNumber (number : Nat) : Prop := 0 < number ∧ number ≤ maxFieldNumber

instance (number : Nat) : Decidable (IsFieldNumber number) :=
  inferInstanceAs (Decidable (_ ∧ _))

/-- Records that a message of a type can be written from: every value stands in a
field that can hold it. -/
inductive Fits : MessageType → List Record → Prop where
  | nil {type : MessageType} : Fits type []
  | varint {type : MessageType} {number value : Nat} {records : List Record}
    (numbered : IsFieldNumber number) (bounded : value < 2 ^ 64) (more : Fits type records) :
    Fits type (.varint number value :: records)
  | text {type : MessageType} {number : Nat} {bytes : Text} {records : List Record}
    (numbered : IsFieldNumber number) (plain : type.part? number = none)
    (more : Fits type records) : Fits type (.text number bytes :: records)
  | packed {type : MessageType} {number : Nat} {values : List Nat} {records : List Record}
    (numbered : IsFieldNumber number) (integers : type.part? number = some .integers)
    (bounded : ∀ value ∈ values, value < 2 ^ 64) (more : Fits type records) :
    Fits type (.packed number values :: records)
  | message {type inner : MessageType} {number : Nat} {held records : List Record}
    (numbered : IsFieldNumber number) (isMessage : type.part? number = some (.message inner))
    (fits : Fits inner held) (complete : inner.isComplete held) (more : Fits type records) :
    Fits type (.message number held :: records)

theorem Fits.append {type : MessageType} {records others : List Record}
    (fits : Fits type records) (more : Fits type others) : Fits type (records ++ others) := by
  induction fits with
  | nil => exact more
  | varint numbered bounded _ ih => exact .varint numbered bounded (ih more)
  | text numbered plain _ ih => exact .text numbered plain (ih more)
  | packed numbered integers bounded _ ih => exact .packed numbered integers bounded (ih more)
  | message numbered isMessage fits complete _ _ ih =>
    exact .message numbered isMessage fits complete (ih more)

/-- A repeated field of messages fits if each of its messages does. -/
theorem fits_map_message {α : Type} {type inner : MessageType} {number : Nat}
    {toRecords : α → List Record} {values : List α} (numbered : IsFieldNumber number)
    (isMessage : type.part? number = some (.message inner))
    (each : ∀ value ∈ values, Fits inner (toRecords value) ∧ inner.isComplete (toRecords value)) :
    Fits type (values.map fun value => .message number (toRecords value)) := by
  induction values with
  | nil => exact .nil
  | cons value values ih =>
    rcases each value List.mem_cons_self with ⟨fits, complete⟩
    exact .message numbered isMessage fits complete
      (ih fun other member => each other (List.mem_cons_of_mem value member))

/-- A repeated field of texts fits. -/
theorem fits_map_text {type : MessageType} {number : Nat} (values : List Text)
    (numbered : IsFieldNumber number) (plain : type.part? number = none) :
    Fits type (values.map (.text number)) := by
  induction values with
  | nil => exact .nil
  | cons value values ih => exact .text numbered plain ih

/-! ## Bytes of records -/

theorem isTag_tag {number form : Nat} (numbered : IsFieldNumber number) (form_lt : form < 8) :
    IsTag maxFieldNumber number form (tag number form) := by
  rcases numbered with ⟨pos, le⟩
  refine ⟨pos, le, form_lt, isVarint_varint ?_⟩
  have bound : maxFieldNumber = 536870911 := rfl
  omega

theorem isSized_length {body : Text} (short : body.length < 2 ^ 64) :
    IsSized body (Wire.varint body.length ++ body) :=
  ⟨Wire.varint body.length, rfl, isVarint_varint short⟩

theorem length_le_length_textField (number : Nat) (body : Text) :
    body.length ≤ (textField number body).length := by
  simp only [textField, List.length_append]
  omega

theorem length_textField_le (number : Nat) (body : Text) :
    (textField number body).length ≤ body.length + 20 := by
  have tagged := length_varint_le (8 * number + 2)
  have sized := length_varint_le body.length
  simp only [textField, tag, List.length_append]
  omega

theorem textField_append (number : Nat) (body rest : Text) :
    textField number body ++ rest
      = tag number 2 ++ ((Wire.varint body.length ++ body) ++ rest) := by
  simp [textField]

/-- Records that fit are a way to write a message. -/
theorem Fits.written {type : MessageType} {records : List Record} (fits : Fits type records)
    (short : (Record.writeAll records).length < 2 ^ 64) :
    Written type records (Record.writeAll records) := by
  induction fits with
  | nil => exact .nil
  | varint numbered bounded _ ih =>
    rw [Record.writeAll, List.length_append] at short
    rw [Record.writeAll, Record.write, numberField, List.append_assoc]
    exact .part (isTag_tag numbered (by decide)) (.varint (isVarint_varint bounded))
      (ih (by omega))
  | @text type number bytes records numbered plain _ ih =>
    rw [Record.writeAll, Record.write, List.length_append] at short
    have inside := length_le_length_textField number bytes
    rw [Record.writeAll, Record.write, textField_append]
    exact .part (isTag_tag numbered (by decide)) (.text plain (isSized_length (by omega)))
      (ih (by omega))
  | @packed type number values records numbered integers bounded _ ih =>
    rw [Record.writeAll, Record.write, List.length_append] at short
    have inside := length_le_length_textField number (values.flatMap Wire.varint)
    rw [Record.writeAll, Record.write, textField_append]
    exact .part (isTag_tag numbered (by decide))
      (.packed integers (areVarints_flatMap_varint bounded) (isSized_length (by omega)))
      (ih (by omega))
  | @message type inner number held records numbered isMessage _ complete _ heldIh moreIh =>
    rw [Record.writeAll, Record.write, List.length_append] at short
    have inside := length_le_length_textField number (Record.writeAll held)
    rw [Record.writeAll, Record.write, textField_append]
    exact .message (isTag_tag numbered (by decide)) isMessage (heldIh (by omega)) complete
      (isSized_length (by omega)) (moreIh (by omega))

/-- What is written from records that fit is read back, if messages do not lie too
deep in it. -/
theorem Fits.readRecords_writeAll {type : MessageType} {records : List Record}
    (fits : Fits type records) (short : (Record.writeAll records).length < 2 ^ 64)
    (nested : Record.nestingAll records < maxNesting) :
    readRecords type (Record.writeAll records) = some records :=
  readRecords_eq_some_iff.mpr ⟨fits.written short, nested⟩

end Protoclass.Wire
