import Protoclass.Proofs.Wire.Varint
import Protoclass.Wire.Record

/-!
# The form of a message

`Written type records bytes` says that bytes are a way to write a message: which
tags, values and groups may stand in it, and which records they give.  It says
nothing about how deep messages lie in one another; `Record.nesting` measures
that.  The reader takes exactly the bytes of this form whose messages lie no
deeper than it allows.
-/

namespace Protoclass.Wire

/-! ## Tags and values -/

/-- Bytes are the start of a record with a number and a wire form. -/
structure IsTag (maxNumber number form : Nat) (bytes : Text) : Prop where
  pos : 0 < number
  le : number ≤ maxNumber
  form_lt : form < 8
  written : IsVarint (8 * number + form) bytes

/-- Bytes are the length of a text and the text. -/
def IsSized (body bytes : Text) : Prop :=
  ∃ front, bytes = front ++ body ∧ IsVarint body.length front

/-- Bytes are a value in a wire form that is not a group. -/
inductive IsValue : (form : Nat) → Text → Prop where
  | varint {n : Nat} {bytes : Text} (written : IsVarint n bytes) : IsValue 0 bytes
  | fixed64 {bytes : Text} (width : bytes.length = 8) : IsValue 1 bytes
  | sized {body bytes : Text} (written : IsSized body bytes) : IsValue 2 bytes
  | fixed32 {bytes : Text} (width : bytes.length = 4) : IsValue 5 bytes

theorem IsTag.length_pos {maxNumber number form : Nat} {bytes : Text}
    (written : IsTag maxNumber number form bytes) : 0 < bytes.length :=
  written.written.length_pos

theorem IsTag.append_ne_nil {maxNumber number form : Nat} {bytes : Text}
    (written : IsTag maxNumber number form bytes) (rest : Text) : bytes ++ rest ≠ [] :=
  List.append_ne_nil_of_left_ne_nil written.written.groups.ne_nil rest

theorem readTag_eq_some_iff {maxNumber number form : Nat} {bytes rest : Text} :
    readTag maxNumber bytes = some (number, form, rest) ↔
      ∃ front, bytes = front ++ rest ∧ IsTag maxNumber number form front := by
  simp only [readTag, Option.bind_eq_bind, Option.bind_eq_some_iff, Prod.exists]
  constructor
  · rintro ⟨n, after, read, checked⟩
    split at checked
    next => contradiction
    next valid =>
      cases checked
      rcases readVarint_eq_some_iff.mp read with ⟨front, same, written⟩
      refine ⟨front, same, by omega, by omega, by omega, ?_⟩
      rwa [show 8 * (n / 8) + n % 8 = n by omega]
  · rintro ⟨front, same, pos, le, form_lt, written⟩
    refine ⟨8 * number + form, rest, readVarint_eq_some_iff.mpr ⟨front, same, written⟩, ?_⟩
    have quotient : (8 * number + form) / 8 = number := by omega
    have remainder : (8 * number + form) % 8 = form := by omega
    rw [quotient, remainder, if_neg (by omega)]

theorem IsTag.read {maxNumber number form : Nat} {front : Text}
    (written : IsTag maxNumber number form front) (rest : Text) :
    readTag maxNumber (front ++ rest) = some (number, form, rest) :=
  readTag_eq_some_iff.mpr ⟨front, rfl, written⟩

theorem dropExactly_eq_some_iff {n : Nat} {bytes rest : Text} :
    dropExactly n bytes = some rest ↔ ∃ front, bytes = front ++ rest ∧ front.length = n := by
  unfold dropExactly
  constructor
  · intro dropped
    split at dropped
    next enough =>
      cases dropped
      exact ⟨bytes.take n, (List.take_append_drop n bytes).symm, List.length_take_of_le enough⟩
    next => contradiction
  · rintro ⟨front, rfl, rfl⟩
    simp

theorem readBytes_eq_some_iff {bytes body rest : Text} :
    readBytes bytes = some (body, rest) ↔ ∃ front, bytes = front ++ rest ∧ IsSized body front := by
  simp only [readBytes, Option.bind_eq_bind, Option.bind_eq_some_iff, Prod.exists]
  constructor
  · rintro ⟨n, after, read, checked⟩
    split at checked
    next enough =>
      cases checked
      rcases readVarint_eq_some_iff.mp read with ⟨front, same, written⟩
      refine ⟨front ++ after.take n, ?_, front, rfl, ?_⟩
      · rw [List.append_assoc, List.take_append_drop, same]
      · rwa [List.length_take_of_le enough]
    next => contradiction
  · rintro ⟨sized, same, front, rfl, written⟩
    refine ⟨body.length, body ++ rest, ?_, ?_⟩
    · exact readVarint_eq_some_iff.mpr ⟨front, by rw [same, List.append_assoc], written⟩
    · simp

theorem IsSized.read {body front : Text} (written : IsSized body front) (rest : Text) :
    readBytes (front ++ rest) = some (body, rest) :=
  readBytes_eq_some_iff.mpr ⟨front, rfl, written⟩

theorem IsSized.length_le {body bytes : Text} (written : IsSized body bytes) :
    body.length ≤ bytes.length := by
  rcases written with ⟨front, rfl, -⟩
  simp

theorem skipValue_eq_some_iff {form : Nat} {bytes rest : Text} :
    skipValue form bytes = some rest ↔ ∃ front, bytes = front ++ rest ∧ IsValue form front := by
  constructor
  · intro skipped
    unfold skipValue at skipped
    split at skipped
    · rcases Option.map_eq_some_iff.mp skipped with ⟨⟨n, after⟩, read, rfl⟩
      rcases readVarint_eq_some_iff.mp read with ⟨front, same, written⟩
      exact ⟨front, same, .varint written⟩
    · rcases dropExactly_eq_some_iff.mp skipped with ⟨front, same, width⟩
      exact ⟨front, same, .fixed64 width⟩
    · rcases Option.map_eq_some_iff.mp skipped with ⟨⟨body, after⟩, read, rfl⟩
      rcases readBytes_eq_some_iff.mp read with ⟨front, same, written⟩
      exact ⟨front, same, .sized written⟩
    · rcases dropExactly_eq_some_iff.mp skipped with ⟨front, same, width⟩
      exact ⟨front, same, .fixed32 width⟩
    · contradiction
  · rintro ⟨front, rfl, value⟩
    cases value with
    | varint written => exact Option.map_eq_some_iff.mpr ⟨_, written.read rest, rfl⟩
    | fixed64 width => exact dropExactly_eq_some_iff.mpr ⟨front, rfl, width⟩
    | sized written => exact Option.map_eq_some_iff.mpr ⟨_, written.read rest, rfl⟩
    | fixed32 width => exact dropExactly_eq_some_iff.mpr ⟨front, rfl, width⟩

/-! ## Groups -/

/-- Bytes are what stands between a group's start and its end, and the end; in it
other groups may be open, at most `room` at a time. -/
inductive IsGroup : (room number : Nat) → Text → Prop where
  | close {room number : Nat} {tag : Text} (ends : IsTag maxGroupNumber number 4 tag) :
    IsGroup room number tag
  | value {room number other form : Nat} {tag front rest : Text}
    (starts : IsTag maxGroupNumber other form tag) (value : IsValue form front)
    (more : IsGroup room number rest) : IsGroup room number (tag ++ (front ++ rest))
  | group {room number other : Nat} {tag front rest : Text}
    (starts : IsTag maxGroupNumber other 3 tag) (inner : IsGroup room other front)
    (more : IsGroup (room + 1) number rest) : IsGroup (room + 1) number (tag ++ (front ++ rest))

/-- Bytes are the rest of each open group, innermost first. -/
inductive AreGroups : (groups : List Nat) → Text → Prop where
  | nil : AreGroups [] []
  | cons {group : Nat} {outer : List Nat} {front rest : Text}
    (inner : IsGroup (maxOpenGroups - (outer.length + 1)) group front)
    (more : AreGroups outer rest) : AreGroups (group :: outer) (front ++ rest)

theorem areGroups_of_skipGroups {fuel : Nat} {groups : List Nat} {bytes rest : Text}
    (skipped : skipGroups fuel groups bytes = some rest) :
    ∃ front, bytes = front ++ rest ∧ AreGroups groups front := by
  induction fuel generalizing groups bytes with
  | zero =>
    cases groups with
    | nil =>
      cases skipped
      exact ⟨[], rfl, .nil⟩
    | cons group outer => contradiction
  | succ fuel ih =>
    cases groups with
    | nil =>
      cases skipped
      exact ⟨[], rfl, .nil⟩
    | cons group outer =>
      simp only [skipGroups, Option.bind_eq_bind, Option.bind_eq_some_iff, Prod.exists] at skipped
      rcases skipped with ⟨number, form, after, read, skipped⟩
      rcases readTag_eq_some_iff.mp read with ⟨tag, rfl, starts⟩
      split at skipped
      next opens =>
        subst opens
        split at skipped
        next room =>
          rcases ih skipped with ⟨front, rfl, written⟩
          cases written with
          | @cons _ _ front later inner written =>
            cases written with
            | @cons _ _ middle later more written =>
              refine ⟨tag ++ (front ++ middle) ++ later, by simp, .cons ?_ written⟩
              have one : maxOpenGroups - (outer.length + 1)
                  = maxOpenGroups - ((group :: outer).length + 1) + 1 := by
                rw [List.length_cons]
                omega
              rw [one] at more ⊢
              exact .group starts inner more
        next => contradiction
      next =>
        split at skipped
        next ends =>
          subst ends
          split at skipped
          next same =>
            subst same
            rcases ih skipped with ⟨front, rfl, written⟩
            exact ⟨tag ++ front, by simp, .cons (.close starts) written⟩
          next => contradiction
        next =>
          rcases Option.bind_eq_some_iff.mp skipped with ⟨later, passed, others⟩
          rcases skipValue_eq_some_iff.mp passed with ⟨value, rfl, written⟩
          rcases ih others with ⟨front, rfl, groups⟩
          cases groups with
          | @cons _ _ front outside inner more =>
            exact ⟨tag ++ (value ++ front) ++ outside, by simp,
              .cons (.value starts written inner) more⟩

/-- Passing over the rest of the innermost group leaves the others open, and fuel
for all that follows. -/
theorem IsGroup.skip {room group : Nat} {front : Text} (written : IsGroup room group front)
    {outer : List Nat} (open_le : room + outer.length + 1 ≤ maxOpenGroups) {fuel : Nat}
    {rest : Text} (enough : front.length + rest.length ≤ fuel) :
    ∃ left, rest.length ≤ left ∧
      skipGroups fuel (group :: outer) (front ++ rest) = skipGroups left outer rest := by
  induction written generalizing outer fuel rest with
  | @close room number tag ends =>
    have positive := ends.length_pos
    cases fuel with
    | zero => omega
    | succ fuel =>
      refine ⟨fuel, by omega, ?_⟩
      simp [skipGroups, ends.read]
  | @value room number other form tag front later starts value more ih =>
    have positive := starts.length_pos
    simp only [List.length_append] at enough
    cases fuel with
    | zero => omega
    | succ fuel =>
      rcases @ih outer open_le fuel rest (by omega) with ⟨left, enough, same⟩
      refine ⟨left, enough, ?_⟩
      have skipped : skipValue form (front ++ (later ++ rest)) = some (later ++ rest) :=
        skipValue_eq_some_iff.mpr ⟨front, rfl, value⟩
      have other : form ≠ 3 ∧ form ≠ 4 := by
        cases value <;> decide
      simp [skipGroups, starts.read, skipped, other, same]
  | @group room number other tag front later starts inner more innerIh moreIh =>
    have positive := starts.length_pos
    simp only [List.length_append] at enough
    cases fuel with
    | zero => omega
    | succ fuel =>
      have open_inner : room + (number :: outer).length + 1 ≤ maxOpenGroups := by
        rw [List.length_cons]
        omega
      rcases @innerIh (number :: outer) open_inner fuel (later ++ rest)
        (by rw [List.length_append]; omega) with ⟨middle, enough, first⟩
      rw [List.length_append] at enough
      rcases @moreIh outer open_le middle rest enough with ⟨left, enough, second⟩
      refine ⟨left, enough, ?_⟩
      have roomy : outer.length + 2 ≤ maxOpenGroups := by omega
      simp [skipGroups, starts.read, roomy, first, second]

/-- The room for groups inside a group that is not inside another one. -/
def groupRoom : Nat := maxOpenGroups - 1

theorem skipGroups_single_eq_some_iff {number : Nat} {bytes rest : Text} :
    skipGroups bytes.length [number] bytes = some rest ↔
      ∃ front, bytes = front ++ rest ∧ IsGroup groupRoom number front := by
  constructor
  · intro skipped
    rcases areGroups_of_skipGroups skipped with ⟨all, rfl, groups⟩
    cases groups with
    | @cons _ _ front outside inner more =>
      cases more
      exact ⟨front, by simp, inner⟩
  · rintro ⟨front, rfl, written⟩
    rcases @IsGroup.skip _ _ _ written [] (Nat.le_refl _) _ rest
      (Nat.le_of_eq (List.length_append).symm) with ⟨left, -, same⟩
    rw [same, skipGroups]

/-! ## Messages -/

mutual

/-- How many messages lie in one another in a record. -/
def Record.nesting : Record → Nat
  | .message _ records => Record.nestingAll records + 1
  | .varint _ _ | .packed _ _ | .text _ _ | .skipped _ => 0

/-- How many messages lie in one another in records. -/
def Record.nestingAll : List Record → Nat
  | [] => 0
  | record :: records => max record.nesting (Record.nestingAll records)

end

theorem Record.nestingAll_le_iff {records : List Record} {n : Nat} :
    Record.nestingAll records ≤ n ↔ ∀ record ∈ records, record.nesting ≤ n := by
  induction records with
  | nil => simp [Record.nestingAll]
  | cons record records ih => rw [Record.nestingAll, Nat.max_le, ih, List.forall_mem_cons]

/-- Bytes are the value of a field, in a wire form, and give a record. -/
inductive IsPart : (type : MessageType) → (number form : Nat) → Record → Text → Prop where
  | varint {type : MessageType} {number value : Nat} {bytes : Text}
    (written : IsVarint value bytes) : IsPart type number 0 (.varint number value) bytes
  | text {type : MessageType} {number : Nat} {body bytes : Text}
    (plain : type.part? number = none) (sized : IsSized body bytes) :
    IsPart type number 2 (.text number body) bytes
  | packed {type : MessageType} {number : Nat} {values : List Nat} {body bytes : Text}
    (integers : type.part? number = some .integers) (written : AreVarints values body)
    (sized : IsSized body bytes) : IsPart type number 2 (.packed number values) bytes
  | group {type : MessageType} {number : Nat} {bytes : Text}
    (written : IsGroup groupRoom number bytes) : IsPart type number 3 (.skipped number) bytes
  | fixed {type : MessageType} {number form : Nat} {bytes : Text}
    (wide : form = 1 ∨ form = 5) (written : IsValue form bytes) :
    IsPart type number form (.skipped number) bytes

/-- Bytes are a way to write a message of a type with the given records. -/
inductive Written : MessageType → List Record → Text → Prop where
  | nil {type : MessageType} : Written type [] []
  | part {type : MessageType} {number form : Nat} {record : Record} {records : List Record}
    {tag front rest : Text} (starts : IsTag maxFieldNumber number form tag)
    (part : IsPart type number form record front) (more : Written type records rest) :
    Written type (record :: records) (tag ++ (front ++ rest))
  | message {type inner : MessageType} {number : Nat} {held records : List Record}
    {tag body front rest : Text} (starts : IsTag maxFieldNumber number 2 tag)
    (isMessage : type.part? number = some (.message inner)) (written : Written inner held body)
    (complete : inner.isComplete held) (sized : IsSized body front)
    (more : Written type records rest) :
    Written type (.message number held :: records) (tag ++ (front ++ rest))

theorem IsPart.nesting_eq {type : MessageType} {number form : Nat} {record : Record} {bytes : Text}
    (part : IsPart type number form record bytes) : record.nesting = 0 := by
  cases part <;> rfl

theorem IsPart.read {type : MessageType} {number form : Nat} {record : Record} {front : Text}
    (part : IsPart type number form record front)
    (inner : MessageType → Text → Option (List Record)) (rest : Text) :
    readValue inner type number form (front ++ rest) = some (record, rest) := by
  cases part with
  | varint written => simp [readValue, written.read]
  | text plain sized => simp [readValue, sized.read, readText, plain]
  | packed integers written sized =>
    have read := (readVarints_eq_some_iff (Nat.le_refl _)).mpr written
    simp [readValue, sized.read, readText, integers, read]
  | group written =>
    have skipped : skipGroups (front ++ rest).length [number] (front ++ rest) = some rest :=
      skipGroups_single_eq_some_iff.mpr ⟨front, rfl, written⟩
    simp only [readValue, skipped, Option.map_some]
  | fixed wide written =>
    have skipped : skipValue form (front ++ rest) = some rest :=
      skipValue_eq_some_iff.mpr ⟨front, rfl, written⟩
    rcases wide with rfl | rfl <;> simp [readValue, skipped]

/-- Whatever reads the messages inside, a value that is read is a part, or a message
that was read. -/
theorem isPart_or_message_of_readValue {inner : MessageType → Text → Option (List Record)}
    {type : MessageType} {number form : Nat} {record : Record} {bytes rest : Text}
    (read : readValue inner type number form bytes = some (record, rest)) :
    ∃ front, bytes = front ++ rest ∧
      (IsPart type number form record front ∨
        ∃ part held body, form = 2 ∧ record = .message number held
          ∧ type.part? number = some (.message part) ∧ inner part body = some held
          ∧ part.isComplete held ∧ IsSized body front) := by
  unfold readValue at read
  split at read
  · rcases Option.map_eq_some_iff.mp read with ⟨⟨value, after⟩, taken, same⟩
    cases same
    rcases readVarint_eq_some_iff.mp taken with ⟨front, rfl, written⟩
    exact ⟨front, rfl, .inl (.varint written)⟩
  · simp only [Option.bind_eq_bind, Option.bind_eq_some_iff, Prod.exists] at read
    rcases read with ⟨body, after, taken, found, made, same⟩
    cases same
    rcases readBytes_eq_some_iff.mp taken with ⟨front, rfl, sized⟩
    refine ⟨front, rfl, ?_⟩
    unfold readText at made
    split at made
    next plain =>
      cases made
      exact .inl (.text plain sized)
    next integers =>
      rcases Option.map_eq_some_iff.mp made with ⟨values, taken, rfl⟩
      have written := (readVarints_eq_some_iff (Nat.le_refl _)).mp taken
      exact .inl (.packed integers written sized)
    next part isMessage =>
      simp only [Option.bind_eq_bind, Option.bind_eq_some_iff] at made
      rcases made with ⟨held, taken, checked⟩
      split at checked
      next complete =>
        cases checked
        exact .inr ⟨part, held, body, rfl, rfl, isMessage, taken, complete, sized⟩
      next => contradiction
  · rcases Option.map_eq_some_iff.mp read with ⟨after, passed, same⟩
    cases same
    rcases skipGroups_single_eq_some_iff.mp passed with ⟨front, rfl, written⟩
    exact ⟨front, rfl, .inl (.group written)⟩
  next zero two three =>
    rcases Option.map_eq_some_iff.mp read with ⟨after, passed, same⟩
    cases same
    rcases skipValue_eq_some_iff.mp passed with ⟨front, rfl, written⟩
    have wide : form = 1 ∨ form = 5 := by
      cases written with
      | varint => exact absurd rfl zero
      | fixed64 => exact .inl rfl
      | sized => exact absurd rfl two
      | fixed32 => exact .inr rfl
    exact ⟨front, rfl, .inl (.fixed wide written)⟩

/-- What reads the messages inside a message, where `depth` may lie in one
another. -/
def readInner (depth fuel : Nat) : MessageType → Text → Option (List Record) :=
  match depth with
  | 0 => fun _ _ => none
  | depth + 1 => readRecordsFrom depth fuel

theorem readRecordsFrom_succ {depth fuel : Nat} {type : MessageType} {bytes : Text}
    (some_bytes : bytes ≠ []) :
    readRecordsFrom depth (fuel + 1) type bytes =
      (readTag maxFieldNumber bytes).bind fun (number, form, rest) =>
        (readValue (readInner depth fuel) type number form rest).bind fun (record, rest) =>
          (readRecordsFrom depth fuel type rest).map (record :: ·) := by
  cases bytes with
  | nil => contradiction
  | cons b bytes => cases depth <;> rfl

theorem written_of_readRecordsFrom {depth fuel : Nat} {type : MessageType} {bytes : Text}
    {records : List Record} (read : readRecordsFrom depth fuel type bytes = some records) :
    Written type records bytes ∧ Record.nestingAll records ≤ depth := by
  -- Messages inside are read with less fuel as well, so one induction serves both.
  induction fuel generalizing depth type bytes records with
  | zero =>
    cases bytes with
    | nil =>
      cases read
      exact ⟨.nil, Nat.zero_le depth⟩
    | cons b bytes => contradiction
  | succ fuel ih =>
    rcases eq_or_ne bytes [] with rfl | some_bytes
    · cases read
      exact ⟨.nil, Nat.zero_le depth⟩
    · rw [readRecordsFrom_succ some_bytes] at read
      simp only [Option.bind_eq_some_iff, Option.map_eq_some_iff, Prod.exists] at read
      rcases read with ⟨number, form, after, tagged, record, rest, valued, others, more, rfl⟩
      rcases readTag_eq_some_iff.mp tagged with ⟨tag, rfl, starts⟩
      rcases ih more with ⟨written, nested⟩
      rcases isPart_or_message_of_readValue valued with ⟨front, rfl, part | held⟩
      · refine ⟨.part starts part written, ?_⟩
        rw [Record.nestingAll, part.nesting_eq]
        omega
      · rcases held with ⟨part, held, body, rfl, rfl, isMessage, taken, complete, sized⟩
        cases depth with
        | zero => contradiction
        | succ depth =>
          rcases ih taken with ⟨inside, deep⟩
          refine ⟨.message starts isMessage inside complete sized written, ?_⟩
          rw [Record.nestingAll, Record.nesting]
          omega

theorem readRecordsFrom_of_written {depth fuel : Nat} {type : MessageType} {bytes : Text}
    {records : List Record} (written : Written type records bytes)
    (nested : Record.nestingAll records ≤ depth) (enough : bytes.length ≤ fuel) :
    readRecordsFrom depth fuel type bytes = some records := by
  induction written generalizing depth fuel with
  | nil => rw [readRecordsFrom]
  | @part type number form record records tag front rest starts part more ih =>
    have positive := starts.length_pos
    have some_bytes := starts.append_ne_nil (front ++ rest)
    simp only [List.length_append] at enough
    rw [Record.nestingAll] at nested
    cases fuel with
    | zero => omega
    | succ fuel =>
      have others := @ih depth fuel (by omega) (by omega)
      simp [readRecordsFrom_succ some_bytes, starts.read, part.read, others]
  | @message type inner number held records tag body front rest starts isMessage written complete
      sized more heldIh moreIh =>
    have positive := starts.length_pos
    have some_bytes := starts.append_ne_nil (front ++ rest)
    have inside := sized.length_le
    simp only [List.length_append] at enough
    rw [Record.nestingAll, Record.nesting] at nested
    cases fuel with
    | zero => omega
    | succ fuel =>
      cases depth with
      | zero => omega
      | succ depth =>
        have first := @heldIh depth fuel (by omega) (by omega)
        have others := @moreIh (depth + 1) fuel (by omega) (by omega)
        simp [readRecordsFrom_succ some_bytes, starts.read, readValue, sized.read, readText,
          isMessage, readInner, first, complete, others]

/-- The reader takes exactly the ways to write a message in which messages do not
lie too deep. -/
theorem readRecords_eq_some_iff {type : MessageType} {bytes : Text} {records : List Record} :
    readRecords type bytes = some records ↔
      Written type records bytes ∧ Record.nestingAll records < maxNesting := by
  constructor
  · intro read
    rcases written_of_readRecordsFrom read with ⟨written, nested⟩
    exact ⟨written, Nat.lt_of_le_of_lt nested (by decide)⟩
  · rintro ⟨written, nested⟩
    exact readRecordsFrom_of_written written (Nat.le_sub_one_of_lt nested) (Nat.le_refl _)

/-- Bytes give one list of records at most. -/
theorem Written.unique {type : MessageType} {bytes : Text} {records others : List Record}
    (written : Written type records bytes) (other : Written type others bytes) :
    records = others := by
  have first := readRecordsFrom_of_written written
    (Nat.le_max_left _ (Record.nestingAll others)) (Nat.le_refl _)
  have second := readRecordsFrom_of_written other
    (Nat.le_max_right (Record.nestingAll records) _) (Nat.le_refl _)
  exact Option.some.inj (first.symm.trans second)

end Protoclass.Wire
