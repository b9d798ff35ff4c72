import Protoclass.Proofs.Text.Utf8
import Protoclass.Proofs.Yaml.Allowed
import Protoclass.Proofs.Yaml.Libraries
import Protoclass.Proofs.Yaml.Lines

/-!
# Scanning what was written

A value that lasts (`Value.Lasts`) is written in characters that may stand in a
text, and they are scanned to its tokens (`Value.Lasts.followsMark`).  So is the
text of a record (`scan_fieldsChars`).
-/

namespace Protoclass.Yaml

open Text (ofChars chars?)

/-! ## What is written -/

/-- The characters of a field's name. -/
def nameChars (name : Text) : List Char := name.chars?.getD []

/-- The word for a truth value. -/
def boolChars (value : Bool) : List Char :=
  if value then ['t', 'r', 'u', 'e'] else ['f', 'a', 'l', 's', 'e']

/-- An entry of a sequence. -/
def entryChars (indent : Nat) (item : Text) : List Char :=
  '-' :: ' ' :: endLine (scalarChars (indent + 2) item)

mutual

/-- The characters after a field's name and colon, at an indentation. -/
def Value.chars (indent : Nat) : Value → List Char
  | .text text => ' ' :: endLine (scalarChars (indent + 4) text)
  | .bool value => ' ' :: endLine (boolChars value)
  | .texts items =>
    '\n' :: items.flatMap fun item =>
      List.replicate (indent + 4) ' ' ++ entryChars (indent + 4) item
  | .record fields => '\n' :: fieldsChars (indent + 4) fields

/-- The characters of a record's fields, at an indentation. -/
def fieldsChars (indent : Nat) : List (Text × Value) → List Char
  | [] => []
  | (name, value) :: rest =>
    List.replicate indent ' ' ++ (nameChars name ++ ':' :: value.chars indent)
      ++ fieldsChars indent rest

end

/-- The characters of a field, at an indentation. -/
def fieldChars (indent : Nat) (field : Text × Value) : List Char :=
  nameChars field.1 ++ ':' :: field.2.chars indent

theorem fieldsChars_eq (indent : Nat) (fields : List (Text × Value)) :
    fieldsChars indent fields
      = fields.flatMap fun field => List.replicate indent ' ' ++ fieldChars indent field := by
  induction fields with
  | nil => rfl
  | cons field fields ih =>
    rw [fieldsChars, List.flatMap_cons, ih]
    rfl

/-- What can be a field's name. -/
structure IsFieldName (name : Text) : Prop where
  utf8 : name.chars? = some (nameChars name)
  key : KeyText (nameChars name)

/-- A value that is read back as it was written: no text in it loses its start. -/
abbrev Value.Lasts : Value → Prop :=
  Value.Kept IsFieldName fun room text => losesStart room text = false

theorem columns_eq (count : Nat) : columns count = ofChars (List.replicate count ' ') := by
  induction count with
  | zero => rfl
  | succ count ih =>
    rw [columns, List.replicate_succ, ← columns, ih]
    rfl

theorem ofChars_cons (c : Char) (cs : List Char) :
    ofChars (c :: cs) = String.utf8EncodeChar c ++ ofChars cs :=
  List.flatMap_cons

theorem ofChars_flatMap {α : Type} (items : List α) (chars : α → List Char) :
    ofChars (items.flatMap chars) = items.flatMap fun item => ofChars (chars item) :=
  List.flatMap_assoc

theorem writeFields_eq (indent : Nat) (fields : List (Text × Value)) :
    writeFields indent fields
      = fields.flatMap fun field => columns indent ++ field.1 ++ (":" : Text)
        ++ field.2.write indent := by
  induction fields with
  | nil => rfl
  | cons field fields ih =>
    rw [writeFields, List.flatMap_cons, ih]

theorem ofChars_fieldsChars {fields : List (Text × Value)} {indent : Nat}
    (names : ∀ field ∈ fields, IsFieldName field.1)
    (values : ∀ field ∈ fields, field.2.write indent = ofChars (field.2.chars indent)) :
    writeFields indent fields = ofChars (fieldsChars indent fields) := by
  rw [writeFields_eq, fieldsChars_eq, ofChars_flatMap]
  apply List.flatMap_congr
  intro field mem
  have name := Text.chars?_eq_some_iff.mp (names field mem).utf8
  rw [fieldChars, Text.ofChars_append, Text.ofChars_append, ofChars_cons, ← name, ← columns_eq,
    values field mem, List.append_assoc, List.append_assoc]
  rfl

/-- A value that lasts is written in these characters. -/
theorem Value.Lasts.write_eq {value : Value} (lasts : value.Lasts) (indent : Nat) :
    value.write indent = ofChars (value.chars indent) := by
  induction lasts generalizing indent with
  | text keeps => rfl
  | bool value => cases value <;> rfl
  | texts nonempty keeps =>
    rw [Value.write, Value.chars, ofChars_cons, ofChars_flatMap]
    congr 1
    apply List.flatMap_congr
    intro item mem
    rw [Text.ofChars_append, columns_eq, List.append_assoc]
    rfl
  | record nonempty distinct names values ih =>
    rw [Value.write, Value.chars, ofChars_cons,
      ofChars_fieldsChars names fun field mem => ih field mem _]
    rfl

/-! ## Its tokens -/

/-- The tokens of an entry. -/
def entryTokens (item : Text) : List Token := .blockEntry :: textTokens item

mutual

/-- The tokens of a value. -/
def Value.tokens : Value → List Token
  | .text text => textTokens text
  | .bool value => [.scalar .plain (boolChars value)]
  | .texts items => .blockSequenceStart :: (items.flatMap entryTokens ++ [.blockEnd])
  | .record fields => .blockMappingStart :: (fieldsTokens fields ++ [.blockEnd])

/-- The tokens of a record's fields. -/
def fieldsTokens : List (Text × Value) → List Token
  | [] => []
  | (name, value) :: rest =>
    .key :: .scalar .plain (nameChars name) :: .value :: (value.tokens ++ fieldsTokens rest)

end

/-- The tokens of a field. -/
def fieldTokens (field : Text × Value) : List Token :=
  .key :: .scalar .plain (nameChars field.1) :: .value :: field.2.tokens

theorem fieldsTokens_eq (fields : List (Text × Value)) :
    fieldsTokens fields = fields.flatMap fieldTokens := by
  induction fields with
  | nil => rfl
  | cons field fields ih =>
    rw [fieldsTokens, List.flatMap_cons, ih]
    rfl

/-- Characters after the mark of a key or an entry, in a block of indentation
`outer`, are scanned to tokens: whatever comes after them. -/
def FollowsMark (outer : Nat) (chars : List Char) (added : List Token) : Prop :=
  ∀ ⦃scan : Scan⦄ ⦃indents : List Nat⦄ ⦃tokens all : List Token⦄ ⦃count : Nat⦄ ⦃next : List Char⦄,
    Scan.StartsToken next → count ≤ outer →
    scan.AfterMark (chars ++ (List.replicate count ' ' ++ next)) outer indents tokens →
    (∀ after : Scan, after.settled.AtLine next count
      (Scan.closed count (outer :: indents) (added.reverse ++ tokens)) → after.Leads all) →
    scan.Leads all

/-- Characters at the start of a line, in a block at its column that starts with
the token `start`, are scanned to tokens. -/
def HeadsLine (start : Token) (column : Nat) (chars : List Char) (added : List Token) : Prop :=
  ∀ ⦃scan : Scan⦄ ⦃state : List Nat × List Token⦄ ⦃indents : List Nat⦄ ⦃tokens all : List Token⦄
    ⦃count : Nat⦄ ⦃next : List Char⦄,
    Scan.StartsToken next → count ≤ column →
    scan.settled.AtLine (chars ++ (List.replicate count ' ' ++ next)) column state →
    Scan.opened start column state = (column :: indents, tokens) →
    (∀ after : Scan, after.settled.AtLine next count
      (Scan.closed count (column :: indents) (added.reverse ++ tokens)) → after.Leads all) →
    scan.Leads all

theorem followsMark_text {text : Text} {outer extra : Nat} (some_extra : 0 < extra)
    (keeps : losesStart (extra = 4) text = false) :
    FollowsMark outer (' ' :: endLine (scalarChars (outer + extra) text)) (textTokens text) := by
  intro scan indents tokens all count next token outside mark later
  have spot := mark.atScalar (startsToken_text (outer + extra) text _)
  apply leads_text _ (Nat.lt_add_of_pos_right some_extra) token outside spot later
  simpa only [Nat.add_left_cancel_iff] using keeps

theorem plainWord_boolChars (value : Bool) : PlainWord (boolChars value) := by
  constructor
  · cases value <;> exact List.cons_ne_nil _ _
  · cases value <;> simp [boolChars, isSpace, isBlank, isBreak]
  · cases value <;> simp [boolChars]
  · cases value <;> simp [boolChars]

theorem styled_boolChars (value : Bool) : Styled (boolChars value) .plain := by
  have word := plainWord_boolChars value
  cases value with
  | false =>
    apply Styled.plain rfl (.word word)
    intro tail
    exact ⟨rfl, by simp [Scan.isIndicator]⟩
  | true =>
    apply Styled.plain rfl (.word word)
    intro tail
    exact ⟨rfl, by simp [Scan.isIndicator]⟩

theorem followsMark_bool (value : Bool) (outer : Nat) :
    FollowsMark outer (' ' :: endLine (boolChars value)) [.scalar .plain (boolChars value)] := by
  intro scan indents tokens all count next token outside mark later
  have styled := styled_boolChars value
  have spot := mark.atScalar (styled.startsToken (outer + 1) _)
  exact Scan.ReadsTo.leads
    (spot.readsTo styled (Nat.lt_succ_self outer) nofun token outside) later

/-! ### Lines of a block -/

/-- A line follows another one in the same block. -/
theorem HeadsLine.append {start : Token} {column : Nat} {chars more : List Char}
    {added later : List Token} (first : HeadsLine start column chars added)
    (second : HeadsLine start column more later)
    (starts : ∀ tail, Scan.StartsToken (more ++ tail)) :
    HeadsLine start column (chars ++ (List.replicate column ' ' ++ more)) (added ++ later) := by
  intro scan state indents tokens all count next token outside line opens leads
  rw [List.append_assoc, List.append_assoc] at line
  apply first (starts _) (Nat.le_refl column) line opens
  intro between line
  rw [Scan.closed_of_le (Nat.le_refl column)] at line
  have isOpen : Scan.opened start column (column :: indents, added.reverse ++ tokens)
      = (column :: indents, added.reverse ++ tokens) := if_pos rfl
  apply second token outside line isOpen
  rwa [← List.append_assoc, ← List.reverse_append]

theorem headsLine_block {α : Type} {start : Token} {column : Nat} {chars : α → List Char}
    {tokens : α → List Token} {first : α} {rest : List α}
    (each : ∀ part ∈ first :: rest, HeadsLine start column (chars part) (tokens part))
    (starts : ∀ part ∈ first :: rest, ∀ tail, Scan.StartsToken (chars part ++ tail)) :
    HeadsLine start column
      (chars first ++ rest.flatMap fun part => List.replicate column ' ' ++ chars part)
      (tokens first ++ rest.flatMap tokens) := by
  induction rest generalizing first with
  | nil =>
    simp only [List.flatMap_nil, List.append_nil]
    exact each first List.mem_cons_self
  | cons second rest ih =>
    rw [List.flatMap_cons, List.flatMap_cons, List.append_assoc]
    have later := ih (fun part mem => each part (List.mem_cons_of_mem first mem))
      (fun part mem => starts part (List.mem_cons_of_mem first mem))
    apply (each first List.mem_cons_self).append later
    intro tail
    rw [List.append_assoc]
    exact starts second (List.mem_cons_of_mem first List.mem_cons_self) _

/-- A block of lines, deeper than the block around it, is scanned to its tokens
between those for its start and its end. -/
theorem followsMark_block {α : Type} {start : Token} {outer column : Nat}
    {chars : α → List Char} {tokens : α → List Token} {parts : List α} (nonempty : parts ≠ [])
    (deeper : outer < column)
    (each : ∀ part ∈ parts, HeadsLine start column (chars part) (tokens part))
    (starts : ∀ part ∈ parts, ∀ tail, Scan.StartsToken (chars part ++ tail)) :
    FollowsMark outer
      ('\n' :: parts.flatMap fun part => List.replicate column ' ' ++ chars part)
      (start :: (parts.flatMap tokens ++ [.blockEnd])) := by
  rcases List.exists_cons_of_ne_nil nonempty with ⟨first, rest, rfl⟩
  intro scan indents before all count next token outside mark later
  rw [List.flatMap_cons, List.cons_append, List.append_assoc, List.append_assoc] at mark
  have firstStarts := starts first List.mem_cons_self
  rw [List.flatMap_cons] at later
  have line := mark.atLine (firstStarts _) (Nat.le_of_lt deeper)
  rw [← List.append_assoc] at line
  have opens : Scan.opened start column (outer :: indents, before)
      = (column :: outer :: indents, start :: before) :=
    if_neg fun same => absurd (Option.some.inj same) (Nat.ne_of_lt deeper)
  apply headsLine_block each starts token (outside.trans (Nat.le_of_lt deeper)) line opens
  intro after line
  rw [Scan.closed_of_lt (Nat.lt_of_le_of_lt outside deeper)] at line
  apply later
  simpa using line

/-! ### Entries and fields -/

theorem headsLine_entry {item : Text} (keeps : losesStart false item = false) {column : Nat}
    (inner : 0 < column) :
    HeadsLine .blockSequenceStart column (entryChars column item) (entryTokens item) := by
  intro scan state indents tokens all count next token outside line opens later
  apply leads_dash rfl inner line opens
  intro after mark
  apply followsMark_text (Nat.succ_pos 1) keeps token outside mark
  simpa [entryTokens] using later

theorem headsLine_field {field : Text × Value} (name : IsFieldName field.1) {column : Nat}
    (value : FollowsMark column (field.2.chars column) field.2.tokens) :
    HeadsLine .blockMappingStart column (fieldChars column field) (fieldTokens field) := by
  intro scan state indents tokens all count next token outside line opens later
  rw [fieldChars, List.append_assoc, List.cons_append] at line
  have space : atSpace (field.2.chars column ++ (List.replicate count ' ' ++ next)) = true := by
    cases field.2 <;> rfl
  apply leads_key name.key space line opens
  intro after mark
  apply value token outside mark
  simpa [fieldTokens] using later

theorem startsToken_entry (column : Nat) (item : Text) (tail : List Char) :
    Scan.StartsToken (entryChars column item ++ tail) := by
  rintro c ⟨⟩
  exact ⟨rfl, by decide⟩

theorem startsToken_field {field : Text × Value} (name : IsFieldName field.1) (column : Nat)
    (tail : List Char) : Scan.StartsToken (fieldChars column field ++ tail) := by
  rw [fieldChars, List.append_assoc]
  exact name.key.startsToken _

/-- A value that lasts is scanned to its tokens. -/
theorem Value.Lasts.followsMark {value : Value} (lasts : value.Lasts) (outer : Nat) :
    FollowsMark outer (value.chars outer) value.tokens := by
  induction lasts generalizing outer with
  | text keeps => exact followsMark_text (Nat.succ_pos 3) keeps
  | bool value => exact followsMark_bool value outer
  | texts nonempty keeps =>
    apply followsMark_block nonempty (Nat.lt_add_of_pos_right (Nat.succ_pos 3))
    · intro item mem
      exact headsLine_entry (keeps item mem) (Nat.succ_pos _)
    · intro item mem tail
      exact startsToken_entry _ item tail
  | record nonempty distinct names values ih =>
    rw [Value.chars, Value.tokens, fieldsChars_eq, fieldsTokens_eq]
    apply followsMark_block nonempty (Nat.lt_add_of_pos_right (Nat.succ_pos 3))
    · intro field mem
      exact headsLine_field (names field mem) (ih field mem _)
    · intro field mem tail
      exact startsToken_field (names field mem) _ tail

/-! ## The whole text -/

theorem leads_end {scan : Scan} {tokens : List Token}
    (line : scan.settled.AtLine [] 0 ([0], tokens)) :
    scan.Leads (.streamEnd :: .blockEnd :: tokens) := by
  rcases Prod.mk.inj line.state_eq with ⟨indents_eq, tokens_eq⟩
  have flow : scan.settled.inFlow = false := by rw [Scan.inFlow, line.outside]; rfl
  have closed_eq : scan.settled.closeBlocks (-1)
      = { scan.settled with indents := [], tokens := .blockEnd :: tokens } := by
    rw [Scan.closeBlocks, flow, indents_eq, tokens_eq]
    rfl
  have dropped := @Scan.dropKey_of_loose (scan.settled.closeBlocks (-1)) (closed_eq ▸ line.outside)
    (closed_eq ▸ line.loose)
  have finish : scan.settled.finish = some
      { scan.settled with
        indents := []
        keyAllowed := false
        outerKey := none
        tokens := .streamEnd :: .blockEnd :: tokens } := by
    rw [Scan.finish, dropped, closed_eq]
    rfl
  exact Scan.leads_of_end line.rest_eq finish

theorem KeyText.isPrintable {name : List Char} (isKey : KeyText name) {c : Char} (mem : c ∈ name) :
    isPrintable c = true := by
  rcases fitsPlain_eq_true_iff.mp (meaning_of_styleOf isKey.plain).2 with ⟨quotes, -⟩
  rcases fitsQuotes_eq_true_iff.mp quotes with ⟨-, -, noTab, ordinary⟩
  apply isPrintable_of_hasSpecial ordinary mem
  rintro rfl
  exact noTab mem

theorem dropByteOrderMark_field {field : Text × Value} (name : IsFieldName field.1) (column : Nat)
    (tail : List Char) :
    dropByteOrderMark (fieldChars column field ++ tail) = fieldChars column field ++ tail := by
  rcases List.exists_cons_of_ne_nil name.key.nonempty with ⟨c, rest, start⟩
  have printable : isPrintable c = true := by
    apply name.key.isPrintable
    rw [start]
    exact List.mem_cons_self
  rw [fieldChars, start, List.cons_append, List.cons_append, dropByteOrderMark, if_neg]
  rintro rfl
  simp [Yaml.isPrintable] at printable

/-- A text that is one block at the first column is scanned to its tokens. -/
theorem scan_of_headsLine {text : List Char} {added : List Token}
    (heads : HeadsLine .blockMappingStart 0 text added) (starts : Scan.StartsToken text)
    (unmarked : dropByteOrderMark text = text) :
    scan text = .blockMappingStart :: (added ++ [.blockEnd, .streamEnd]) := by
  have line := @Scan.atLine_of_token { place := { rest := text } } rfl rfl nofun starts
  have leads : Scan.Leads { place := { rest := text } }
      (.streamEnd :: .blockEnd :: (added.reverse ++ [.blockMappingStart])) := by
    apply @heads _ _ [] [.blockMappingStart] _ 0 [] nofun (Nat.le_refl 0)
    · simpa using line
    · rfl
    · intro after ended
      rw [Scan.closed_of_le (Nat.le_refl 0)] at ended
      exact leads_end ended
  rw [scan, unmarked, leads _ (Nat.lt_succ_self _)]
  simp

/-- The text of a record is scanned to its tokens. -/
theorem scan_fieldsChars {fields : List (Text × Value)} (nonempty : fields ≠ [])
    (names : ∀ field ∈ fields, IsFieldName field.1) (values : ∀ field ∈ fields, field.2.Lasts) :
    scan (fieldsChars 0 fields) = (Value.record fields).tokens ++ [.streamEnd] := by
  rcases List.exists_cons_of_ne_nil nonempty with ⟨first, rest, rfl⟩
  have starts : ∀ field ∈ first :: rest, ∀ tail, Scan.StartsToken (fieldChars 0 field ++ tail) :=
    fun field mem => startsToken_field (names field mem) 0
  have heads := headsLine_block (fun field mem =>
    headsLine_field (names field mem) ((values field mem).followsMark 0)) starts
  have text_eq : fieldsChars 0 (first :: rest) = fieldChars 0 first
      ++ rest.flatMap fun field => List.replicate 0 ' ' ++ fieldChars 0 field := by
    rw [fieldsChars_eq, List.flatMap_cons]
    rfl
  rw [text_eq, scan_of_headsLine heads (starts first List.mem_cons_self _)
    (dropByteOrderMark_field (names first List.mem_cons_self) _ _), Value.tokens, fieldsTokens_eq,
    List.flatMap_cons]
  simp

/-! ## Allowed characters -/

theorem all_isAllowed_fieldsChars {fields : List (Text × Value)} {indent : Nat}
    (names : ∀ field ∈ fields, IsFieldName field.1)
    (values : ∀ field ∈ fields, (field.2.chars indent).all isAllowed = true) :
    (fieldsChars indent fields).all isAllowed = true := by
  rw [fieldsChars_eq, List.all_flatMap, List.all_eq_true]
  intro field mem
  have name : (nameChars field.1).all isAllowed = true := by
    rw [List.all_eq_true]
    intro c mem'
    exact isAllowed_of_isPrintable ((names field mem).key.isPrintable mem')
  rw [List.all_append, fieldChars, List.all_append, List.all_cons, values field mem, name,
    all_replicate_space]
  rfl

/-- A value that lasts is written in allowed characters. -/
theorem Value.Lasts.all_isAllowed {value : Value} (lasts : value.Lasts) (indent : Nat) :
    (value.chars indent).all isAllowed = true := by
  induction lasts generalizing indent with
  | @text text keeps =>
    rw [Value.chars, List.all_cons, all_isAllowed_text]
    rfl
  | bool value => cases value <;> rfl
  | texts nonempty keeps =>
    rw [Value.chars, List.all_cons, List.all_flatMap, Bool.and_eq_true, List.all_eq_true]
    constructor
    · rfl
    · intro item mem
      rw [List.all_append, all_replicate_space, entryChars, List.all_cons, List.all_cons,
        all_isAllowed_text]
      rfl
  | record nonempty distinct names values ih =>
    rw [Value.chars, List.all_cons, all_isAllowed_fieldsChars names fun field mem => ih field mem _]
    rfl

end Protoclass.Yaml
