import Protoclass.Proofs.Yaml.Binary
import Protoclass.Proofs.Yaml.Scanning

/-!
# Scanning a line

What a line of a record is made of is scanned to its tokens: a text
(`leads_text`), unless it is written as a block of lines that loses the text's
start, a field's name (`leads_key`) and the dash before an entry (`leads_dash`).
-/

namespace Protoclass.Yaml

/-! ## Texts -/

/-- Whether the start of a text is lost when it is written and read: a block of
lines gives up a line end at its start, and may not start with a tab.  A space at
its start needs `room`: the block has to be indented by four columns. -/
def losesStart (room : Bool) (text : Text) : Bool :=
  match text.chars? with
  | none => false
  | some chars =>
    styleOf chars = .literal
      && chars.head?.any fun c => isBreak c || c = '\t' || (!room && c = ' ')

theorem losesStart_of_oneLine (room : Bool) {text : Text} (oneLine : Text.newline ∉ text) :
    losesStart room text = false := by
  rw [losesStart]
  rcases chars : text.chars? with _ | cs
  · rfl
  have noBreak : '\n' ∉ cs := by
    intro mem
    rw [Text.chars?_eq_some_iff.mp chars] at oneLine
    exact oneLine (List.mem_flatMap.mpr ⟨'\n', mem, by decide⟩)
  have style : styleOf cs ≠ .literal := by
    rw [styleOf, if_neg (by simpa using noBreak)]
    split_ifs <;> simp
  simp [style]

/-- The tokens of a text. -/
def textTokens (text : Text) : List Token :=
  match text.chars? with
  | some chars => [.scalar (styleOf chars) chars]
  | none =>
    [.tag ['!', '!'] (binaryTag.drop 2), .scalar (binaryStyle (binaryText text)) (binaryText text)]

theorem startsToken_append {c : Char} (space : isSpace c = false) (comment : c ≠ '#')
    {line : List Char} (start : line.head? = some c) (tail : List Char) :
    Scan.StartsToken (endLine line ++ tail) := by
  rcases exists_endLine line with ⟨more, written⟩
  rw [written, List.append_assoc]
  intro d mem
  rw [List.head?_append, start] at mem
  cases mem
  exact ⟨space, comment⟩

theorem Styled.startsToken {text : List Char} {style : Style} (styled : Styled text style)
    (indent : Nat) (tail : List Char) :
    Scan.StartsToken (endLine (inStyle style indent text) ++ tail) := by
  cases styled with
  | @plain c rest text_eq plain starts =>
    rcases starts [] with ⟨space, sign⟩
    apply startsToken_append space _ (by rw [inStyle, text_eq]; rfl)
    rintro rfl
    rcases sign rfl with ⟨isSign, -⟩
    simp at isSign
  | single single => exact startsToken_append (c := '\'') (by decide) (by decide) rfl tail
  | double => exact startsToken_append (c := '"') (by decide) (by decide) rfl tail
  | literal nonempty lineEnds =>
    exact startsToken_append (c := '|') (by decide) (by decide) rfl tail

theorem Styled.inStyle_ne_nil {text : List Char} {style : Style} (styled : Styled text style)
    (indent : Nat) : inStyle style indent text ≠ [] := by
  cases styled with
  | plain text_eq plain starts =>
    rw [inStyle, text_eq]
    exact List.cons_ne_nil _ _
  | single single => exact List.cons_ne_nil _ _
  | double => exact List.cons_ne_nil _ _
  | literal nonempty lineEnds => exact List.cons_ne_nil _ _

theorem startsToken_text (indent : Nat) (text : Text) (tail : List Char) :
    Scan.StartsToken (endLine (scalarChars indent text) ++ tail) := by
  unfold scalarChars
  split
  · next chars utf8 => exact (styled_styleOf chars).startsToken indent tail
  · exact startsToken_append (c := '!') (by decide) (by decide) rfl tail

/-- The tag of bytes is read up to the space after it. -/
theorem exists_readTag {place : Place} {rest : List Char}
    (here : place.rest = binaryTag ++ ' ' :: rest) :
    ∃ after, readTag place = some (.tag ['!', '!'] (binaryTag.drop 2), after)
      ∧ after.rest = ' ' :: rest ∧ after.column = place.column + 8 := by
  refine ⟨place.advance 8, ?_, ?_, rfl⟩
  · simp [readTag, readHandle, tagChars, isTagChar, isWordChar, Place.advance, Place.head?, here,
      binaryTag, atSpace, isSpace, isBlank]
  · rw [Place.advance, here]
    rfl

theorem endLine_tagged (tag : List Char) {line : List Char} (nonempty : line ≠ [])
    (tail : List Char) :
    endLine (tag ++ ' ' :: line) ++ tail = tag ++ ' ' :: (endLine line ++ tail) := by
  rw [endLine_append (List.cons_ne_nil ' ' line), endLine_cons nonempty, List.append_assoc,
    List.cons_append]

section Texts

variable {scan : Scan} {outer indent count : Nat} {indents : List Nat} {tokens all : List Token}
variable {next : List Char}

/-- The tag of bytes is scanned. -/
theorem leads_tag {rest : List Char} (starts : Scan.StartsToken rest)
    (spot : scan.settled.AtScalar (binaryTag ++ ' ' :: rest) outer indents tokens)
    (later : ∀ after : Scan, after.settled.AtScalar rest outer indents
      (.tag ['!', '!'] (binaryTag.drop 2) :: tokens) → after.Leads all) :
    scan.Leads all := by
  rcases spot.exists_saveKey with ⟨key, save, loose⟩
  rcases exists_readTag spot.rest_eq with ⟨place, read, place_eq, column⟩
  have isTag := (Scan.tokenAt_inner spot.inner spot.outside (binaryTag.drop 1 ++ ' ' :: rest)).2.2.2
  have scanned : scan.settled.tagged
      = some (scan.settled.after (.tag ['!', '!'] (binaryTag.drop 2)) place key false) := by
    rw [Scan.tagged, save]
    simp only [Option.bind_eq_bind, Option.bind_some, Scan.withKey_place, read]
    rfl
  have deeper : outer ≤ place.column := by
    have := spot.column_lt
    omega
  apply Scan.Leads.of_token spot.rest_eq (isTag.trans scanned)
  · change place.rest.length ≤ (binaryTag.drop 1 ++ ' ' :: rest).length
    rw [place_eq, List.length_append]
    exact Nat.le_add_left _ _
  · apply later
    rw [← spot.tokens_eq]
    exact @Scan.atScalar_of_space (scan.settled.after _ place key false) spot.outside loose
      _ place_eq starts _ _ spot.indents_eq deeper

/-- Bytes that are not UTF-8 are scanned to their tag and digits. -/
theorem leads_binary {bytes : Text} (nonempty : bytes ≠ []) (deeper : outer < indent)
    (token : Scan.StartsToken next) (outside : count ≤ outer)
    (spot : scan.settled.AtScalar
      (endLine (binary indent bytes) ++ (List.replicate count ' ' ++ next)) outer indents tokens)
    (later : ∀ after : Scan, after.settled.AtLine next count
        (Scan.closed count (outer :: indents)
          (.scalar (binaryStyle (binaryText bytes)) (binaryText bytes)
            :: .tag ['!', '!'] (binaryTag.drop 2) :: tokens)) → after.Leads all) :
    scan.Leads all := by
  rcases styled_binaryText nonempty with ⟨styled, start⟩
  rw [binary, endLine_tagged _ (styled.inStyle_ne_nil indent)] at spot
  apply leads_tag (styled.startsToken indent _) spot
  intro tagged inside
  apply Scan.ReadsTo.leads (inside.readsTo styled deeper _ token outside) later
  intro literal c mem
  have space := start c mem
  refine ⟨isBreak_of_isSpace space, ?_, ?_⟩
  · rintro rfl
    cases space
  · rintro rfl
    cases space

/-- A text is scanned to its tokens, unless its start is lost. -/
theorem leads_text {text : Text} (keeps : losesStart (indent = outer + 4) text = false)
    (deeper : outer < indent) (token : Scan.StartsToken next) (outside : count ≤ outer)
    (spot : scan.settled.AtScalar
      (endLine (scalarChars indent text) ++ (List.replicate count ' ' ++ next)) outer indents
      tokens)
    (later : ∀ after : Scan, after.settled.AtLine next count
        (Scan.closed count (outer :: indents) ((textTokens text).reverse ++ tokens))
        → after.Leads all) :
    scan.Leads all := by
  unfold losesStart at keeps
  unfold scalarChars at spot
  unfold textTokens at later
  cases utf8 : text.chars? with
  | none =>
    simp only [utf8] at spot later
    have nonempty : text ≠ [] := by
      rintro rfl
      cases utf8
    exact leads_binary nonempty deeper token outside spot later
  | some chars =>
    simp only [utf8] at keeps spot later
    apply Scan.ReadsTo.leads (spot.readsTo (styled_styleOf chars) deeper _ token outside) later
    intro literal c mem
    rw [literal, Option.mem_def.mp mem] at keeps
    simp only [decide_true, Bool.true_and, Option.any_some, Bool.or_eq_false_iff,
      Bool.and_eq_false_iff, Bool.not_eq_false', decide_eq_true_eq,
      decide_eq_false_iff_not] at keeps
    rcases keeps with ⟨⟨notBreak, notTab⟩, room⟩
    exact ⟨notBreak, notTab, fun space => room.resolve_right (not_not_intro space)⟩

end Texts

/-! ## Keys and entries -/

namespace Scan

/-- Indentations and tokens once a block is open at a column. -/
def opened (start : Token) (column : Nat) (state : List Nat × List Token) :
    List Nat × List Token :=
  if state.1.head? = some column then state else (column :: state.1, start :: state.2)

/-- A scan is right after the mark of a key or an entry in a block. -/
structure AfterMark (scan : Scan) (rest : List Char) (outer : Nat) (indents : List Nat)
    (tokens : List Token) : Prop where
  rest_eq : scan.place.rest = rest
  column_le : outer ≤ scan.place.column
  indents_eq : scan.indents = outer :: indents
  tokens_eq : scan.tokens = tokens
  outside : scan.innerKeys = []
  keyless : scan.outerKey = none

section Marks

variable {scan : Scan} {rest : List Char} {outer column : Nat} {indents : List Nat}
variable {tokens all : List Token} {state : List Nat × List Token}

theorem AfterMark.loose (mark : AfterMark scan rest outer indents tokens) :
    ∀ spot ∈ scan.outerKey, spot.required = false := by
  rw [mark.keyless]
  simp

theorem AfterMark.atScalar (mark : AfterMark scan (' ' :: rest) outer indents tokens)
    (starts : StartsToken rest) : AtScalar scan.settled rest outer indents tokens := by
  rw [← mark.tokens_eq]
  exact atScalar_of_space mark.outside mark.loose mark.rest_eq starts mark.indents_eq mark.column_le

theorem AfterMark.atLine {count : Nat}
    (mark : AfterMark scan ('\n' :: (List.replicate count ' ' ++ rest)) outer indents tokens)
    (starts : StartsToken rest) (deeper : outer ≤ count) :
    AtLine scan.settled rest count (outer :: indents, tokens) := by
  have line := atLine_of_newline mark.outside mark.loose mark.rest_eq starts
  rwa [mark.indents_eq, mark.tokens_eq, closed_of_le deeper] at line

/-! ### Open blocks -/

theorem head_closedAt_le (column : Int) (indents : List Nat) :
    ∀ indent ∈ (closedAt column indents).1.head?, (indent : Int) ≤ column := by
  fun_induction closedAt column indents with
  | case1 => simp
  | case2 indent rest deeper ih => exact ih
  | case3 indent rest shallow =>
    intro head mem
    cases mem
    exact Int.not_lt.mp shallow

theorem settled_innerKeys (scan : Scan) : scan.settled.innerKeys = scan.innerKeys := by
  rw [settled, closeBlocks]
  split <;> rfl

/-- No open block lies deeper than the line. -/
theorem AtLine.shallow (line : AtLine scan.settled rest column state) :
    ∀ indent ∈ state.1.head?, indent ≤ column := by
  have outside : scan.toToken.inFlow = false := by
    rw [inFlow, show scan.toToken.innerKeys = [] from
      (settled_innerKeys scan).symm.trans line.outside]
    rfl
  have settled_indents :
      scan.settled.indents = (closedAt scan.toToken.place.column scan.toToken.indents).1 := by
    rw [settled, closeBlocks, outside]
    rfl
  have column_eq : scan.toToken.place.column = column := by
    rw [← line.column_eq, settled, closeBlocks_place]
  have head := head_closedAt_le scan.toToken.place.column scan.toToken.indents
  rw [← settled_indents, column_eq] at head
  intro indent mem
  rw [← line.state_eq] at mem
  exact Int.ofNat_le.mp (head indent mem)

theorem indent_lt_iff (shallow : ∀ indent ∈ scan.indents.head?, indent ≤ column) :
    scan.indent < column ↔ scan.indents.head? ≠ some column := by
  rw [indent]
  split
  · next none => simp [none]; omega
  · next indent rest open_eq =>
    have deep := shallow indent (by rw [open_eq]; rfl)
    rw [open_eq, List.head?_cons, ne_eq, Option.some.injEq]
    omega

/-- A block is opened where none is open at the column. -/
theorem openBlock_eq (outside : scan.innerKeys = [])
    (shallow : ∀ indent ∈ scan.indents.head?, indent ≤ column) {before later : List Token}
    (tokens_eq : scan.tokens = later ++ before) (start : Token) :
    scan.openBlock column before.length start
      = { scan with
          indents := (opened start column (scan.indents, before)).1
          tokens := later ++ (opened start column (scan.indents, before)).2 } := by
  have count : scan.tokens.length - before.length = later.length := by
    rw [tokens_eq, List.length_append, Nat.add_sub_cancel]
  have flow : scan.inFlow = false := by rw [inFlow, outside]; rfl
  rw [openBlock, flow]
  by_cases isOpen : scan.indents.head? = some column
  · rw [if_neg (by simp [indent_lt_iff shallow, isOpen]), opened, if_pos isOpen, ← tokens_eq]
  · rw [if_pos (by simp [indent_lt_iff shallow, isOpen]), opened, if_neg isOpen, insert, count,
      tokens_eq, List.take_left, List.drop_left]

/-- Where a token starts, there is nothing to skip. -/
theorem settled_of_token (outside : scan.innerKeys = []) (starts : StartsToken scan.place.rest)
    (shallow : ∀ indent ∈ scan.indents.head?, indent ≤ scan.place.column) :
    scan.settled = scan := by
  have isClosed : closed scan.place.column scan.indents scan.tokens
      = (scan.indents, scan.tokens) := by
    cases open_eq : scan.indents with
    | nil => rfl
    | cons indent rest => exact closed_of_le (shallow indent (by rw [open_eq]; rfl)) _ _
  rw [settled_eq outside fun tokenLine => skipSpace_token starts _ _ _ _ _, isClosed]

/-! ### Keys -/

/-- The spot of a key that starts here. -/
def keySpot (here : Scan) : KeySpot where
  position := here.tokens.length
  required := !here.inFlow && here.indent = here.place.column
  line := here.place.line
  column := here.place.column
  index := here.place.index

theorem AtLine.saveKey_eq {here : Scan} (line : AtLine here rest column state) :
    here.saveKey = some (here.withKey (some here.keySpot)) := by
  rw [saveKey, if_pos line.allowed, dropKey_of_loose line.outside line.loose, Option.map_some,
    setKey]
  simp only [withKey, line.outside]
  rfl

/-- A colon in the line of a key makes the last token one. -/
theorem colon_eq (outside : scan.innerKeys = []) {spot : KeySpot}
    (key : scan.outerKey = some spot) (reaches : scan.reaches spot = true) {token : Token}
    {before : List Token} (tokens_eq : scan.tokens = token :: before)
    (position : spot.position = before.length)
    (shallow : ∀ indent ∈ scan.indents.head?, indent ≤ spot.column) :
    scan.colon = some
      { scan with
        place := scan.place.advance 1
        keyAllowed := false
        outerKey := none
        indents := (opened .blockMappingStart spot.column (scan.indents, before)).1
        tokens := .value :: token :: .key
          :: (opened .blockMappingStart spot.column (scan.indents, before)).2 } := by
  have key_eq : scan.key = some spot := by rw [Scan.key, outside, key]
  have inserted : scan.insert spot.position .key
      = { scan with tokens := [token, .key] ++ before } := by
    rw [insert, tokens_eq, position, List.length_cons, Nat.add_sub_cancel_left]
    rfl
  have opened_eq : (scan.insert spot.position .key).openBlock spot.column spot.position
        .blockMappingStart
      = { scan with
          indents := (opened .blockMappingStart spot.column (scan.indents, before)).1
          tokens := [token, .key]
            ++ (opened .blockMappingStart spot.column (scan.indents, before)).2 } := by
    rw [inserted, position]
    exact @openBlock_eq { scan with tokens := [token, .key] ++ before } _ outside shallow _ _ rfl _
  rw [colon, key_eq, Option.filter_some, if_pos reaches]
  simp only [opened_eq, setKey, outside]
  rfl

end Marks

end Scan

theorem meaning_of_styleOf {text : List Char} (plain : styleOf text = .plain) :
    meaning text = .text ∧ fitsPlain text = true := by
  unfold styleOf at plain
  split at plain
  · split at plain <;> cases plain
  · split at plain
    · next reads =>
      split at plain
      · next fits =>
        simp only [readsAsText, Bool.and_eq_true, decide_eq_true_eq] at reads
        exact ⟨reads.1.1, fits⟩
      · split at plain <;> cases plain
    · cases plain

/-- What can be written as a field's name. -/
structure KeyText (name : List Char) : Prop where
  plain : styleOf name = .plain
  word : ' ' ∉ name
  short : name.length ≤ 1024
  /-- It does not bring in other mappings. -/
  own : name ≠ ['<', '<']

namespace KeyText

variable {name : List Char}

theorem nonempty (isKey : KeyText name) : name ≠ [] := by
  rintro rfl
  exact absurd isKey.plain (by decide)

theorem exists_cons (isKey : KeyText name) :
    ∃ c rest, name = c :: rest ∧ PlainChars (c :: rest) ∧ ∀ tail, StartsPlain c (rest ++ tail) := by
  rcases List.exists_cons_of_ne_nil isKey.nonempty with ⟨c, rest, rfl⟩
  have fits := (meaning_of_styleOf isKey.plain).2
  exact ⟨c, rest, rfl, .of_fitsPlain fits, .of_fitsPlain fits⟩

theorem plainWord (isKey : KeyText name) : PlainWord name := by
  rcases isKey.exists_cons with ⟨c, rest, rfl, chars, -⟩
  constructor
  · exact chars.nonempty
  · intro d mem
    apply chars.isSpace_eq_false mem
    rintro rfl
    exact isKey.word mem
  · exact chars.head.2
  · exact chars.last.2

theorem startsToken (isKey : KeyText name) (tail : List Char) :
    Scan.StartsToken (name ++ tail) := by
  have word := isKey.plainWord
  rcases List.exists_cons_of_ne_nil isKey.nonempty with ⟨c, rest, rfl⟩
  intro d mem
  cases mem
  exact ⟨word.unspaced c List.mem_cons_self, fun comment => word.start (congrArg some comment)⟩

/-- A line that starts with a key does not start with a mark between documents. -/
theorem unmarked (isKey : KeyText name) {place : Place} {more : List Char}
    (here : place.rest = name ++ ':' :: more) : place.hasDocumentMark = false := by
  rcases fitsPlain_eq_true_iff.mp (meaning_of_styleOf isKey.plain).2 with ⟨-, -, -, start, -⟩
  match name with
  | [] => exact absurd rfl isKey.nonempty
  | [a] => simp [Place.hasDocumentMark, Place.hasMark, here]
  | [a, b] => simp [Place.hasDocumentMark, Place.hasMark, here]
  | a :: b :: c :: rest =>
    simp only [startsWithIndicator, Bool.or_eq_false_iff, decide_eq_false_iff_not] at start
    rcases start with ⟨⟨⟨dashes, dots⟩, -⟩, -⟩
    have dashes : ¬ [a, b, c] = ['-', '-', '-'] := dashes
    have dots : ¬ [a, b, c] = ['.', '.', '.'] := dots
    simp [Place.hasDocumentMark, Place.hasMark, here, -List.cons.injEq, dashes, dots]

end KeyText

section Marks

variable {scan : Scan} {column : Nat} {indents : List Nat} {tokens all : List Token}
variable {state : List Nat × List Token}

/-- The colon after a field's name is scanned. -/
theorem leads_colon {more : List Char} (space : atSpace more = true) {spot : KeySpot}
    (here : scan.place.rest = ':' :: more) (outside : scan.innerKeys = [])
    (key : scan.outerKey = some spot) (reaches : scan.reaches spot = true)
    (inner : spot.column < scan.place.column) {name : List Char} {before : List Token}
    (tokens_eq : scan.tokens = .scalar .plain name :: before)
    (position : spot.position = before.length)
    (shallow : ∀ indent ∈ scan.indents.head?, indent ≤ spot.column)
    (opens : Scan.opened .blockMappingStart spot.column (scan.indents, before)
      = (spot.column :: indents, tokens))
    (later : ∀ after : Scan, after.AfterMark more spot.column indents
      (.value :: .scalar .plain name :: .key :: tokens) → after.Leads all) :
    scan.Leads all := by
  have settled : scan.settled = scan := by
    apply Scan.settled_of_token outside
    · rw [here]
      rintro c ⟨⟩
      decide
    · intro indent mem
      exact (shallow indent mem).trans inner.le
  have unmarked := Place.hasDocumentMark_of_column (Nat.zero_lt_of_lt inner)
  rw [Place.hasDocumentMark, Bool.or_eq_false_iff] at unmarked
  have isColon : scan.tokenAt ':' more = scan.colon := by
    simp [Scan.tokenAt, unmarked, space]
  have scanned := isColon.trans (Scan.colon_eq outside key reaches tokens_eq position shallow)
  have behind : (scan.place.advance 1).rest = more := by rw [Place.advance, here]; rfl
  rw [← settled] at here scanned
  apply Scan.Leads.of_token here scanned
  · change (scan.settled.place.advance 1).rest.length ≤ _
    rw [settled, behind]
  · apply later
    rw [settled, opens]
    exact ⟨behind, inner.le.trans (Nat.le_add_right _ 1), rfl, rfl, outside, rfl⟩

/-- The name of a field and its colon are scanned. -/
theorem leads_key {name more : List Char} (isKey : KeyText name) (space : atSpace more = true)
    (line : scan.settled.AtLine (name ++ ':' :: more) column state)
    (opens : Scan.opened .blockMappingStart column state = (column :: indents, tokens))
    (later : ∀ after : Scan, after.AfterMark more column indents
      (.value :: .scalar .plain name :: .key :: tokens) → after.Leads all) :
    scan.Leads all := by
  rcases isKey.exists_cons with ⟨c, rest, name_eq, -, starts⟩
  have unmarked := isKey.unmarked line.rest_eq
  have shallow := line.shallow
  have behind : (scan.settled.place.advance name.length).rest = ':' :: more :=
    Place.advance_rest_of_append line.rest_eq
  rw [← line.column_eq, ← line.state_eq] at opens shallow
  rw [← line.column_eq] at later
  have isKeyToken : scan.settled.tokenAt c (rest ++ ':' :: more) = some (scan.settled.after
      (.scalar .plain name) (scan.settled.place.advance name.length) (some scan.settled.keySpot)
      false) := by
    have flow : scan.settled.inFlow = false := by rw [Scan.inFlow, line.outside]; rfl
    rw [Scan.tokenAt_plain unmarked line.outside (starts _), Scan.plain, line.saveKey_eq]
    simp only [Option.bind_eq_bind, Option.bind_some, Scan.withKey_inFlow, Scan.withKey_place, flow]
    rw [isKey.plainWord.readPlain_key space line.rest_eq unmarked]
    rfl
  apply Scan.Leads.of_token (line.rest_eq.trans (by rw [name_eq]; rfl)) isKeyToken
  · change (scan.settled.place.advance name.length).rest.length ≤ _
    rw [behind]
    simp
  · have inner : scan.settled.place.column < scan.settled.place.column + name.length :=
      Nat.lt_add_of_pos_right (List.length_pos_iff.mpr isKey.nonempty)
    have reaches : (scan.settled.after (.scalar .plain name)
        (scan.settled.place.advance name.length) (some scan.settled.keySpot) false).reaches
        scan.settled.keySpot = true := by
      have near := isKey.short
      simpa [Scan.reaches, Scan.after, Scan.keySpot, Place.advance] using near
    exact leads_colon space behind line.outside rfl reaches inner rfl rfl shallow opens later

/-- The dash before an entry is scanned. -/
theorem leads_dash {more : List Char} (space : atSpace more = true) (inner : 0 < column)
    (line : scan.settled.AtLine ('-' :: more) column state)
    (opens : Scan.opened .blockSequenceStart column state = (column :: indents, tokens))
    (later : ∀ after : Scan, after.AfterMark more column indents (.blockEntry :: tokens) →
      after.Leads all) :
    scan.Leads all := by
  have shallow := line.shallow
  rw [← line.column_eq] at inner later
  rw [← line.column_eq, ← line.state_eq] at opens shallow
  have unmarked := Place.hasDocumentMark_of_column inner
  rw [Place.hasDocumentMark, Bool.or_eq_false_iff] at unmarked
  have isEntry : scan.settled.tokenAt '-' more = scan.settled.blockEntry := by
    simp [Scan.tokenAt, unmarked, space]
  have behind : (scan.settled.place.advance 1).rest = more := by
    rw [Place.advance, line.rest_eq]
    rfl
  have scanned : scan.settled.blockEntry = some
      { scan.settled with
        place := scan.settled.place.advance 1
        keyAllowed := true
        outerKey := none
        indents := scan.settled.place.column :: indents
        tokens := .blockEntry :: tokens } := by
    have opened_eq := @Scan.openBlock_eq scan.settled _ line.outside shallow scan.settled.tokens []
      rfl .blockSequenceStart
    rw [opens] at opened_eq
    have dropped := @Scan.dropKey_of_loose
      (scan.settled.openBlock scan.settled.place.column scan.settled.tokens.length
        .blockSequenceStart) (opened_eq ▸ line.outside) (opened_eq ▸ line.loose)
    rw [Scan.blockEntry, if_neg (by simp [line.allowed]), dropped, opened_eq]
    rfl
  apply Scan.Leads.of_token line.rest_eq (isEntry.trans scanned)
  · exact behind.symm ▸ Nat.le_refl _
  · exact later _ ⟨behind, Nat.le_add_right _ 1, rfl, rfl, line.outside, rfl⟩

end Marks

end Protoclass.Yaml
