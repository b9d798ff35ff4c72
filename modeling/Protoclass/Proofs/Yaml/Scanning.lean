import Protoclass.Proofs.Yaml.Styles

/-!
# Scanning token by token

`Scan.Leads` says which tokens a scan ends with; one token read is one step back
from the end (`Leads.of_token`).  So a text is scanned from its end to its start:
the lemmas here say that whatever is scanned after a token can be scanned after
the token has been read.
-/

namespace Protoclass.Yaml

namespace Scan

/-! ## Steps -/

/-- Scanning gets to the end of the text, and these are all tokens, newest
first. -/
def Leads (scan : Scan) (tokens : List Token) : Prop :=
  ∀ limit, scan.place.rest.length < limit → run limit scan = (tokens, true)

theorem length_skipSpace_le (flow keyAllowed tokenLine commented inComment : Bool)
    (line column index : Nat) (rest : List Char) :
    (skipSpace flow keyAllowed tokenLine commented inComment line column index rest).1.rest.length
      ≤ rest.length := by
  fun_induction skipSpace flow keyAllowed tokenLine commented inComment line column index rest <;>
    simp only [List.length_cons] <;> omega

theorem closeBlocks_place (scan : Scan) (column : Int) :
    (scan.closeBlocks column).place = scan.place := by
  unfold closeBlocks
  split <;> rfl

theorem length_settled_le (scan : Scan) :
    scan.settled.place.rest.length ≤ scan.place.rest.length := by
  rw [settled, closeBlocks_place]
  apply length_skipSpace_le

/-- One token is read. -/
theorem Leads.of_token {scan next : Scan} {c : Char} {rest : List Char} {tokens : List Token}
    (here : scan.settled.place.rest = c :: rest) (token : scan.settled.tokenAt c rest = some next)
    (shorter : next.place.rest.length ≤ rest.length) (leads : next.Leads tokens) :
    scan.Leads tokens := by
  intro limit enough
  have room : next.place.rest.length + 1 < limit := by
    have := length_settled_le scan
    rw [here, List.length_cons] at this
    omega
  cases limit with
  | zero => omega
  | succ limit =>
    have step : run (limit + 1) scan = run limit next := by
      rw [run]
      simp only [here, token]
    rw [step]
    exact leads limit (by omega)

/-- The end of the text is reached. -/
theorem leads_of_end {scan done : Scan} (here : scan.settled.place.rest = [])
    (finish : scan.settled.finish = some done) : scan.Leads done.tokens := by
  intro limit enough
  cases limit with
  | zero => omega
  | succ limit =>
    rw [run]
    simp only [here, finish]

/-! ## To the next token -/

/-- What is left of a text starts with a token, or nothing is left. -/
def StartsToken (rest : List Char) : Prop := ∀ c ∈ rest.head?, isSpace c = false ∧ c ≠ '#'

theorem StartsToken.unspaced {rest : List Char} (starts : StartsToken rest) : Unspaced rest :=
  fun c mem => (starts c mem).1

theorem skipSpace_token {rest : List Char} (starts : StartsToken rest)
    (keyAllowed tokenLine : Bool) (line column index : Nat) :
    skipSpace false keyAllowed tokenLine false false line column index rest
      = ({ rest, line, column, index }, keyAllowed) := by
  cases rest with
  | nil => rfl
  | cons c rest =>
    rcases starts c rfl with ⟨space, comment⟩
    have blank := isBlank_of_isSpace space
    simp only [isBlank, Bool.or_eq_false_iff, decide_eq_false_iff_not] at blank
    rw [skipSpace]
    · simp [isBreak_of_isSpace space, blank, comment]
    · rintro rest' rfl
      simp [isSpace, isBreak] at space

theorem skipSpace_spaces (keyAllowed tokenLine : Bool) (line column index count : Nat)
    (rest : List Char) :
    skipSpace false keyAllowed tokenLine false false line column index
        (List.replicate count ' ' ++ rest)
      = skipSpace false keyAllowed tokenLine false false line (column + count) (index + count)
        rest := by
  induction count generalizing column index with
  | zero => rfl
  | succ count ih =>
    have step : skipSpace false keyAllowed tokenLine false false line column index
          (' ' :: (List.replicate count ' ' ++ rest))
        = skipSpace false keyAllowed tokenLine false false line (column + 1) (index + 1)
          (List.replicate count ' ' ++ rest) := by
      rw [skipSpace]
      · simp [isBreak]
      · simp
    rw [List.replicate_succ, List.cons_append, step, ih, Nat.add_assoc column, Nat.add_assoc index,
      Nat.add_comm 1 count]

theorem skipSpace_newline (keyAllowed tokenLine : Bool) (line column index : Nat)
    (rest : List Char) :
    skipSpace false keyAllowed tokenLine false false line column index ('\n' :: rest)
      = skipSpace false true false false false (line + 1) 0 (index + 1) rest := by
  rw [skipSpace]
  · simp [isBreak]
  · simp

/-! ## Where scanning stands -/

/-- Indentations and tokens after the blocks deeper than a column are closed. -/
def closed (column : Nat) (indents : List Nat) (tokens : List Token) : List Nat × List Token :=
  ((closedAt column indents).1, List.replicate (closedAt column indents).2 .blockEnd ++ tokens)

theorem closed_of_lt {column indent : Nat} (deeper : column < indent) (indents : List Nat)
    (tokens : List Token) :
    closed column (indent :: indents) tokens = closed column indents (.blockEnd :: tokens) := by
  have inside : (column : Int) < indent := by omega
  simp only [closed, closedAt, if_pos inside, List.replicate_succ', List.append_assoc,
    List.singleton_append]

theorem closed_of_le {column indent : Nat} (shallow : indent ≤ column) (indents : List Nat)
    (tokens : List Token) :
    closed column (indent :: indents) tokens = (indent :: indents, tokens) := by
  have outside : ¬ (column : Int) < indent := by omega
  simp only [closed, closedAt, if_neg outside]
  rfl

/-- A settled scan is at the first token of a line, where a key may start. -/
structure AtLine (here : Scan) (rest : List Char) (column : Nat)
    (state : List Nat × List Token) : Prop where
  rest_eq : here.place.rest = rest
  column_eq : here.place.column = column
  state_eq : (here.indents, here.tokens) = state
  allowed : here.keyAllowed = true
  outside : here.innerKeys = []
  loose : ∀ spot ∈ here.outerKey, spot.required = false

/-- A settled scan is at a scalar inside a block of indentation `outer`. -/
structure AtScalar (here : Scan) (rest : List Char) (outer : Nat) (indents : List Nat)
    (tokens : List Token) : Prop where
  rest_eq : here.place.rest = rest
  column_lt : outer < here.place.column
  indents_eq : here.indents = outer :: indents
  tokens_eq : here.tokens = tokens
  outside : here.innerKeys = []
  loose : ∀ spot ∈ here.outerKey, spot.required = false

theorem settled_eq {scan : Scan} (outside : scan.innerKeys = []) {place : Place}
    {keyAllowed : Bool}
    (skip : ∀ tokenLine, skipSpace false scan.keyAllowed tokenLine false false scan.place.line
      scan.place.column scan.place.index scan.place.rest = (place, keyAllowed)) :
    scan.settled
      = { scan with
          place
          keyAllowed
          indents := (closed place.column scan.indents scan.tokens).1
          tokens := (closed place.column scan.indents scan.tokens).2 } := by
  simp only [settled, toToken, skip, closeBlocks, inFlow, outside, List.isEmpty_nil,
    Bool.not_true, Bool.false_eq_true, if_false, closed]

theorem atLine_of_token {scan : Scan} (outside : scan.innerKeys = [])
    (allowed : scan.keyAllowed = true) (loose : ∀ spot ∈ scan.outerKey, spot.required = false)
    (starts : StartsToken scan.place.rest) :
    AtLine scan.settled scan.place.rest scan.place.column
      (closed scan.place.column scan.indents scan.tokens) := by
  rw [settled_eq outside fun tokenLine => skipSpace_token starts _ _ _ _ _]
  exact ⟨rfl, rfl, rfl, allowed, outside, loose⟩

theorem atLine_of_newline {scan : Scan} (outside : scan.innerKeys = [])
    (loose : ∀ spot ∈ scan.outerKey, spot.required = false) {count : Nat} {next : List Char}
    (here : scan.place.rest = '\n' :: (List.replicate count ' ' ++ next))
    (starts : StartsToken next) :
    AtLine scan.settled next count (closed count scan.indents scan.tokens) := by
  have skip : ∀ tokenLine, skipSpace false scan.keyAllowed tokenLine false false scan.place.line
      scan.place.column scan.place.index scan.place.rest
      = (⟨next, scan.place.line + 1, count, scan.place.index + 1 + count⟩, true) := by
    intro tokenLine
    rw [here, skipSpace_newline, skipSpace_spaces, skipSpace_token starts, Nat.zero_add]
  rw [settled_eq outside skip]
  exact ⟨rfl, rfl, rfl, rfl, outside, loose⟩

theorem atScalar_of_space {scan : Scan} (outside : scan.innerKeys = [])
    (loose : ∀ spot ∈ scan.outerKey, spot.required = false) {rest : List Char}
    (here : scan.place.rest = ' ' :: rest) (starts : StartsToken rest) {outer : Nat}
    {indents : List Nat} (indents_eq : scan.indents = outer :: indents)
    (column : outer ≤ scan.place.column) :
    AtScalar scan.settled rest outer indents scan.tokens := by
  have skip : ∀ tokenLine, skipSpace false scan.keyAllowed tokenLine false false scan.place.line
      scan.place.column scan.place.index scan.place.rest
      = (⟨rest, scan.place.line, scan.place.column + 1, scan.place.index + 1⟩,
        scan.keyAllowed) := by
    intro tokenLine
    have step := skipSpace_spaces scan.keyAllowed tokenLine scan.place.line scan.place.column
      scan.place.index 1 rest
    rw [here, ← List.singleton_append]
    exact step.trans (skipSpace_token starts _ _ _ _ _)
  rw [settled_eq outside skip, indents_eq, closed_of_le (by simp only; omega)]
  exact ⟨rfl, by simp only; omega, rfl, rfl, outside, loose⟩

/-! ## Keys -/

/-- A scan that remembers another spot, or none, for a key. -/
def withKey (here : Scan) (key : Option KeySpot) : Scan := { here with outerKey := key }

@[simp]
theorem withKey_place (here : Scan) (key : Option KeySpot) :
    (here.withKey key).place = here.place :=
  rfl

@[simp]
theorem withKey_indent (here : Scan) (key : Option KeySpot) :
    (here.withKey key).indent = here.indent :=
  rfl

@[simp]
theorem withKey_inFlow (here : Scan) (key : Option KeySpot) :
    (here.withKey key).inFlow = here.inFlow :=
  rfl

theorem AtScalar.indent_eq {here : Scan} {rest : List Char} {outer : Nat} {indents : List Nat}
    {tokens : List Token} (spot : AtScalar here rest outer indents tokens) :
    here.indent = outer := by
  rw [indent, spot.indents_eq]

theorem dropKey_of_loose {here : Scan} (outside : here.innerKeys = [])
    (loose : ∀ spot ∈ here.outerKey, spot.required = false) :
    here.dropKey = some (here.withKey none) := by
  rcases here with ⟨place, indents, keyAllowed, outerKey, innerKeys, tokens⟩
  cases outside
  cases outerKey with
  | none => rfl
  | some spot =>
    have free : spot.required = false := loose spot rfl
    simp only [dropKey, key, free, Bool.false_eq_true, if_false, setKey, withKey]

/-- A scalar may be remembered as a key, but it need not be one. -/
theorem AtScalar.exists_saveKey {here : Scan} {rest : List Char} {outer : Nat} {indents : List Nat}
    {tokens : List Token} (spot : AtScalar here rest outer indents tokens) :
    ∃ key, here.saveKey = some (here.withKey key)
      ∧ ∀ spot ∈ key, spot.required = false := by
  have column := spot.column_lt
  have apart : ¬ (outer : Int) = here.place.column := by omega
  by_cases allowed : here.keyAllowed = true
  · rw [saveKey, if_pos allowed, dropKey_of_loose spot.outside spot.loose, Option.map_some, setKey]
    simp only [withKey, spot.outside]
    refine ⟨_, rfl, ?_⟩
    simp [inFlow, spot.outside, spot.indent_eq, apart]
  · rw [saveKey, if_neg allowed]
    exact ⟨here.outerKey, rfl, spot.loose⟩

/-! ## Which token it is -/

theorem any_isBlank_of_atSpace {rest : List Char} (inLine : atSpace rest = false) :
    rest.head?.any isBlank = false := by
  cases rest with
  | nil => cases inLine
  | cons c rest => exact isBlank_of_isSpace inLine

/-- A plain scalar is scanned where one can start. -/
theorem tokenAt_plain {here : Scan} {c : Char} {rest : List Char}
    (unmarked : here.place.hasDocumentMark = false) (outside : here.innerKeys = [])
    (starts : StartsPlain c rest) : here.tokenAt c rest = here.plain := by
  rw [Place.hasDocumentMark, Bool.or_eq_false_iff] at unmarked
  rcases starts with ⟨space, sign⟩
  have flow : here.inFlow = false := by simp [inFlow, outside]
  by_cases indicator : isIndicator c = true
  · rcases sign indicator with ⟨rfl | rfl | rfl, inLine⟩
    · have blank := any_isBlank_of_atSpace inLine
      simp [tokenAt, unmarked, flow, inLine, blank]
    · simp [tokenAt, unmarked, flow, inLine]
    · simp [tokenAt, unmarked, flow, inLine]
  · have other := indicator
    simp only [isIndicator, Bool.or_eq_true, decide_eq_true_eq, not_or] at other
    simp [tokenAt, unmarked, flow, other, space, indicator]

/-- Inside a line, some characters say which token they start. -/
theorem tokenAt_inner {here : Scan} (inner : 0 < here.place.column) (outside : here.innerKeys = [])
    (rest : List Char) :
    here.tokenAt '\'' rest = here.quoted .single ∧ here.tokenAt '"' rest = here.quoted .double
      ∧ here.tokenAt '|' rest = here.block .literal ∧ here.tokenAt '!' rest = here.tagged := by
  have unmarked := Place.hasDocumentMark_of_column inner
  rw [Place.hasDocumentMark, Bool.or_eq_false_iff] at unmarked
  simp [tokenAt, unmarked, inFlow, outside]

/-! ## Scalars -/

/-- The token at a settled scan is read, and the next token stands at a column of
a later line. -/
def ReadsTo (here : Scan) (next : List Char) (column : Nat) (state : List Nat × List Token) :
    Prop :=
  ∃ c rest after, here.place.rest = c :: rest ∧ here.tokenAt c rest = some after
    ∧ after.place.rest.length ≤ rest.length ∧ AtLine after.settled next column state

theorem ReadsTo.leads {scan : Scan} {next : List Char} {column : Nat}
    {state : List Nat × List Token} (reads : ReadsTo scan.settled next column state)
    {tokens : List Token}
    (later : ∀ after : Scan, AtLine after.settled next column state → after.Leads tokens) :
    scan.Leads tokens := by
  rcases reads with ⟨c, rest, after, here, token, shorter, line⟩
  exact Leads.of_token here token shorter (later after line)

/-- A scan after a token, at a place. -/
def after (here : Scan) (token : Token) (place : Place) (key : Option KeySpot) (keyAllowed : Bool) :
    Scan :=
  { here with place, keyAllowed, outerKey := key, tokens := token :: here.tokens }

section Scalars

variable {here : Scan} {rest : List Char} {outer : Nat} {indents : List Nat} {tokens : List Token}
variable {count : Nat} {next : List Char}

theorem AtScalar.inFlow_eq (spot : AtScalar here rest outer indents tokens) :
    here.inFlow = false := by
  rw [inFlow, spot.outside]
  rfl

theorem AtScalar.inner (spot : AtScalar here rest outer indents tokens) :
    0 < here.place.column :=
  Nat.lt_of_le_of_lt (Nat.zero_le outer) spot.column_lt

theorem AtScalar.readsTo_of_token (spot : AtScalar here rest outer indents tokens)
    (token : StartsToken next) {c : Char} {more : List Char} (start : rest = c :: more)
    {place : Place} (place_eq : place.rest = next) (column : place.column = count)
    (shorter : next.length ≤ more.length) {key : Option KeySpot}
    (loose : ∀ spot ∈ key, spot.required = false) {scalar : Token}
    (scanned : here.tokenAt c more = some (here.after scalar place key true)) :
    ReadsTo here next count (closed count (outer :: indents) (scalar :: tokens)) := by
  have line : AtLine (here.after scalar place key true).settled place.rest place.column
      (closed place.column here.indents (scalar :: here.tokens)) :=
    atLine_of_token spot.outside rfl loose (place_eq.symm ▸ token)
  rw [place_eq, column, spot.indents_eq, spot.tokens_eq] at line
  exact ⟨c, more, _, spot.rest_eq.trans start, scanned, place_eq.symm ▸ shorter, line⟩

theorem AtScalar.readsTo_of_newline (spot : AtScalar here rest outer indents tokens)
    (token : StartsToken next) {c : Char} {more : List Char} (start : rest = c :: more)
    {place : Place} (place_eq : place.rest = '\n' :: (List.replicate count ' ' ++ next))
    (shorter : place.rest.length ≤ more.length) {key : Option KeySpot}
    (loose : ∀ spot ∈ key, spot.required = false) {scalar : Token} {keyAllowed : Bool}
    (scanned : here.tokenAt c more = some (here.after scalar place key keyAllowed)) :
    ReadsTo here next count (closed count (outer :: indents) (scalar :: tokens)) := by
  have line : AtLine (here.after scalar place key keyAllowed).settled next count
      (closed count here.indents (scalar :: here.tokens)) :=
    @atLine_of_newline (here.after scalar place key keyAllowed) spot.outside loose _ _ place_eq
      token
  rw [spot.indents_eq, spot.tokens_eq] at line
  exact ⟨c, more, _, spot.rest_eq.trans start, scanned, shorter, line⟩

theorem AtScalar.readsTo_plain {c : Char} {more : List Char} (plain : PlainText (c :: more))
    (starts : ∀ tail, StartsPlain c (more ++ tail)) (token : StartsToken next)
    (outside : count ≤ outer)
    (spot : AtScalar here ((c :: more) ++ '\n' :: (List.replicate count ' ' ++ next)) outer indents
      tokens) :
    ReadsTo here next count
      (closed count (outer :: indents) (.scalar .plain (c :: more) :: tokens)) := by
  have unmarked := Place.hasDocumentMark_of_column spot.inner
  rcases spot.exists_saveKey with ⟨key, save, loose⟩
  rcases plain.exists_readPlain token.unspaced (Nat.lt_succ_of_le outside) spot.rest_eq
    unmarked with
    ⟨place, read, place_eq, column⟩
  apply spot.readsTo_of_token token (List.cons_append ..) place_eq column _ loose
  · rw [tokenAt_plain unmarked spot.outside (starts _), Scan.plain, save]
    simp only [Option.bind_eq_bind, Option.bind_some, withKey_inFlow, withKey_indent, withKey_place,
      spot.inFlow_eq, spot.indent_eq]
    rw [show ((outer : Int) + 1).toNat = outer + 1 from rfl, read]
    rfl
  · simp
    omega

theorem AtScalar.readsTo_quoted {style : Style} {written text : List Char} {quote : Char}
    {more : List Char} (start : written = quote :: more)
    (isQuoted : ∀ rest, here.tokenAt quote rest = here.quoted style)
    (holds : ∀ {place : Place} {tail : List Char}, tail.head? = some '\n' →
      place.rest = written ++ tail →
      ∃ after, readQuoted (style = .double) place = some { text, place := after }
        ∧ after.rest = tail)
    (token : StartsToken next)
    (spot : AtScalar here (written ++ '\n' :: (List.replicate count ' ' ++ next)) outer indents
      tokens) :
    ReadsTo here next count (closed count (outer :: indents) (.scalar style text :: tokens)) := by
  rcases spot.exists_saveKey with ⟨key, save, loose⟩
  rcases holds rfl spot.rest_eq with ⟨place, read, place_eq⟩
  have first : written ++ '\n' :: (List.replicate count ' ' ++ next)
      = quote :: (more ++ '\n' :: (List.replicate count ' ' ++ next)) := by
    rw [start]
    rfl
  apply spot.readsTo_of_newline token first place_eq _ loose
  · rw [isQuoted, Scan.quoted, save]
    simp only [Option.bind_eq_bind, Option.bind_some, withKey_place]
    rw [read]
    rfl
  · rw [place_eq]
    simp

theorem AtScalar.readsTo_block {c : Char} {text : List Char} (notBreak : isBreak c = false)
    (notTab : c ≠ '\t') (lineEnds : ∀ d ∈ c :: text, isBreak d = true → IsLineEnd d)
    {indent : Nat} (deeper : outer < indent) (digit : c = ' ' → indent = outer + 4)
    (token : StartsToken next) (outside : count ≤ outer)
    (spot : AtScalar here
      (endLine (literalBlock indent (c :: text)) ++ (List.replicate count ' ' ++ next)) outer
      indents tokens) :
    ReadsTo here next count
      (closed count (outer :: indents) (.scalar .literal (c :: text) :: tokens)) := by
  rcases exists_readBlock notBreak notTab lineEnds deeper digit (Nat.lt_of_le_of_lt outside deeper)
    token.unspaced spot.rest_eq with ⟨place, read, place_eq, column⟩
  rcases exists_endLine (literalBlock indent (c :: text)) with ⟨more, written⟩
  have first : endLine (literalBlock indent (c :: text)) ++ (List.replicate count ' ' ++ next)
      = '|' :: ((literalBlock indent (c :: text)).tail ++ more
        ++ (List.replicate count ' ' ++ next)) := by
    rw [written]
    rfl
  have loose : ∀ spot ∈ (none : Option KeySpot), spot.required = false := by simp
  apply spot.readsTo_of_token token first place_eq column _ loose
  · rw [(tokenAt_inner spot.inner spot.outside _).2.2.1, Scan.block,
      dropKey_of_loose spot.outside spot.loose]
    simp only [Option.bind_eq_bind, Option.bind_some, withKey_place, withKey_indent, spot.indent_eq]
    rw [show decide (Style.literal = Style.folded) = false from rfl, read]
    rfl
  · simp
    omega

/-- Where a text is written in a style, the reader finds the text in that style.
A block of lines may not start with a line end or a tab, and with a space only if
it is indented by four columns. -/
theorem AtScalar.readsTo {text : List Char} {style : Style} (styled : Styled text style)
    {indent : Nat} (deeper : outer < indent)
    (block : style = .literal → ∀ c ∈ text.head?, isBreak c = false ∧ c ≠ '\t'
      ∧ (c = ' ' → indent = outer + 4))
    (token : StartsToken next) (outside : count ≤ outer)
    (spot : AtScalar here
      (endLine (inStyle style indent text) ++ (List.replicate count ' ' ++ next)) outer indents
      tokens) :
    ReadsTo here next count (closed count (outer :: indents) (.scalar style text :: tokens)) := by
  cases styled with
  | @plain c rest text_eq plain starts =>
    cases text_eq
    rw [inStyle, endLine_of_unbroken plain.unbroken, List.append_assoc] at spot
    exact spot.readsTo_plain plain starts token outside
  | single single =>
    have indented : 0 < indent := Nat.lt_of_le_of_lt (Nat.zero_le outer) deeper
    rw [inStyle, singleQuoted, endLine_concat (by decide), ← singleQuoted,
      List.append_assoc] at spot
    apply spot.readsTo_quoted rfl (fun rest => (tokenAt_inner spot.inner spot.outside rest).1) _
      token
    intro place tail newline here
    exact single.exists_readQuoted indented (by rw [newline]; decide) here
  | double =>
    rw [inStyle, doubleQuoted, endLine_concat (by decide), ← doubleQuoted,
      List.append_assoc] at spot
    apply spot.readsTo_quoted rfl (fun rest => (tokenAt_inner spot.inner spot.outside rest).2.1) _
      token
    intro place tail newline here
    exact exists_readQuoted_double here
  | literal nonempty lineEnds =>
    rcases List.exists_cons_of_ne_nil nonempty with ⟨c, rest, rfl⟩
    rcases block rfl c rfl with ⟨notBreak, notTab, digit⟩
    exact spot.readsTo_block notBreak notTab lineEnds deeper digit token outside

end Scalars

end Scan

end Protoclass.Yaml
