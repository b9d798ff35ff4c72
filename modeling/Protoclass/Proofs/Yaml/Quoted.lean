import Mathlib.Algebra.Group.Nat.Defs
import Mathlib.Data.List.Chain
import Protoclass.Proofs.Text.Utf8
import Protoclass.Proofs.Yaml.Gaps
import Protoclass.Yaml.Printer

/-!
# Quoted scalars

What is written in quotes is read back as the same text, whatever follows the
last quote.  In double quotes that holds for every text
(`exists_readQuoted_double`): what a reader would take for something else is
escaped.  In single quotes a text may have spaces and line ends, but not side by
side (`SingleText`); the indentation of a line after a line end is not part of
the text (`SingleText.exists_readQuoted`).
-/

namespace Protoclass.Yaml

/-! ## Words in single quotes -/

theorem singleWord_of_ne {c : Char} {rest : List Char} (space : isSpace c = false)
    (quote : c ≠ '\'') :
    singleWord (c :: rest) = (c :: (singleWord rest).1, (singleWord rest).2 + 1) := by
  rw [singleWord]
  · simp [space, quote]
  · intro rest' same
    exact absurd same quote

/-- A word is read to its end. -/
theorem singleWord_append {word rest : List Char} (unspaced : ∀ c ∈ word, isSpace c = false)
    (stop : singleWord rest = ([], 0)) :
    singleWord (word.flatMap inSingleQuotes ++ rest)
      = (word, (word.flatMap inSingleQuotes).length) := by
  induction word with
  | nil => exact stop
  | cons c word ih =>
    have later := ih fun d mem => unspaced d (List.mem_cons_of_mem c mem)
    rw [List.flatMap_cons, List.append_assoc]
    by_cases quote : c = '\''
    · rw [inSingleQuotes, if_pos quote, List.cons_append, List.cons_append, singleWord,
        List.nil_append, later, quote]
      simp
    · rw [inSingleQuotes, if_neg quote, List.cons_append,
        singleWord_of_ne (unspaced c List.mem_cons_self) quote, List.nil_append, later]
      simp

theorem singleWord_of_isSpace {c : Char} {rest : List Char} (space : isSpace c = true) :
    singleWord (c :: rest) = ([], 0) := by
  rw [singleWord]
  · simp [space]
  · rintro rest' rfl
    simp [isSpace, isBlank, isBreak] at space

theorem singleWord_of_end {rest : List Char} (stop : rest.head? ≠ some '\'') :
    singleWord ('\'' :: rest) = ([], 0) := by
  rw [singleWord]
  · simp
  · rintro rest' - rfl
    simp at stop

/-! ## Writing in single quotes -/

theorem singleQuotedFrom_word (indent : Nat) {word : List Char}
    (unspaced : ∀ c ∈ word, isSpace c = false) (rest : List Char) :
    singleQuotedFrom indent false (word ++ rest)
      = word.flatMap inSingleQuotes ++ singleQuotedFrom indent false rest := by
  induction word with
  | nil => rfl
  | cons c word ih =>
    have notBreak := isBreak_of_isSpace (unspaced c List.mem_cons_self)
    rw [List.cons_append, singleQuotedFrom, if_neg (by simp [notBreak]), Bool.false_and,
      Bool.false_and, ih fun d mem => unspaced d (List.mem_cons_of_mem c mem)]
    simp

theorem singleQuotedFrom_spaces (indent count : Nat) (rest : List Char) :
    singleQuotedFrom indent false (List.replicate count ' ' ++ rest)
      = List.replicate count ' ' ++ singleQuotedFrom indent false rest := by
  induction count with
  | zero => rfl
  | succ count ih =>
    rw [List.replicate_succ, List.cons_append, singleQuotedFrom, if_neg (by decide),
      Bool.false_and, Bool.false_and, ih]
    rfl

theorem singleQuotedFrom_lineEnds (indent : Nat) {breaks : List Char} (nonempty : breaks ≠ [])
    (ends : ∀ c ∈ breaks, IsLineEnd c) (broken : Bool) (rest : List Char) :
    singleQuotedFrom indent broken (breaks ++ rest)
      = breaks ++ singleQuotedFrom indent true rest := by
  induction breaks generalizing broken with
  | nil => exact absurd rfl nonempty
  | cons c breaks ih =>
    rw [List.cons_append, singleQuotedFrom, if_pos (ends c List.mem_cons_self).isBreak,
      List.cons_append]
    cases breaks with
    | nil => rfl
    | cons d breaks => rw [ih (by simp) fun e mem => ends e (List.mem_cons_of_mem c mem)]

/-- After a line end, the next line is indented. -/
theorem singleQuotedFrom_broken (indent : Nat) {rest : List Char} (unspaced : Unspaced rest) :
    singleQuotedFrom indent true rest
      = List.replicate (if rest = [] then 0 else indent) ' '
        ++ singleQuotedFrom indent false rest := by
  cases rest with
  | nil => rfl
  | cons c rest =>
    have space := unspaced_cons.mp unspaced
    have notBlank : c ≠ ' ' := by
      rintro rfl
      simp [isSpace, isBlank] at space
    simp [singleQuotedFrom, isBreak_of_isSpace space, notBlank]

/-! ## Reading quotes -/

/-- The closing quote after the last word ends the scalar. -/
theorem exists_readQuotedFrom_end {double : Bool} {place : Place} {word written tail : List Char}
    (unmarked : place.hasDocumentMark = false)
    (here : place.rest = written ++ (if double then '"' else '\'') :: tail)
    (found : quotedWord double place.rest = some (word, written.length))
    {limit : Nat} (enough : place.rest.length ≤ limit) (front : List Char) :
    ∃ after, readQuotedFrom double limit front place
        = some { text := front ++ word, place := after }
      ∧ after.rest = tail := by
  have behind := Place.advance_rest_of_append here
  have some_left : 0 < place.rest.length := by
    rw [here, List.length_append, List.length_cons]
    omega
  have nonempty : place.rest.isEmpty = false := by
    rw [List.isEmpty_eq_false_iff]
    exact List.length_pos_iff.mp some_left
  rcases Nat.exists_eq_add_of_lt (Nat.lt_of_lt_of_le some_left enough) with ⟨limit, rfl⟩
  refine ⟨(place.advance written.length).advance 1, ?_, ?_⟩
  · rw [Nat.zero_add, readQuotedFrom, unmarked, nonempty, Bool.or_false, if_neg (by simp), found]
    simp [behind]
  · rw [Place.advance, behind]
    rfl

/-- A gap between two words is passed over. -/
theorem readQuotedFrom_gap {double : Bool} {place after : Place} {word rest : List Char}
    {length : Nat} {c : Char} {gap : Gap} (unmarked : place.hasDocumentMark = false)
    (found : quotedWord double place.rest = some (word, length))
    (behind : (place.advance length).rest = c :: rest) (space : isSpace c = true)
    (read : ({} : Gap).read (place.advance length) = (gap, after))
    (limit : Nat) (front : List Char) :
    readQuotedFrom double (limit + 1) front place
      = readQuotedFrom double limit (front ++ word ++ gap.text) after := by
  have nonempty : place.rest.isEmpty = false := by
    rw [List.isEmpty_eq_false_iff]
    intro empty
    simp [Place.advance, empty] at behind
  have notQuote : c ≠ (if double then '"' else '\'') := by
    rintro rfl
    cases double <;> simp [isSpace, isBlank, isBreak] at space
  have notEscape : c ≠ '\\' := by
    rintro rfl
    simp [isSpace, isBlank, isBreak] at space
  rw [readQuotedFrom, unmarked, nonempty, Bool.or_false, if_neg (by simp), found]
  simp only [behind, notQuote, notEscape, if_false, decide_false, Bool.false_and,
    Bool.false_eq_true, read]

/-! ## Single quotes -/

/-- The separators of lines and of paragraphs.  Unlike a newline, they stand for
themselves inside quotes. -/
def IsSeparator (c : Char) : Prop := c = Char.ofNat 0x2028 ∨ c = Char.ofNat 0x2029

theorem IsSeparator.isLineEnd {c : Char} (separator : IsSeparator c) : IsLineEnd c := .inr separator

theorem IsSeparator.ne_newline {c : Char} (separator : IsSeparator c) : c ≠ '\n' := by
  rcases separator with rfl | rfl <;> decide

/-- A text that single quotes can hold: its spaces are ordinary ones or
separators, and the two do not stand side by side. -/
structure SingleText (text : List Char) : Prop where
  spaces : ∀ c ∈ text, isSpace c = true → c = ' ' ∨ IsSeparator c
  before : text.IsChain fun a b => ¬ (a = ' ' ∧ IsSeparator b)
  after : text.IsChain fun a b => ¬ (IsSeparator a ∧ b = ' ')

theorem SingleText.of_append {front text : List Char} (single : SingleText (front ++ text)) :
    SingleText front ∧ SingleText text := by
  have before := List.isChain_append.mp single.before
  have after := List.isChain_append.mp single.after
  constructor
  · exact ⟨fun c mem => single.spaces c (List.mem_append_left text mem), before.1, after.1⟩
  · exact ⟨fun c mem => single.spaces c (List.mem_append_right front mem), before.2.1, after.2.1⟩

/-- A gap is made of spaces or of separators. -/
theorem SingleText.gap_cases {gap : List Char} (single : SingleText gap)
    (isGap : ∀ c ∈ gap, isSpace c = true) :
    (∀ c ∈ gap, c = ' ') ∨ ∀ c ∈ gap, IsSeparator c := by
  induction gap with
  | nil => simp
  | cons c gap ih =>
    have kind := single.spaces c List.mem_cons_self (isGap c List.mem_cons_self)
    have rest : SingleText gap := (SingleText.of_append (List.singleton_append ▸ single)).2
    cases gap with
    | nil => simpa using kind
    | cons d gap =>
      have before := (List.isChain_cons_cons.mp single.before).1
      have after := (List.isChain_cons_cons.mp single.after).1
      rcases ih rest fun e mem => isGap e (List.mem_cons_of_mem c mem) with spaces | separators
      · have first := spaces d List.mem_cons_self
        have space : c = ' ' := kind.resolve_right fun separator => after ⟨separator, first⟩
        left
        intro e mem
        rcases List.mem_cons.mp mem with rfl | mem
        · exact space
        · exact spaces e mem
      · have first := separators d List.mem_cons_self
        have separator : IsSeparator c := kind.resolve_left fun space => before ⟨space, first⟩
        right
        intro e mem
        rcases List.mem_cons.mp mem with rfl | mem
        · exact separator
        · exact separators e mem

theorem text_of_separator {first : Char} (separator : IsSeparator first) (more : List Char) :
    ({ firstBreak := some [first], moreBreaks := more } : Gap).text = first :: more := by
  simp [Gap.text, separator.ne_newline]

theorem unspaced_singleQuotedFrom (indent : Nat) {rest : List Char} (stop : Unspaced rest)
    (tail : List Char) : Unspaced (singleQuotedFrom indent false rest ++ '\'' :: tail) := by
  cases rest with
  | nil => exact unspaced_cons.mpr (by decide)
  | cons c rest =>
    have space := unspaced_cons.mp stop
    have notBreak := isBreak_of_isSpace space
    by_cases quote : c = '\''
    · simp [Unspaced, singleQuotedFrom, inSingleQuotes, quote, isSpace, isBlank, isBreak]
    · simp [Unspaced, singleQuotedFrom, inSingleQuotes, quote, notBreak, space]

/-- A gap of a text in single quotes is written as it is, with indentation after
it if it ends a line. -/
theorem SingleText.exists_singleQuotedFrom {gap rest : List Char} (single : SingleText gap)
    (nonempty : gap ≠ []) (isGap : ∀ c ∈ gap, isSpace c = true) (indent : Nat)
    (stop : Unspaced rest) :
    ∃ count, singleQuotedFrom indent false (gap ++ rest)
      = gap ++ (List.replicate count ' ' ++ singleQuotedFrom indent false rest) := by
  rcases single.gap_cases isGap with spaces | separators
  · have same : gap = List.replicate gap.length ' ' := List.eq_replicate_iff.mpr ⟨rfl, spaces⟩
    exists 0
    rw [same, singleQuotedFrom_spaces]
    rfl
  · have ends : ∀ c ∈ gap, IsLineEnd c := fun c mem => (separators c mem).isLineEnd
    rw [singleQuotedFrom_lineEnds indent nonempty ends, singleQuotedFrom_broken indent stop]
    exact ⟨_, rfl⟩

/-- A gap of a text in single quotes is read as it is, and the indentation after
it is left out. -/
theorem SingleText.exists_read_gap {gap rest : List Char} (single : SingleText gap)
    (nonempty : gap ≠ []) (isGap : ∀ c ∈ gap, isSpace c = true) {indent : Nat}
    (indented : 0 < indent) (stop : Unspaced rest) {place : Place} {tail : List Char}
    (here : place.rest = singleQuotedFrom indent false (gap ++ rest) ++ '\'' :: tail) :
    ∃ read after, ({} : Gap).read place = (read, after) ∧ read.text = gap
      ∧ after.rest = singleQuotedFrom indent false rest ++ '\'' :: tail
      ∧ (0 < after.column ∨ rest = []) := by
  have unspaced := unspaced_singleQuotedFrom indent stop tail
  rcases single.gap_cases isGap with spaces | separators
  · have same : gap = List.replicate gap.length ' ' := List.eq_replicate_iff.mpr ⟨rfl, spaces⟩
    rw [same, singleQuotedFrom_spaces, List.append_assoc] at here
    rcases Gap.exists_read_spaces here unspaced with ⟨after, read, next, column⟩
    have some_space := List.length_pos_iff.mpr nonempty
    exact ⟨_, after, read, same.symm, next, .inl (by omega)⟩
  · rcases List.exists_cons_of_ne_nil nonempty with ⟨first, more, rfl⟩
    have ends : ∀ c ∈ first :: more, IsLineEnd c := fun c mem => (separators c mem).isLineEnd
    rw [singleQuotedFrom_lineEnds indent nonempty ends, singleQuotedFrom_broken indent stop,
      List.append_assoc, List.append_assoc] at here
    rcases Gap.exists_read_lineEnds here ends unspaced with ⟨after, read, next, column⟩
    refine ⟨_, after, read, text_of_separator (separators first List.mem_cons_self) more, next, ?_⟩
    rw [column]
    split
    · next empty => exact .inr empty
    · exact .inl indented

theorem hasDocumentMark_of_inner {text tail : List Char} {indent : Nat} {place : Place}
    (here : place.rest = singleQuotedFrom indent false text ++ '\'' :: tail)
    (inner : 0 < place.column ∨ text = []) : place.hasDocumentMark = false := by
  rcases inner with inner | rfl
  · exact Place.hasDocumentMark_of_column inner
  · simp [Place.hasDocumentMark, Place.hasMark, here, singleQuotedFrom]

/-- The words of a text in single quotes are read up to the last quote. -/
theorem SingleText.exists_readQuotedFrom {text : List Char} (single : SingleText text)
    {indent : Nat} (indented : 0 < indent) {tail : List Char} (stop : tail.head? ≠ some '\'')
    {place : Place} (here : place.rest = singleQuotedFrom indent false text ++ '\'' :: tail)
    (inner : 0 < place.column ∨ text = []) {limit : Nat} (enough : place.rest.length ≤ limit)
    (front : List Char) :
    ∃ after, readQuotedFrom false limit front place
        = some { text := front ++ text, place := after }
      ∧ after.rest = tail := by
  -- The induction is on the words; the limit falls with what is left of the text.
  induction text using segments_induction isSpace generalizing place limit front with
  | word word unspaced =>
    have unmarked := hasDocumentMark_of_inner here inner
    rw [← List.append_nil word, singleQuotedFrom_word indent unspaced, List.append_assoc,
      singleQuotedFrom, List.nil_append] at here
    apply exists_readQuotedFrom_end unmarked here ?_ enough
    rw [here, quotedWord, if_neg (by simp), singleWord_append unspaced (singleWord_of_end stop)]
  | step word gap rest unspaced nonempty isGap later ih =>
    have unmarked := hasDocumentMark_of_inner here inner
    rcases single.of_append with ⟨-, single⟩
    rw [singleQuotedFrom_word indent unspaced, List.append_assoc] at here
    have behind := Place.advance_rest_of_append here
    rcases single.of_append.1.exists_read_gap nonempty isGap indented later behind with
      ⟨read, after, isRead, gap_eq, next, column⟩
    rcases single.of_append.1.exists_singleQuotedFrom nonempty isGap indent later with
      ⟨count, written⟩
    rcases List.exists_cons_of_ne_nil nonempty with ⟨c, more, rfl⟩
    have space := isGap c List.mem_cons_self
    rw [written, List.cons_append, List.cons_append] at here behind
    have found : quotedWord false place.rest
        = some (word, (word.flatMap inSingleQuotes).length) := by
      rw [here, quotedWord, if_neg (by simp),
        singleWord_append unspaced (singleWord_of_isSpace space)]
    have shorter : after.rest.length + 1 ≤ place.rest.length := by
      rw [next, here]
      simp only [List.length_append, List.length_cons]
      omega
    rcases Nat.exists_eq_add_of_lt (Nat.lt_of_lt_of_le shorter enough) with ⟨spare, rfl⟩
    rw [readQuotedFrom_gap unmarked found behind space isRead, gap_eq]
    rcases ih single.of_append.2 next column (Nat.le_add_right _ spare)
      (front ++ word ++ (c :: more)) with
      ⟨last, done, place_eq⟩
    refine ⟨last, ?_, place_eq⟩
    rw [done]
    simp

/-- A text in single quotes is read as it stands. -/
theorem SingleText.exists_readQuoted {text : List Char} (single : SingleText text) {indent : Nat}
    (indented : 0 < indent) {tail : List Char} (stop : tail.head? ≠ some '\'') {place : Place}
    (here : place.rest = singleQuoted indent text ++ tail) :
    ∃ after, readQuoted false place = some { text, place := after } ∧ after.rest = tail := by
  have behind : (place.advance 1).rest = singleQuotedFrom indent false text ++ '\'' :: tail := by
    rw [Place.advance, here, singleQuoted]
    simp
  have enough : (place.advance 1).rest.length ≤ place.rest.length := by
    rw [Place.advance, List.length_drop]
    omega
  exact single.exists_readQuotedFrom indented stop behind (.inl (Nat.succ_pos _)) enough []

/-! ## Escapes -/

theorem hexValue?_hexDigit {value : Nat} (small : value < 16) :
    hexValue? (hexDigit value) = some value := by
  have all : ∀ v : Fin 16, hexValue? (hexDigit v) = some v.val := by decide
  exact all ⟨value, small⟩

theorem length_hexText (width value : Nat) : (hexText width value).length = width := by
  induction width generalizing value with
  | zero => rfl
  | succ width ih => rw [hexText, List.length_append, ih, List.length_singleton]

/-- The digits of a number are read as the number. -/
theorem hexNumber?_hexText {width value : Nat} (fits : value < 16 ^ width) :
    hexNumber? (hexText width value) = some value := by
  induction width generalizing value with
  | zero =>
    rw [Nat.pow_zero, Nat.lt_one_iff] at fits
    rw [fits]
    rfl
  | succ width ih =>
    have later : value / 16 < 16 ^ width := by
      rw [Nat.pow_succ] at fits
      omega
    have last := hexValue?_hexDigit (Nat.mod_lt value (by omega : 16 > 0))
    rw [hexText, hexNumber?, List.foldlM_append, ← hexNumber?, ih later]
    simp [last]
    omega

theorem hexChar?_hexText {width : Nat} {c : Char} (fits : c.toNat < 16 ^ width)
    (more : List Char) : hexChar? width (hexText width c.toNat ++ more) = some c := by
  have valid := Text.isValidChar_toNat c
  have front : (hexText width c.toNat ++ more).take width = hexText width c.toNat := by
    rw [List.take_append_of_le_length (length_hexText ..).ge,
      List.take_of_length_le (length_hexText ..).le]
  have range : (c.toNat < 0xD800 || (0xE000 ≤ c.toNat && c.toNat ≤ 0x10FFFF)) = true := by
    simp only [Bool.or_eq_true, Bool.and_eq_true, decide_eq_true_eq]
    omega
  rw [hexChar?, front, if_neg (by simp [length_hexText]), hexNumber?_hexText fits]
  rw [Option.bind_eq_bind, Option.bind_some, if_pos range, Char.ofNat_toNat]

/-- Some characters are an escape that stands for `c`, whatever follows. -/
def IsEscape (c : Char) (written : List Char) : Prop :=
  ∃ sign digits, written = '\\' :: sign :: digits ∧ isBreak sign = false
    ∧ ∀ more, escape? sign (digits ++ more) = some (c, digits.length)

theorem IsEscape.named {c sign : Char} (notBreak : isBreak sign = false)
    (stands : ∀ more, escape? sign more = some (c, 0)) : IsEscape c ['\\', sign] :=
  ⟨sign, [], rfl, notBreak, stands⟩

theorem IsEscape.ite {c d : Char} {named other : List Char} (isNamed : IsEscape d named)
    (isOther : IsEscape c other) : IsEscape c (if c = d then named else other) := by
  by_cases same : c = d
  · rw [if_pos same, same]
    exact isNamed
  · rw [if_neg same]
    exact isOther

/-- An escape stands for the character that it was written for. -/
theorem isEscape_escaped (c : Char) : IsEscape c (escaped c) := by
  unfold escaped
  iterate 15 refine IsEscape.ite (IsEscape.named rfl fun _ => rfl) ?_
  by_cases byte : c.toNat ≤ 0xFF
  · rw [if_pos byte]
    refine ⟨'x', hexText 2 c.toNat, rfl, rfl, fun more => ?_⟩
    rw [escape?, hexChar?_hexText (by omega), length_hexText]
    rfl
  rw [if_neg byte]
  by_cases short : c.toNat ≤ 0xFFFF
  · rw [if_pos short]
    refine ⟨'u', hexText 4 c.toNat, rfl, rfl, fun more => ?_⟩
    rw [escape?, hexChar?_hexText (by omega), length_hexText]
    rfl
  · have valid := Text.isValidChar_toNat c
    rw [if_neg short]
    refine ⟨'U', hexText 8 c.toNat, rfl, rfl, fun more => ?_⟩
    rw [escape?, hexChar?_hexText (by omega), length_hexText]
    rfl

/-! ## Words in double quotes -/

/-- Characters that were taken before leave what is behind them. -/
theorem doubleWord_taken (taken rest : List Char) :
    doubleWord taken.length (taken ++ rest)
      = (doubleWord 0 rest).map fun (text, count) => (text, count + taken.length) := by
  induction taken with
  | nil => simp
  | cons c taken ih =>
    rw [List.length_cons, List.cons_append, doubleWord, ih, Option.map_map]
    rfl

theorem doubleWord_escape {c : Char} {written : List Char} (escape : IsEscape c written)
    (rest : List Char) :
    doubleWord 0 (written ++ rest)
      = (doubleWord 0 rest).map fun (text, count) => (c :: text, count + written.length) := by
  rcases escape with ⟨sign, digits, rfl, notBreak, stands⟩
  have skip := doubleWord_taken (sign :: digits) rest
  rw [List.length_cons, List.cons_append] at skip
  rw [List.cons_append, List.cons_append, doubleWord]
  simp only [notBreak, Bool.false_eq_true, if_false, stands, skip, Option.map_map]
  rfl

theorem doubleWord_raw {c : Char} (space : isSpace c = false) (quote : c ≠ '"')
    (escape : c ≠ '\\') (rest : List Char) :
    doubleWord 0 (c :: rest)
      = (doubleWord 0 rest).map fun (text, count) => (c :: text, count + 1) := by
  rw [doubleWord]
  · simp [space, quote]
  · exact escape

/-- A character in double quotes is escaped, or it is neither a space nor a sign
that means something there, spaces between words apart. -/
theorem inDoubleQuotes_cases {marked : Bool} {c : Char} (inWord : (!marked && c = ' ') = false) :
    inDoubleQuotes marked c = escaped c
      ∨ inDoubleQuotes marked c = [c] ∧ isSpace c = false ∧ c ≠ '"' ∧ c ≠ '\\' := by
  unfold inDoubleQuotes
  split
  · exact .inl rfl
  · next raw =>
    simp only [Bool.or_eq_true, decide_eq_true_eq, not_or, Bool.not_eq_true,
      Bool.not_eq_false'] at raw
    rcases raw with ⟨⟨⟨⟨unmarked, printable⟩, notBreak⟩, quote⟩, escape⟩
    have notBlank : c ≠ ' ' := by
      rw [unmarked] at inWord
      simpa using inWord
    have notTab : c ≠ '\t' := by
      rintro rfl
      simp [isPrintable] at printable
    exact .inr ⟨rfl, by simp [isSpace, isBlank, notBlank, notTab, notBreak], quote, escape⟩

/-- A word is read to its end. -/
theorem doubleWord_append {marked : Bool} {word rest : List Char}
    (inWord : ∀ c ∈ word, (!marked && c = ' ') = false) (stop : doubleWord 0 rest = some ([], 0)) :
    doubleWord 0 (word.flatMap (inDoubleQuotes marked) ++ rest)
      = some (word, (word.flatMap (inDoubleQuotes marked)).length) := by
  induction word with
  | nil => exact stop
  | cons c word ih =>
    have later := ih fun d mem => inWord d (List.mem_cons_of_mem c mem)
    rw [List.flatMap_cons, List.append_assoc, List.length_append]
    rcases inDoubleQuotes_cases (inWord c List.mem_cons_self) with
      escape | ⟨raw, space, quote, escape⟩
    · rw [escape, doubleWord_escape (isEscape_escaped c), later, Option.map_some, Nat.add_comm]
    · rw [raw, List.singleton_append, doubleWord_raw space quote escape, later, Option.map_some,
        Nat.add_comm]
      rfl

/-! ## Double quotes -/

theorem flatMap_inDoubleQuotes_spaces (count : Nat) :
    (List.replicate count ' ').flatMap (inDoubleQuotes false) = List.replicate count ' ' := by
  induction count with
  | zero => rfl
  | succ count ih =>
    have space : inDoubleQuotes false ' ' = [' '] := by decide
    rw [List.replicate_succ, List.flatMap_cons, ih, space]
    rfl

theorem unspaced_inDoubleQuotes {marked : Bool} {rest : List Char}
    (inWord : ∀ c ∈ rest.head?, (!marked && c = ' ') = false) (tail : List Char) :
    Unspaced (rest.flatMap (inDoubleQuotes marked) ++ '"' :: tail) := by
  cases rest with
  | nil => exact unspaced_cons.mpr (by decide)
  | cons c rest =>
    rw [List.flatMap_cons, List.append_assoc]
    rcases inDoubleQuotes_cases (inWord c rfl) with escape | ⟨raw, space, -⟩
    · rcases isEscape_escaped c with ⟨sign, digits, written, -⟩
      rw [escape, written]
      exact unspaced_cons.mpr (by decide)
    · rw [raw]
      exact unspaced_cons.mpr space

theorem doubleWord_of_end (tail : List Char) : doubleWord 0 ('"' :: tail) = some ([], 0) := by
  rw [doubleWord]
  · simp
  · decide

theorem doubleWord_of_space (rest : List Char) : doubleWord 0 (' ' :: rest) = some ([], 0) := by
  rw [doubleWord]
  · simp [isSpace, isBlank]
  · decide

/-- Only where spaces are not escaped is there a gap, and it is made of them. -/
theorem gap_inDoubleQuotes {marked : Bool} {gap : List Char} (nonempty : gap ≠ [])
    (isGap : ∀ c ∈ gap, (!marked && c = ' ') = true) :
    marked = false ∧ ∃ count, gap = List.replicate (count + 1) ' ' := by
  simp only [Bool.and_eq_true, Bool.not_eq_true', decide_eq_true_eq] at isGap
  rcases List.exists_cons_of_ne_nil nonempty with ⟨c, more, rfl⟩
  refine ⟨(isGap c List.mem_cons_self).1, more.length, ?_⟩
  exact List.eq_replicate_iff.mpr ⟨rfl, fun d mem => (isGap d mem).2⟩

/-- The words of a text in double quotes are read up to the last quote. -/
theorem exists_readQuotedFrom_double {marked : Bool} {text tail : List Char} {place : Place}
    (here : place.rest = text.flatMap (inDoubleQuotes marked) ++ '"' :: tail)
    (inner : 0 < place.column) {limit : Nat} (enough : place.rest.length ≤ limit)
    (front : List Char) :
    ∃ after, readQuotedFrom true limit front place
        = some { text := front ++ text, place := after }
      ∧ after.rest = tail := by
  have unmarked := Place.hasDocumentMark_of_column inner
  -- A gap is made of the spaces that are not escaped.
  induction text using segments_induction (fun c => !marked && c = ' ')
    generalizing place limit front with
  | word word inWord =>
    apply exists_readQuotedFrom_end unmarked here ?_ enough
    rw [here, quotedWord, if_pos rfl, doubleWord_append inWord (doubleWord_of_end tail)]
  | step word gap rest inWord nonempty isGap later ih =>
    rcases gap_inDoubleQuotes nonempty isGap with ⟨rfl, count, rfl⟩
    rw [List.flatMap_append, List.flatMap_append, flatMap_inDoubleQuotes_spaces, List.append_assoc,
      List.append_assoc] at here
    have behind := Place.advance_rest_of_append here
    rcases Gap.exists_read_spaces behind (unspaced_inDoubleQuotes later tail) with
      ⟨after, isRead, next, column⟩
    have inner' : 0 < after.column := by omega
    have shorter : after.rest.length + 1 ≤ place.rest.length := by
      rw [next, here]
      simp only [List.length_append, List.length_cons, List.length_replicate]
      omega
    rcases Nat.exists_eq_add_of_lt (Nat.lt_of_lt_of_le shorter enough) with ⟨spare, rfl⟩
    rw [List.replicate_succ, List.cons_append] at here behind
    have found : quotedWord true place.rest
        = some (word, (word.flatMap (inDoubleQuotes false)).length) := by
      rw [here, quotedWord, if_pos rfl, doubleWord_append inWord (doubleWord_of_space _)]
    rw [readQuotedFrom_gap unmarked found behind (by decide) isRead]
    rcases ih next inner' (Nat.le_add_right _ spare)
      (front ++ word ++ List.replicate (count + 1) ' ')
        (Place.hasDocumentMark_of_column inner')
      with ⟨last, done, place_eq⟩
    refine ⟨last, ?_, place_eq⟩
    simp only [Gap.text, done]
    simp

/-- Every text is read from double quotes as it stands. -/
theorem exists_readQuoted_double {text tail : List Char} {place : Place}
    (here : place.rest = doubleQuoted text ++ tail) :
    ∃ after, readQuoted true place = some { text, place := after } ∧ after.rest = tail := by
  have behind : (place.advance 1).rest
      = text.flatMap (inDoubleQuotes (text.head? = some (Char.ofNat 0xFEFF))) ++ '"' :: tail := by
    rw [Place.advance, here, doubleQuoted]
    simp
  have enough : (place.advance 1).rest.length ≤ place.rest.length := by
    rw [Place.advance, List.length_drop]
    omega
  exact exists_readQuotedFrom_double behind (Nat.succ_pos _) enough []

end Protoclass.Yaml
