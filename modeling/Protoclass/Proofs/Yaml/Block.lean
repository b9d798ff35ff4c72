import Mathlib.Data.List.Basic
import Protoclass.Proofs.Yaml.Gaps
import Protoclass.Yaml.Printer

/-!
# Blocks of lines

A text that is written as a block of lines is read back as the same text, if the
next line that is not empty is indented less than the block
(`exists_readBlock`).  The text may not start with a line end or a tab.  If it
starts with a space, the digit that is then written has to be the difference
between the block's indentation and the one around it.
-/

namespace Protoclass.Yaml

/-! ## Between lines -/

/-- Indentation ends here: nothing is left, or what comes next is neither a line
end nor, before the column `indent`, a blank. -/
def EndsIndent (indent column : Nat) (rest : List Char) : Prop :=
  ∀ c ∈ rest.head?, isBreak c = false ∧ (isBlank c = true → 0 < indent ∧ indent ≤ column)

theorem Unspaced.endsIndent {rest : List Char} (unspaced : Unspaced rest) (indent column : Nat) :
    EndsIndent indent column rest := by
  intro c mem
  have space := unspaced c mem
  constructor
  · exact isBreak_of_isSpace space
  · intro blank
    rw [isBlank_of_isSpace space] at blank
    cases blank

theorem blockBreaks_spaces {indent column count : Nat} (room : indent = 0 ∨ column + count ≤ indent)
    (widest : Nat) (breaks : List Char) (line index : Nat) (rest : List Char) :
    blockBreaks indent widest breaks line column index (List.replicate count ' ' ++ rest)
      = blockBreaks indent widest breaks line (column + count) (index + count) rest := by
  induction count generalizing column index with
  | zero => rfl
  | succ count ih =>
    have inside : (decide (' ' = ' ') && (decide (indent = 0) || decide (column < indent)))
        = true := by
      simp
      omega
    rw [List.replicate_succ, List.cons_append, blockBreaks, if_pos inside, ih (by omega)]
    · rw [Nat.add_assoc column 1, Nat.add_assoc index 1, Nat.add_comm 1 count]
    · simp

theorem blockBreaks_lineEnd {c : Char} (lineEnd : IsLineEnd c) (indent widest : Nat)
    (breaks : List Char) (line column index : Nat) (rest : List Char) :
    blockBreaks indent widest breaks line column index (c :: rest)
      = blockBreaks indent (max widest column) (breaks ++ [c]) (line + 1) 0 (index + 1) rest := by
  have notSpace : c ≠ ' ' := by
    rcases lineEnd with rfl | rfl | rfl <;> decide
  have notTab : c ≠ '\t' := by
    rcases lineEnd with rfl | rfl | rfl <;> decide
  rw [blockBreaks]
  · simp [notSpace, notTab, lineEnd.isBreak, lineEnd.breakChar]
  · intro rest' same
    exact absurd same lineEnd.ne_return

theorem blockBreaks_end {indent column : Nat} {rest : List Char}
    (ends : EndsIndent indent column rest) (widest : Nat) (breaks : List Char) (line index : Nat) :
    blockBreaks indent widest breaks line column index rest
      = some (breaks, max widest column, { rest, line, column, index }) := by
  cases rest with
  | nil => rfl
  | cons c rest =>
    rcases ends c rfl with ⟨notBreak, blank⟩
    have outside : ∀ d, isBlank d = true →
        (decide (c = d) && (decide (indent = 0) || decide (column < indent))) = false := by
      intro d isBlank
      by_cases same : c = d
      · have := blank (same ▸ isBlank)
        simp
        omega
      · simp [same]
    rw [blockBreaks]
    · rw [if_neg (by simp [outside ' ' rfl]), if_neg (by simp [outside '\t' rfl]),
        if_neg (by simp [notBreak])]
    · rintro rest' rfl
      simp [isBreak] at notBreak

/-- Between two lines, the line ends are kept and the indentation is passed over. -/
theorem exists_blockBreaks {breaks : List Char} (lineEnds : ∀ c ∈ breaks, IsLineEnd c)
    {indent count : Nat} (room : indent = 0 ∨ count ≤ indent) {rest : List Char}
    (ends : EndsIndent indent count rest) (widest : Nat) (before : List Char) (line index : Nat) :
    ∃ width after, blockBreaks indent widest before line 0 index
        (breaks ++ (List.replicate count ' ' ++ rest)) = some (before ++ breaks, width, after)
      ∧ after.rest = rest ∧ after.column = count := by
  induction breaks generalizing widest before line index with
  | nil =>
    rw [List.nil_append, blockBreaks_spaces (by omega), Nat.zero_add, blockBreaks_end ends,
      List.append_nil]
    exact ⟨_, _, rfl, rfl, rfl⟩
  | cons c breaks ih =>
    rw [List.cons_append, blockBreaks_lineEnd (lineEnds c List.mem_cons_self),
      List.append_cons before c breaks]
    exact ih (fun d mem => lineEnds d (List.mem_cons_of_mem c mem)) _ _ _ _

/-! ## Lines -/

theorem readBlockFrom_end {indent : Nat} {place : Place} (outside : place.column ≠ indent)
    (limit : Nat) (text last more : List Char) (blank : Bool) :
    readBlockFrom false indent limit text last more blank place
      = some (text, last, more, place) := by
  cases limit with
  | zero => rfl
  | succ limit => rw [readBlockFrom, if_neg (by simp [outside])]

/-- One line is read together with the line ends after it. -/
theorem readBlockFrom_line {indent : Nat} {place : Place} (inside : place.column = indent)
    {words : List Char} (unbroken : ∀ c ∈ words, isBreak c = false) {lineEnd : Char}
    {rest : List Char} (here : place.rest = words ++ lineEnd :: rest) (isEnd : IsLineEnd lineEnd)
    {breaks : List Char} (lineEnds : ∀ c ∈ breaks, IsLineEnd c) {count : Nat}
    (room : indent = 0 ∨ count ≤ indent) {next : List Char} (ends : EndsIndent indent count next)
    (after_eq : rest = breaks ++ (List.replicate count ' ' ++ next))
    (limit : Nat) (text last more : List Char) (blank : Bool) :
    ∃ after blank', readBlockFrom false indent (limit + 1) text last more blank place
        = readBlockFrom false indent limit (text ++ last ++ more ++ words) [lineEnd] breaks
          blank' after
      ∧ after.rest = next ∧ after.column = count := by
  have some_left : place.rest.isEmpty = false := by
    rw [here]
    simp
  have found : (place.rest.takeWhile fun c => !isBreak c) = words := by
    rw [here, List.takeWhile_append_of_pos (by simpa using unbroken),
      List.takeWhile_cons_of_neg (by simp [isEnd.isBreak]), List.append_nil]
  have behind : (place.advance words.length).rest = lineEnd :: rest :=
    Place.advance_rest_of_append here
  rw [after_eq] at behind
  rcases exists_blockBreaks lineEnds room ends 0 [] ((place.advance words.length).line + 1)
    ((place.advance words.length).index + 1) with ⟨width, after, read, next_eq, column⟩
  refine ⟨after, place.rest.head?.any isBlank, ?_, next_eq, column⟩
  rw [readBlockFrom, if_pos (by simp [inside, some_left]), found]
  simp only [Place.readBreak_of_lineEnd behind isEnd, read, List.nil_append, Bool.false_and,
    Bool.false_eq_true, if_false]

/-! ## Writing lines -/

theorem endLine_append {front back : List Char} (nonempty : back ≠ []) :
    endLine (front ++ back) = front ++ endLine back := by
  rw [endLine, endLine, List.getLast?_append_of_ne_nil front nonempty]
  split
  · rfl
  · rw [List.append_assoc]

theorem blockLines_words (indent : Nat) (lineStart : Bool) {words : List Char}
    (nonempty : words ≠ []) (unbroken : ∀ c ∈ words, isBreak c = false) (rest : List Char) :
    blockLines indent lineStart (words ++ rest)
      = (if lineStart then List.replicate indent ' ' else [])
        ++ (words ++ blockLines indent false rest) := by
  induction words generalizing lineStart with
  | nil => exact absurd rfl nonempty
  | cons c words ih =>
    have notBreak := unbroken c List.mem_cons_self
    rw [List.cons_append, blockLines, if_neg (by simp [notBreak])]
    cases words with
    | nil => rfl
    | cons d words =>
      rw [ih false (by simp) fun e mem => unbroken e (List.mem_cons_of_mem c mem)]
      rfl

theorem blockLines_breaks (indent : Nat) (lineStart : Bool) {breaks : List Char}
    (nonempty : breaks ≠ []) (broken : ∀ c ∈ breaks, isBreak c = true) (rest : List Char) :
    blockLines indent lineStart (breaks ++ rest) = breaks ++ blockLines indent true rest := by
  induction breaks generalizing lineStart with
  | nil => exact absurd rfl nonempty
  | cons c breaks ih =>
    rw [List.cons_append, blockLines, if_pos (broken c List.mem_cons_self), List.cons_append]
    cases breaks with
    | nil => rfl
    | cons d breaks => rw [ih true (by simp) fun e mem => broken e (List.mem_cons_of_mem c mem)]

/-- A line that is not empty starts with its indentation. -/
theorem blockLines_start (indent : Nat) {c : Char} (notBreak : isBreak c = false)
    (rest : List Char) :
    blockLines indent true (c :: rest)
      = List.replicate indent ' ' ++ blockLines indent false (c :: rest) := by
  simp [blockLines, notBreak]

theorem endLine_cons {c : Char} {back : List Char} (nonempty : back ≠ []) :
    endLine (c :: back) = c :: endLine back := by
  rw [← List.singleton_append, endLine_append nonempty, List.singleton_append]

theorem endLine_concat {c : Char} (notBreak : isBreak c = false) (front : List Char) :
    endLine (front ++ [c]) = front ++ [c] ++ ['\n'] := by
  rw [endLine, List.getLast?_concat, if_neg (by simp [notBreak])]

theorem endLine_of_unbroken {words : List Char} (unbroken : ∀ c ∈ words, isBreak c = false) :
    endLine words = words ++ ['\n'] := by
  rw [endLine, if_neg]
  cases last : words.getLast? with
  | none => simp
  | some c => simp [unbroken c (List.mem_of_getLast? last)]

theorem endLine_of_broken {breaks : List Char} (nonempty : breaks ≠ [])
    (broken : ∀ c ∈ breaks, isBreak c = true) : endLine breaks = breaks := by
  rw [endLine, if_pos]
  rw [List.getLast?_eq_some_getLast nonempty, Option.any_some]
  exact broken _ (List.getLast_mem nonempty)

/-! ## The end of a block -/

/-- A text up to its last character that is no break, and the break after it with
more behind it; for a text that does not end with a break, the newline that ends
its last line. -/
inductive SplitsEnd : (text core : List Char) → (last : Char) → (more : List Char) → Prop where
  | unbroken {text : List Char} : text ≠ [] → (∀ c ∈ text.getLast?, isBreak c = false) →
    SplitsEnd text text '\n' []
  | broken {core : List Char} {last : Char} {more : List Char} : core ≠ [] →
    (∀ c ∈ core.getLast?, isBreak c = false) → (∀ c ∈ last :: more, isBreak c = true) →
    SplitsEnd (core ++ last :: more) core last more

theorem SplitsEnd.append {text core more : List Char} {last : Char}
    (splits : SplitsEnd text core last more) (front : List Char) :
    SplitsEnd (front ++ text) (front ++ core) last more := by
  cases splits with
  | unbroken nonempty ends =>
    apply SplitsEnd.unbroken
    · simp [nonempty]
    · rw [List.getLast?_append_of_ne_nil front nonempty]
      exact ends
  | broken nonempty ends broken =>
    rw [← List.append_assoc]
    apply SplitsEnd.broken
    · simp [nonempty]
    · rw [List.getLast?_append_of_ne_nil front nonempty]
      exact ends
    · exact broken

/-! ## Whole blocks -/

theorem exists_endLine (line : List Char) : ∃ more, endLine line = line ++ more := by
  unfold endLine
  split
  · exact ⟨[], (List.append_nil line).symm⟩
  · exact ⟨_, rfl⟩

/-- The indentation of a line ends where its first character comes. -/
theorem endsIndent_line {indent : Nat} (indented : 0 < indent) {c : Char}
    (notBreak : isBreak c = false) (rest tail : List Char) :
    EndsIndent indent indent (endLine (blockLines indent false (c :: rest)) ++ tail) := by
  rcases exists_endLine (blockLines indent false (c :: rest)) with ⟨more, written⟩
  rw [written, blockLines, if_neg (by simp [notBreak])]
  rintro d mem
  cases mem
  exact ⟨notBreak, fun _ => ⟨indented, Nat.le_refl indent⟩⟩

/-- Below a line whose first character comes next, the written lines are its words, the
line ends and the indentation of what follows. -/
theorem endLine_followed {indent : Nat} {words breaks : List Char} {lineEnd c : Char}
    (notBreak : isBreak c = false) (rest : List Char) :
    endLine (words ++ (lineEnd :: breaks ++ blockLines indent true (c :: rest)))
      = words ++ (lineEnd :: (breaks ++ (List.replicate indent ' '
        ++ endLine (blockLines indent false (c :: rest))))) := by
  have some_line : blockLines indent false (c :: rest) ≠ [] := by simp [blockLines, notBreak]
  rw [blockLines_start indent notBreak, endLine_append (by simp),
    endLine_append (by simp [some_line]), endLine_append some_line]
  rfl

/-- The last line of a block is read together with the line ends after it, up to a line that
is indented less. -/
theorem exists_readBlockFrom_lastLine {words : List Char}
    (unbroken : ∀ c ∈ words, isBreak c = false) {lineEnd : Char} (isEnd : IsLineEnd lineEnd)
    {breaks : List Char} (lineEnds : ∀ c ∈ breaks, IsLineEnd c) {indent count : Nat}
    (outside : count < indent) {next : List Char} (stop : Unspaced next) {place : Place}
    (inside : place.column = indent)
    (here : place.rest = words ++ lineEnd :: (breaks ++ (List.replicate count ' ' ++ next)))
    {limit : Nat} (enough : place.rest.length ≤ limit) (front last more : List Char)
    (blank : Bool) :
    ∃ after, readBlockFrom false indent limit front last more blank place
        = some (front ++ last ++ more ++ words, [lineEnd], breaks, after)
      ∧ after.rest = next ∧ after.column = count := by
  have some_left : 0 < place.rest.length := by
    rw [here, List.length_append, List.length_cons]
    omega
  rcases Nat.exists_eq_add_of_lt (Nat.lt_of_lt_of_le some_left enough) with ⟨limit, rfl⟩
  rcases readBlockFrom_line inside unbroken here isEnd lineEnds (.inr (Nat.le_of_lt outside))
    (stop.endsIndent indent count) rfl limit front last more blank with
    ⟨after, blank', step, next_eq, column⟩
  refine ⟨after, ?_, next_eq, column⟩
  rw [Nat.zero_add, step, readBlockFrom_end (by omega)]

/-- The lines of a block are read up to the first line that is indented less. -/
theorem exists_readBlockFrom {text : List Char} (nonempty : text ≠ [])
    (start : ∀ c ∈ text.head?, isBreak c = false)
    (lineEnds : ∀ c ∈ text, isBreak c = true → IsLineEnd c) {indent count : Nat}
    (outside : count < indent) {next : List Char} (stop : Unspaced next) {place : Place}
    (inside : place.column = indent)
    (here : place.rest
      = endLine (blockLines indent false text) ++ (List.replicate count ' ' ++ next))
    {limit : Nat} (enough : place.rest.length ≤ limit) (front last more : List Char)
    (blank : Bool) :
    ∃ core lastEnd moreEnds after, SplitsEnd text core lastEnd moreEnds
      ∧ readBlockFrom false indent limit front last more blank place
        = some (front ++ last ++ more ++ core, [lastEnd], moreEnds, after)
      ∧ after.rest = next ∧ after.column = count := by
  induction text using segments_induction isBreak generalizing place limit front last more
    blank with
  | word words unbroken =>
    rw [← List.append_nil words, blockLines_words indent false nonempty unbroken, blockLines,
      List.append_nil, if_neg (by simp), List.nil_append, endLine_of_unbroken unbroken,
      List.append_assoc] at here
    have noBreaks : ∀ c ∈ ([] : List Char), IsLineEnd c := by simp
    rcases exists_readBlockFrom_lastLine unbroken (.inl rfl) noBreaks outside stop inside here enough
      front last more blank with ⟨after, read, behind⟩
    refine ⟨words, '\n', [], after, .unbroken nonempty ?_, read, behind⟩
    intro c mem
    exact unbroken c (List.mem_of_getLast? mem)
  | step words breaks rest unbroken someBreak broken later ih =>
    rcases List.exists_cons_of_ne_nil someBreak with ⟨lineEnd, breaks, rfl⟩
    have some_words : words ≠ [] := by
      rintro rfl
      have := start lineEnd rfl
      rw [broken lineEnd List.mem_cons_self] at this
      cases this
    have areEnds : ∀ c ∈ lineEnd :: breaks, IsLineEnd c := by
      intro c mem
      exact lineEnds c (by simp at mem ⊢; tauto) (broken c mem)
    have isEnd := areEnds lineEnd List.mem_cons_self
    have noOther : ∀ c ∈ breaks, IsLineEnd c := fun c mem => areEnds c (List.mem_cons_of_mem _ mem)
    rw [blockLines_words indent false some_words unbroken, if_neg (by simp), List.nil_append,
      blockLines_breaks indent false someBreak broken] at here
    cases rest with
    | nil =>
      rw [blockLines, List.append_nil, endLine_append someBreak, endLine_of_broken someBreak broken,
        List.append_assoc, List.cons_append] at here
      rcases exists_readBlockFrom_lastLine unbroken isEnd noOther outside stop inside here enough
        front last more blank with ⟨after, read, behind⟩
      refine ⟨words, lineEnd, breaks, after, ?_, read, behind⟩
      rw [List.append_nil]
      exact .broken some_words (fun c mem => unbroken c (List.mem_of_getLast? mem)) broken
    | cons c rest =>
      have notBreak := later c rfl
      have indented : 0 < indent := Nat.lt_of_le_of_lt (Nat.zero_le count) outside
      rw [endLine_followed notBreak, List.append_assoc, List.cons_append, List.append_assoc,
        List.append_assoc] at here
      rcases Nat.exists_eq_add_of_lt (show 0 < limit by
        rw [here, List.length_append, List.length_cons] at enough
        omega) with ⟨limit, rfl⟩
      rcases readBlockFrom_line inside unbroken here isEnd noOther (.inr (Nat.le_refl indent))
        (endsIndent_line indented notBreak rest _) rfl limit front last more blank with
        ⟨after, blank', step, next_eq, column⟩
      have shorter : after.rest.length ≤ limit := by
        rw [here] at enough
        rw [next_eq]
        simp only [List.length_append, List.length_cons] at enough ⊢
        omega
      rcases ih (by simp) later (fun d mem => lineEnds d (by simp at mem ⊢; tauto)) column next_eq
        shorter (front ++ last ++ more ++ words) [lineEnd] breaks blank' with
        ⟨core, lastEnd, moreEnds, final, splits, done, final_eq⟩
      refine ⟨words ++ (lineEnd :: breaks ++ core), lastEnd, moreEnds, final, ?_, ?_, final_eq⟩
      · exact (splits.append _).append words
      · rw [Nat.zero_add, step, done]
        simp

/-! ## The first line -/

/-- A sign stands for what becomes of the breaks at the end. -/
inductive ChompSign : List Char → Chomp → Prop where
  | strip : ChompSign ['-'] .strip
  | clip : ChompSign [] .clip
  | keep : ChompSign ['+'] .keep

theorem chompSign_concat (front : List Char) (c : Char) :
    chompSign (front ++ [c])
      = if !isBreak c then ['-'] else if front.isEmpty || front.getLast?.any isBreak then ['+']
        else [] := by
  simp only [chompSign, List.reverse_append, List.reverse_singleton, List.singleton_append,
    List.head?_reverse, List.isEmpty_reverse]

/-- The sign that is written keeps exactly the breaks of the text. -/
theorem SplitsEnd.exists_chompSign {text core more : List Char} {last : Char}
    (splits : SplitsEnd text core last more) :
    ∃ chomp, ChompSign (chompSign text) chomp ∧ core ++ chomp.tail [last] more = text := by
  cases splits with
  | unbroken nonempty ends =>
    rcases List.eq_nil_or_concat' text with rfl | ⟨front, c, rfl⟩
    · exact absurd rfl nonempty
    have notBreak : isBreak c = false := ends c (by simp)
    refine ⟨.strip, ?_, List.append_nil _⟩
    rw [chompSign_concat, if_pos (by simp [notBreak])]
    exact .strip
  | broken nonempty ends broken =>
    rcases List.eq_nil_or_concat' core with rfl | ⟨front, c, rfl⟩
    · exact absurd rfl nonempty
    have notBreak : isBreak c = false := ends c (by simp)
    rcases List.eq_nil_or_concat' more with rfl | ⟨between, d, rfl⟩
    · have isLast := broken last List.mem_cons_self
      refine ⟨.clip, ?_, rfl⟩
      rw [chompSign_concat, if_neg (by simp [isLast]), if_neg (by simp [notBreak])]
      exact .clip
    · have isLast : isBreak d = true := broken d (by simp)
      have before : (front ++ [c] ++ last :: between).getLast?.any isBreak = true := by
        rw [List.getLast?_append_of_ne_nil _ (by simp),
          List.getLast?_eq_some_getLast (List.cons_ne_nil last between), Option.any_some]
        apply broken
        rw [← List.cons_append]
        exact List.mem_append_left _ (List.getLast_mem _)
      refine ⟨.keep, ?_, rfl⟩
      rw [← List.cons_append, ← List.append_assoc, chompSign_concat, if_neg (by simp [isLast]),
        if_pos (by rw [before, Bool.or_true])]
      exact .keep

/-- The signs of a block are read. -/
theorem exists_readBlockSigns {signs : List Char} {chomp : Chomp} (isSign : ChompSign signs chomp)
    {text rest : List Char} {place : Place}
    (here : place.rest = indentSign text ++ (signs ++ '\n' :: rest)) :
    ∃ after, readBlockSigns place = some (chomp, 4 * (indentSign text).length, after)
      ∧ after.rest = '\n' :: rest := by
  have digits : indentSign text = [] ∨ indentSign text = ['4'] := by
    unfold indentSign
    split <;> simp
  rcases digits with digits | digits <;> rw [digits] at here ⊢ <;> cases isSign <;>
    simp [readBlockSigns, chompSign?, indentDigit?, Place.head?, Place.advance, here]

/-- The first line of a block ends after its signs. -/
theorem exists_afterHeader? {place : Place} {rest : List Char} (here : place.rest = '\n' :: rest) :
    ∃ start, afterHeader? place = some start ∧ start.rest = rest ∧ start.column = 0 := by
  refine ⟨{ rest, line := place.line + 1, column := 0, index := place.index + 1 }, ?_, rfl, rfl⟩
  have blanks : (place.rest.takeWhile isBlank).length = 0 := by
    rw [here]
    rfl
  have same : place.advance 0 = place := rfl
  rw [afterHeader?, blanks, same]
  simp only [Place.head?, here, List.head?_cons]
  rw [if_neg (by decide)]
  simp only [here, Place.readBreak_of_lineEnd here (.inl rfl)]
  rfl

theorem exists_chompSign (text : List Char) : ∃ chomp, ChompSign (chompSign text) chomp := by
  unfold chompSign
  split
  · exact ⟨_, .strip⟩
  split
  · exact ⟨_, .strip⟩
  split
  · exact ⟨_, .keep⟩
  · exact ⟨_, .clip⟩

theorem ChompSign.unique {signs : List Char} {a b : Chomp} (first : ChompSign signs a)
    (second : ChompSign signs b) : a = b := by
  cases first <;> cases second <;> rfl

/-- The indentation of a block is found: a digit gives it if the first line starts
with a space, and else it is the width of the first line's indentation. -/
theorem exists_blockBreaks_first {c : Char} (notBreak : isBreak c = false) (notTab : c ≠ '\t')
    {indent outer : Nat} (deeper : outer < indent) (digit : c = ' ' → indent = outer + 4)
    {text tail : List Char} {start : Place} (column : start.column = 0)
    (here : start.rest = List.replicate indent ' '
      ++ (endLine (blockLines indent false (c :: text)) ++ tail)) :
    ∃ given first, given = (if 4 * (indentSign (c :: text)).length = 0 then 0
        else (max (outer : Int) 0).toNat + 4 * (indentSign (c :: text)).length)
      ∧ blockBreaks given 0 [] start.line start.column start.index start.rest
        = some ([], indent, first)
      ∧ (if given = 0 then max indent (max ((outer : Int) + 1).toNat 1) else given) = indent
      ∧ first.rest = endLine (blockLines indent false (c :: text)) ++ tail
      ∧ first.column = indent := by
  have indented : 0 < indent := Nat.lt_of_le_of_lt (Nat.zero_le outer) deeper
  by_cases space : c = ' '
  · have sign : indentSign (c :: text) = ['4'] := by simp [indentSign, space]
    refine ⟨indent,
      { rest := _, line := start.line, column := indent, index := start.index + indent },
      ?_, ?_, ?_, rfl, rfl⟩
    · rw [sign, digit space]
      simp
    · rw [here, column, blockBreaks_spaces (.inr (by omega)), Nat.zero_add,
        blockBreaks_end (endsIndent_line indented notBreak text tail), Nat.zero_max]
    · rw [if_neg (by omega)]
  · have sign : indentSign (c :: text) = [] := by simp [indentSign, space, notBreak]
    have ends : EndsIndent 0 indent (endLine (blockLines indent false (c :: text)) ++ tail) := by
      rcases exists_endLine (blockLines indent false (c :: text)) with ⟨more, written⟩
      rw [written, blockLines, if_neg (by simp [notBreak])]
      rintro d mem
      cases mem
      exact ⟨notBreak, by simp [isBlank, space, notTab]⟩
    refine ⟨0, { rest := _, line := start.line, column := indent, index := start.index + indent },
      ?_, ?_, ?_, rfl, rfl⟩
    · rw [sign]
      rfl
    · rw [here, column, blockBreaks_spaces (.inl rfl), Nat.zero_add, blockBreaks_end ends,
        Nat.zero_max]
    · rw [if_pos rfl]
      omega

/-- A text that is written as a block of lines is read as it stands. -/
theorem exists_readBlock {c : Char} {text : List Char} (notBreak : isBreak c = false)
    (notTab : c ≠ '\t') (lineEnds : ∀ d ∈ c :: text, isBreak d = true → IsLineEnd d)
    {indent outer : Nat} (deeper : outer < indent) (digit : c = ' ' → indent = outer + 4)
    {count : Nat} (outside : count < indent) {next : List Char} (stop : Unspaced next)
    {place : Place}
    (here : place.rest
      = endLine (literalBlock indent (c :: text)) ++ (List.replicate count ' ' ++ next)) :
    ∃ after, readBlock false outer place
        = some { text := c :: text, place := after, broken := true }
      ∧ after.rest = next ∧ after.column = count := by
  have some_line : blockLines indent false (c :: text) ≠ [] := by simp [blockLines, notBreak]
  have written : endLine (literalBlock indent (c :: text))
      = '|' :: (indentSign (c :: text) ++ (chompSign (c :: text) ++ '\n' ::
        (List.replicate indent ' ' ++ endLine (blockLines indent false (c :: text))))) := by
    rw [literalBlock, blockLines_start indent notBreak, endLine_append (by simp [some_line]),
      endLine_append some_line]
    simp [notBreak]
  have behind : (place.advance 1).rest = indentSign (c :: text) ++ (chompSign (c :: text) ++ '\n' ::
      (List.replicate indent ' ' ++ (endLine (blockLines indent false (c :: text))
        ++ (List.replicate count ' ' ++ next)))) := by
    rw [Place.advance, here, written]
    simp
  rcases exists_chompSign (c :: text) with ⟨chomp, isSign⟩
  rcases exists_readBlockSigns isSign behind with ⟨header, signs, header_eq⟩
  rcases exists_afterHeader? header_eq with ⟨start, afterHeader, start_eq, start_column⟩
  rcases exists_blockBreaks_first notBreak notTab deeper digit start_column start_eq with
    ⟨given, first, given_eq, breaks, indent_eq, first_eq, column⟩
  rcases exists_readBlockFrom (List.cons_ne_nil c text) (by simpa using notBreak) lineEnds outside
    stop column first_eq (Nat.le_refl _) [] [] [] false with
    ⟨core, lastEnd, moreEnds, after, splits, read, place_eq⟩
  rcases splits.exists_chompSign with ⟨chomp', isSign', text_eq⟩
  rw [isSign'.unique isSign] at text_eq
  refine ⟨after, ?_, place_eq⟩
  rw [readBlock, signs]
  simp only [Option.bind_eq_bind, Option.bind_some, afterHeader, ← given_eq, breaks, indent_eq,
    read,
    List.nil_append, text_eq]
  rfl

end Protoclass.Yaml
