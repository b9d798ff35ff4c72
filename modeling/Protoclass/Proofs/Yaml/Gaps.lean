import Mathlib.Data.List.TakeWhile
import Protoclass.Yaml.Place

/-!
# Words and gaps

Readers of scalars go from word to word and over the gaps between them.  Every
text is made of such words and gaps, whatever the characters are that count as a
gap; `segments_induction` is the induction along them.  The lemmas on `Gap.read`
say what is found in a gap of spaces, and in one of line ends with the
indentation of the next line after them.
-/

namespace Protoclass.Yaml

/-! ## Segments -/

/-- Induction along a text's words and the gaps between them, where the
characters of a gap are those that satisfy `isGap`. -/
@[elab_as_elim]
theorem segments_induction (isGap : Char → Bool) {motive : List Char → Prop}
    (word : ∀ word, (∀ c ∈ word, isGap c = false) → motive word)
    (step : ∀ word gap rest, (∀ c ∈ word, isGap c = false) → gap ≠ [] →
      (∀ c ∈ gap, isGap c = true) → (∀ c ∈ rest.head?, isGap c = false) → motive rest →
      motive (word ++ (gap ++ rest)))
    (text : List Char) : motive text := by
  induction size : text.length using Nat.strongRecOn generalizing text with
  | ind n ih =>
    have inWord : ∀ c ∈ text.takeWhile (!isGap ·), isGap c = false := by
      intro c mem
      simpa using List.mem_takeWhile_imp mem
    have split := List.takeWhile_append_dropWhile (p := fun c => !isGap c) (l := text)
    cases later : text.dropWhile (!isGap ·) with
    | nil =>
      rw [later, List.append_nil] at split
      rw [← split]
      exact word _ inWord
    | cons c more =>
      have starts : isGap c = true := by
        have head := List.head?_dropWhile_not (!isGap ·) text
        rw [later] at head
        simpa using head
      have ends : ∀ d ∈ ((c :: more).dropWhile isGap).head?, isGap d = false := by
        intro d mem
        have head := List.head?_dropWhile_not isGap (c :: more)
        rw [Option.mem_def.mp mem] at head
        simpa using head
      have shorter : ((c :: more).dropWhile isGap).length < n := by
        have total := congrArg List.length split
        have fewer := (List.dropWhile_suffix (l := more) isGap).length_le
        rw [later, List.length_append, List.length_cons, size] at total
        rw [List.dropWhile_cons_of_pos starts]
        omega
      rw [← split, later, ← List.takeWhile_append_dropWhile (p := isGap) (l := c :: more)]
      apply step _ _ _ inWord
      · simp [starts]
      · intro d mem
        exact List.mem_takeWhile_imp mem
      · exact ends
      · exact ih _ shorter _ rfl

/-! ## Characters -/

/-- What is left of a text starts with no space: nothing is left, or some other
character comes next. -/
def Unspaced (rest : List Char) : Prop := ∀ c ∈ rest.head?, isSpace c = false

theorem unspaced_cons {c : Char} {rest : List Char} :
    Unspaced (c :: rest) ↔ isSpace c = false := by
  simp [Unspaced]

/-- A character that ends a line and is kept as it is when a scalar goes on in the
next line. -/
def IsLineEnd (c : Char) : Prop :=
  c = '\n' ∨ c = Char.ofNat 0x2028 ∨ c = Char.ofNat 0x2029

theorem IsLineEnd.isBreak {c : Char} (lineEnd : IsLineEnd c) : isBreak c = true := by
  rcases lineEnd with rfl | rfl | rfl <;> decide

theorem IsLineEnd.breakChar {c : Char} (lineEnd : IsLineEnd c) : breakChar c = c := by
  rcases lineEnd with rfl | rfl | rfl <;> decide

theorem IsLineEnd.isBlank {c : Char} (lineEnd : IsLineEnd c) : isBlank c = false := by
  rcases lineEnd with rfl | rfl | rfl <;> decide

theorem IsLineEnd.ne_return {c : Char} (lineEnd : IsLineEnd c) : c ≠ '\r' := by
  rcases lineEnd with rfl | rfl | rfl <;> decide

theorem isBlank_of_isSpace {c : Char} (space : isSpace c = false) : isBlank c = false := by
  rw [isSpace, Bool.or_eq_false_iff] at space
  exact space.1

theorem isBreak_of_isSpace {c : Char} (space : isSpace c = false) : isBreak c = false := by
  rw [isSpace, Bool.or_eq_false_iff] at space
  exact space.2

/-! ## Places -/

namespace Place

theorem advance_rest_of_append {place : Place} {front rest : List Char}
    (here : place.rest = front ++ rest) : (place.advance front.length).rest = rest := by
  rw [advance, here]
  exact List.drop_left

theorem hasDocumentMark_of_column {place : Place} (inner : 0 < place.column) :
    place.hasDocumentMark = false := by
  have column : place.column ≠ 0 := by omega
  simp [hasDocumentMark, hasMark, column]

theorem readBreak_of_lineEnd {place : Place} {c : Char} {rest : List Char}
    (here : place.rest = c :: rest) (lineEnd : IsLineEnd c) :
    place.readBreak
      = ([c], { rest, line := place.line + 1, column := 0, index := place.index + 1 }) := by
  rw [readBreak, here]
  split
  · next rest' same => exact absurd (List.cons_eq_cons.mp same).1 lineEnd.ne_return
  · next c' rest' other same =>
    rcases List.cons_eq_cons.mp same with ⟨rfl, rfl⟩
    rw [if_pos lineEnd.isBreak, lineEnd.breakChar]
  · next same => cases same

end Place

/-! ## Gaps -/

namespace Gap

theorem extend_space (gap : Gap) (line column index : Nat) (rest : List Char) :
    gap.extend line column index (' ' :: rest)
      = (gap.addBlank ' ' column).extend line (column + 1) (index + 1) rest := by
  rw [extend.eq_def]
  rfl

theorem extend_lineEnd (gap : Gap) (line column index : Nat) {c : Char} (lineEnd : IsLineEnd c)
    (rest : List Char) :
    gap.extend line column index (c :: rest)
      = (gap.addBreak c).extend (line + 1) 0 (index + 1) rest := by
  rw [extend]
  · rw [if_neg (by simp [lineEnd.isBlank]), if_pos lineEnd.isBreak, lineEnd.breakChar]
  · intro rest' same
    exact absurd same lineEnd.ne_return

theorem extend_unspaced (gap : Gap) (line column index : Nat) {rest : List Char}
    (stop : Unspaced rest) :
    gap.extend line column index rest = (gap, { rest, line, column, index }) := by
  cases rest with
  | nil => rfl
  | cons c rest =>
    have space := unspaced_cons.mp stop
    rw [extend]
    · rw [if_neg (by simp [isBlank_of_isSpace space]), if_neg (by simp [isBreak_of_isSpace space])]
    · rintro rest' rfl
      simp [isSpace, isBreak] at space

/-- Spaces of a gap within a line are kept. -/
theorem extend_spaces {gap : Gap} (whole : gap.isBroken = false) (line column index count : Nat)
    (rest : List Char) :
    gap.extend line column index (List.replicate count ' ' ++ rest)
      = ({ gap with blanks := gap.blanks ++ List.replicate count ' ' } : Gap).extend line
        (column + count) (index + count) rest := by
  induction count generalizing gap column index with
  | zero => simp
  | succ count ih =>
    rw [List.replicate_succ, List.cons_append, extend_space, addBlank, if_neg (by simp [whole]), ih]
    · simp [Nat.add_assoc, Nat.add_comm 1]
    · exact whole

/-- Spaces after a line end count for nothing. -/
theorem extend_indentation {gap : Gap} (broken : gap.isBroken = true)
    (line column index count : Nat) (rest : List Char) :
    gap.extend line column index (List.replicate count ' ' ++ rest)
      = gap.extend line (column + count) (index + count) rest := by
  induction count generalizing column index with
  | zero => simp
  | succ count ih =>
    rw [List.replicate_succ, List.cons_append, extend_space, addBlank, if_pos broken,
      if_neg (by decide), ih]
    simp [Nat.add_assoc, Nat.add_comm 1]

theorem addBreak_of_firstBreak {gap : Gap} {first : List Char}
    (broken : gap.firstBreak = some first)
    (c : Char) : gap.addBreak c = { gap with moreBreaks := gap.moreBreaks ++ [c] } := by
  rw [addBreak, broken]

theorem exists_extend_lineEnds {gap : Gap} {first : List Char}
    (broken : gap.firstBreak = some first)
    {breaks : List Char} (ends : ∀ c ∈ breaks, IsLineEnd c) (count : Nat) {rest : List Char}
    (stop : Unspaced rest) (line index : Nat) :
    ∃ after, gap.extend line 0 index (breaks ++ (List.replicate count ' ' ++ rest))
        = ({ gap with moreBreaks := gap.moreBreaks ++ breaks }, after)
      ∧ after.rest = rest ∧ after.column = count := by
  induction breaks generalizing gap line index with
  | nil =>
    rw [List.nil_append, extend_indentation (by simp [isBroken, broken]),
      extend_unspaced _ _ _ _ stop]
    exact ⟨_, by rw [List.append_nil], rfl, Nat.zero_add count⟩
  | cons c breaks ih =>
    rw [List.cons_append, extend_lineEnd _ _ _ _ (ends c List.mem_cons_self),
      addBreak_of_firstBreak broken, List.append_cons _ c breaks]
    exact @ih { gap with moreBreaks := gap.moreBreaks ++ [c] } broken
      (fun d mem => ends d (List.mem_cons_of_mem c mem)) _ _

/-- A gap of spaces is kept as it is. -/
theorem exists_read_spaces {place : Place} {count : Nat} {rest : List Char}
    (here : place.rest = List.replicate count ' ' ++ rest) (stop : Unspaced rest) :
    ∃ after, ({} : Gap).read place = ({ blanks := List.replicate count ' ' }, after)
      ∧ after.rest = rest ∧ after.column = place.column + count := by
  rw [read, here, extend_spaces rfl, extend_unspaced _ _ _ _ stop]
  exact ⟨_, rfl, rfl, rfl⟩

/-- Of a gap that goes over several lines, the line ends are kept. -/
theorem exists_read_lineEnds {place : Place} {first : Char} {more : List Char} {count : Nat}
    {rest : List Char} (here : place.rest = first :: more ++ (List.replicate count ' ' ++ rest))
    (ends : ∀ c ∈ first :: more, IsLineEnd c) (stop : Unspaced rest) :
    ∃ after, ({} : Gap).read place = ({ firstBreak := some [first], moreBreaks := more }, after)
      ∧ after.rest = rest ∧ after.column = count := by
  rw [read, here, List.cons_append, extend_lineEnd _ _ _ _ (ends first List.mem_cons_self)]
  exact exists_extend_lineEnds rfl (fun c mem => ends c (List.mem_cons_of_mem first mem)) count stop
    _ _

end Gap

end Protoclass.Yaml
