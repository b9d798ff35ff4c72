import Protoclass.Proofs.Yaml.Gaps
import Protoclass.Yaml.Scalar

/-!
# Plain scalars

A plain text is made of words with spaces between them.  At the end of a line it
is read as it stands (`PlainText.exists_readPlain`), and so is a word before the
colon that makes it a key (`PlainWord.readPlain_key`).
-/

namespace Protoclass.Yaml

/-- A word of a plain text: it has no space, does not look like the start of a
comment, and does not end like a key. -/
structure PlainWord (word : List Char) : Prop where
  nonempty : word ≠ []
  unspaced : ∀ c ∈ word, isSpace c = false
  start : word.head? ≠ some '#'
  stop : word.getLast? ≠ some ':'

/-- Words with spaces between them. -/
inductive PlainText : List Char → Prop where
  | word {word : List Char} : PlainWord word → PlainText word
  | words {word rest : List Char} (count : Nat) : PlainWord word → PlainText rest →
    PlainText (word ++ (List.replicate (count + 1) ' ' ++ rest))

/-- A word is read to its end.  A colon at its end does not count if no space
follows it. -/
theorem plainWord_append {word rest : List Char} (unspaced : ∀ c ∈ word, isSpace c = false)
    (colon : word.getLast? = some ':' → atSpace rest = false)
    (stop : plainWord false rest = []) : plainWord false (word ++ rest) = word := by
  induction word with
  | nil => exact stop
  | cons c word ih =>
    have later : atSpace (word ++ rest) = true → c ≠ ':' := by
      intro space same
      cases word with
      | nil => simp [colon (by rw [same]; rfl)] at space
      | cons d word => simp [atSpace, unspaced d (by simp)] at space
    rw [List.cons_append, plainWord, if_neg, ih]
    · intro d mem
      exact unspaced d (List.mem_cons_of_mem c mem)
    · intro last
      apply colon
      cases word with
      | nil => simp at last
      | cons d word => rw [List.getLast?_cons_cons, last]
    · simp only [unspaced c List.mem_cons_self, Bool.false_or, Bool.false_and, Bool.or_false,
        Bool.and_eq_true, decide_eq_true_eq, not_and']
      exact later

theorem plainWord_of_atSpace {rest : List Char} (space : atSpace rest = true) :
    plainWord false rest = [] := by
  cases rest with
  | nil => rfl
  | cons c rest => rw [plainWord, if_pos (by rw [show isSpace c = true from space]; rfl)]

theorem PlainWord.found {word rest : List Char} (isWord : PlainWord word)
    (space : atSpace rest = true) : plainWord false (word ++ rest) = word :=
  plainWord_append isWord.unspaced (fun last => absurd last isWord.stop)
    (plainWord_of_atSpace space)

/-- One word is read together with the gap after it. -/
theorem readPlainFrom_succ {word : List Char} {place : Place} (nonempty : word ≠ [])
    (found : plainWord false place.rest = word) (start : place.head? ≠ some '#')
    (unmarked : place.hasDocumentMark = false) {gap after : Gap} {next : Place}
    (read : ({} : Gap).read (place.advance word.length) = (after, next))
    (untabbed : after.tabs = []) (indent limit : Nat) (text : List Char) :
    readPlainFrom false indent (limit + 1) text gap place
      = if after.isBroken && next.column < indent then
          some { text := text ++ gap.text ++ word, place := next, broken := true }
        else readPlainFrom false indent limit (text ++ gap.text ++ word) after next := by
  have notEmpty : word.isEmpty = false := by
    rw [List.isEmpty_eq_false_iff]
    exact nonempty
  rw [readPlainFrom, found]
  simp only [unmarked, start, notEmpty, decide_false, Bool.or_false, Bool.false_eq_true, if_false,
    read, untabbed, List.any_nil, Bool.not_false, Bool.true_and]

theorem PlainWord.head?_ne {word rest : List Char} (isWord : PlainWord word) {place : Place}
    (here : place.rest = word ++ rest) : place.head? ≠ some '#' := by
  rcases List.exists_cons_of_ne_nil isWord.nonempty with ⟨c, more, rfl⟩
  rw [Place.head?, here]
  exact isWord.start

theorem PlainText.unspaced {text : List Char} (plain : PlainText text) (rest : List Char) :
    Unspaced (text ++ rest) := by
  have ofWord : ∀ {word : List Char}, PlainWord word → ∀ rest, Unspaced (word ++ rest) := by
    intro word isWord rest
    rcases List.exists_cons_of_ne_nil isWord.nonempty with ⟨c, more, rfl⟩
    exact unspaced_cons.mpr (isWord.unspaced c List.mem_cons_self)
  cases plain with
  | word isWord => exact ofWord isWord rest
  | words count isWord more =>
    rw [List.append_assoc]
    exact ofWord isWord _

theorem PlainText.unbroken {text : List Char} (plain : PlainText text) :
    ∀ c ∈ text, isBreak c = false := by
  induction plain with
  | word isWord =>
    intro c mem
    exact isBreak_of_isSpace (isWord.unspaced c mem)
  | words count isWord rest ih =>
    intro c mem
    rw [List.mem_append, List.mem_append] at mem
    rcases mem with mem | mem | mem
    · exact isBreak_of_isSpace (isWord.unspaced c mem)
    · rw [List.eq_of_mem_replicate mem]
      rfl
    · exact ih c mem

/-- The words of a plain text are read up to the end of the line. -/
theorem PlainText.exists_readPlainFrom {text : List Char} (plain : PlainText text)
    {next : List Char} (stop : Unspaced next) {count indent : Nat} (outside : count < indent)
    {place : Place} (here : place.rest = text ++ '\n' :: (List.replicate count ' ' ++ next))
    (unmarked : place.hasDocumentMark = false) {limit : Nat} (enough : text.length ≤ limit)
    (front : List Char) (gap : Gap) :
    ∃ after, readPlainFrom false indent limit front gap place
        = some { text := front ++ gap.text ++ text, place := after, broken := true }
      ∧ after.rest = next ∧ after.column = count := by
  induction plain generalizing place limit front gap with
  | @word word isWord =>
    have some_word := List.length_pos_iff.mpr isWord.nonempty
    rcases Nat.exists_eq_add_of_lt (Nat.lt_of_lt_of_le some_word enough) with ⟨limit, rfl⟩
    have found : plainWord false place.rest = word := by rw [here, isWord.found rfl]
    have lineEnds : ∀ c ∈ ['\n'], IsLineEnd c := by simp [IsLineEnd]
    have behind : (place.advance word.length).rest
        = '\n' :: [] ++ (List.replicate count ' ' ++ next) :=
      Place.advance_rest_of_append here
    rcases Gap.exists_read_lineEnds behind lineEnds stop with ⟨after, read, rest, column⟩
    rw [Nat.zero_add,
      readPlainFrom_succ isWord.nonempty found (isWord.head?_ne here) unmarked read rfl,
      if_pos]
    · exact ⟨after, rfl, rest, column⟩
    · rw [column]
      simpa [Gap.isBroken] using outside
  | @words word rest spaces isWord plain ih =>
    have some_word : 0 < (word ++ (List.replicate (spaces + 1) ' ' ++ rest)).length := by
      rw [List.length_append]
      exact Nat.add_pos_left (List.length_pos_iff.mpr isWord.nonempty) _
    rcases Nat.exists_eq_add_of_lt (Nat.lt_of_lt_of_le some_word enough) with ⟨limit, rfl⟩
    rw [List.append_assoc, List.append_assoc] at here
    have behind := Place.advance_rest_of_append here
    rcases Gap.exists_read_spaces behind (plain.unspaced _) with ⟨after, read, rest', column⟩
    have inner : 0 < after.column := by
      rw [column]
      omega
    have found : plainWord false place.rest = word := by rw [here, isWord.found rfl]
    have shorter : rest.length ≤ limit := by
      simp only [List.length_append, List.length_replicate] at enough
      omega
    rw [Nat.zero_add,
      readPlainFrom_succ isWord.nonempty found (isWord.head?_ne here) unmarked read rfl,
      if_neg (by simp [Gap.isBroken])]
    rcases ih rest' (Place.hasDocumentMark_of_column inner) shorter
      (front ++ gap.text ++ word) { blanks := List.replicate (spaces + 1) ' ' } with
        ⟨last, done, place⟩
    refine ⟨last, ?_, place⟩
    rw [done]
    simp [Gap.text]

/-- A plain text is read as it stands up to the end of its line, if the next line
that is not empty belongs to something around it. -/
theorem PlainText.exists_readPlain {text : List Char} (plain : PlainText text)
    {next : List Char} (stop : Unspaced next) {count indent : Nat} (outside : count < indent)
    {place : Place} (here : place.rest = text ++ '\n' :: (List.replicate count ' ' ++ next))
    (unmarked : place.hasDocumentMark = false) :
    ∃ after, readPlain false indent place = some { text, place := after, broken := true }
      ∧ after.rest = next ∧ after.column = count := by
  have enough : text.length ≤ place.rest.length := by
    rw [here, List.length_append]
    exact Nat.le_add_right _ _
  exact plain.exists_readPlainFrom stop outside here unmarked enough [] {}

/-- A word before a colon and a space is read up to the colon. -/
theorem PlainWord.readPlain_key {word : List Char} (isWord : PlainWord word) {more : List Char}
    (space : atSpace more = true) {place : Place} (here : place.rest = word ++ ':' :: more)
    (unmarked : place.hasDocumentMark = false) (indent : Nat) :
    readPlain false indent place
      = some { text := word, place := place.advance word.length, broken := false } := by
  have some_word := List.length_pos_iff.mpr isWord.nonempty
  have colon : plainWord false (':' :: more) = [] := by
    rw [plainWord, if_pos (by simp [space])]
  have found : plainWord false place.rest = word := by
    rw [here, plainWord_append isWord.unspaced (fun last => absurd last isWord.stop) colon]
  have behind : (place.advance word.length).rest = ':' :: more := Place.advance_rest_of_append here
  have read : ({} : Gap).read (place.advance word.length) = ({}, place.advance word.length) := by
    rw [Gap.read, behind, Gap.extend_unspaced _ _ _ _ (unspaced_cons.mpr (by decide)), ← behind]
  have size : place.rest.length = (word.length - 1 + more.length) + 1 + 1 := by
    rw [here, List.length_append, List.length_cons]
    omega
  rw [readPlain, size,
    readPlainFrom_succ isWord.nonempty found (isWord.head?_ne here) unmarked read rfl,
    if_neg (by simp [Gap.isBroken]), readPlainFrom, behind, colon, if_pos (by simp)]
  rfl

end Protoclass.Yaml
