import Protoclass.Dataclass.Reference
import Protoclass.Proofs.Text.Lines

/-!
# Expansion keeps margins

Expanding the references of a text keeps the margin of its lines.  An entry
starts a line of its own behind a deeper margin; a merged block loses whole
lines, up to a line end behind which the margin stands.  Where the margin itself
stands no rule applies, so it is copied as it is.
-/

namespace Protoclass.Reference

open Text (Behind Hanging newline)

/-! ## Replacing -/

/-- The rule applies nowhere at this byte. -/
def Inert (rule : Rule) (b : UInt8) : Prop := ∀ rest, rule (b :: rest) = none

theorem replaceFrom_eq_drop (rule : Rule) (skip : Nat) (text : Text) :
    replaceFrom rule skip text = replaceFrom rule 0 (text.drop skip) := by
  induction skip generalizing text with
  | zero => rfl
  | succ skip ih =>
    cases text with
    | nil => rfl
    | cons b rest =>
      rw [replaceFrom, List.drop_succ_cons]
      exact ih rest

theorem replaceAll_append {rule : Rule} {front : Text} (inert : ∀ b ∈ front, Inert rule b)
    (back : Text) : replaceAll rule (front ++ back) = front ++ replaceAll rule back := by
  induction front with
  | nil => rfl
  | cons b front ih =>
    have rest := ih fun other member => inert other (List.mem_cons_of_mem b member)
    rw [replaceAll] at rest ⊢
    rw [List.cons_append, replaceFrom, inert b List.mem_cons_self (front ++ back)]
    exact congrArg (b :: ·) rest

/-- `new` can stand in place of the first `taken` bytes of a text: it keeps the
margin, also together with what follows.  What follows goes on in the same line
or, behind a line end, is the margin, at which the rule is inert. -/
def Fits (margin : Text) (rule : Rule) (text new : Text) (taken : Nat) : Prop :=
  ∃ front gap back, front ≠ [] ∧ text = front ++ gap ++ back ∧ taken = front.length ∧
    (∀ b ∈ gap, Inert rule b) ∧ Hanging margin (new ++ gap)

/-- What a rule puts in place of the start of a text fits there. -/
def KeepsMargin (margin : Text) (rule : Rule) : Prop :=
  ∀ (text new : Text) (taken : Nat), Hanging margin text → rule text = some (new, taken) →
    Fits margin rule text new taken

theorem KeepsMargin.replaceAll {margin : Text} {rule : Rule} (keeps : KeepsMargin margin rule)
    (inert : ∀ b ∈ margin, Inert rule b) {text : Text} (hanging : Hanging margin text) :
    Hanging margin (replaceAll rule text) := by
  -- Each place that is replaced shortens what is left by the bytes it takes.
  induction size : text.length using Nat.strongRecOn generalizing text with
  | ind n ih =>
    subst size
    cases text with
    | nil => trivial
    | cons b rest =>
      rw [Reference.replaceAll, replaceFrom]
      cases applied : rule (b :: rest) with
      | none =>
        refine ⟨?_, ih rest.length (Nat.lt_succ_self _) hanging.2 rfl⟩
        intro ended
        obtain ⟨below, rfl⟩ := hanging.1 ended
        exact ⟨_, (replaceAll_append inert below).symm⟩
      | some found =>
        obtain ⟨new, taken⟩ := found
        obtain ⟨front, gap, back, nonempty, split, rfl, quiet, new_hanging⟩ :=
          keeps _ _ _ hanging applied
        have left : replaceFrom rule (front.length - 1) rest = gap ++ Reference.replaceAll rule back := by
          obtain ⟨first, others, rfl⟩ := List.exists_cons_of_ne_nil nonempty
          rw [List.cons_append, List.cons_append] at split
          obtain ⟨rfl, rfl⟩ := List.cons.inj split
          rw [replaceFrom_eq_drop, List.length_cons, Nat.add_sub_cancel, List.append_assoc,
            List.drop_left]
          exact replaceAll_append quiet back
        have shorter : back.length < (b :: rest).length := by
          rw [split, List.length_append, List.length_append]
          have := List.length_pos_iff.mpr nonempty
          omega
        have back_hanging : Hanging margin back := by
          rw [split] at hanging
          exact hanging.of_append
        simp only [left]
        rw [← List.append_assoc]
        exact new_hanging.append (ih back.length shorter back_hanging rfl)

theorem KeepsMargin.behind_replaceAll {margin : Text} {rule : Rule}
    (keeps : KeepsMargin margin rule) (inert : ∀ b ∈ margin, Inert rule b) {text : Text}
    (behind : Behind margin text) : Behind margin (Reference.replaceAll rule text) := by
  refine ⟨?_, keeps.replaceAll inert behind.hanging⟩
  obtain ⟨rest, rfl⟩ := behind.start
  rw [replaceAll_append inert]
  exact List.prefix_append margin _

/-! ## Matching -/

theorem lower_eq_newline_iff (b : UInt8) : Text.lower b = newline ↔ b = newline := by
  unfold Text.lower
  grind

/-- What a byte of a pattern matches has a line end only if it is one. -/
theorem afterFoldedByte?_eq_some {p : UInt8} {text rest : Text}
    (matched : Text.afterFoldedByte? p text = some rest) :
    ∃ front, front ≠ [] ∧ text = front ++ rest ∧ (p ≠ newline → newline ∉ front) ∧
      (p = newline → front = [newline]) := by
  cases text with
  | nil => simp [Text.afterFoldedByte?] at matched
  | cons b text =>
    unfold Text.afterFoldedByte? at matched
    dsimp only at matched
    split at matched
    case isTrue lowered =>
      cases matched
      refine ⟨[b], by simp, rfl, ?_, ?_⟩
      · intro other member
        obtain rfl := List.mem_singleton.mp member
        exact other (lowered.symm.trans ((lower_eq_newline_iff newline).mpr rfl))
      · intro ended
        rw [(lower_eq_newline_iff b).mp (lowered.trans ended)]
    case isFalse =>
      split at matched
      case isTrue long =>
        obtain ⟨rfl, rfl⟩ := long
        split at matched
        · cases matched
          exact ⟨[0xC5, 0xBF], by simp, rfl, by decide, by decide⟩
        · contradiction
      case isFalse =>
        split at matched
        case isTrue kelvin =>
          obtain ⟨rfl, rfl⟩ := kelvin
          split at matched
          · cases matched
            exact ⟨[0xE2, 0x84, 0xAA], by simp, rfl, by decide, by decide⟩
          · contradiction
        case isFalse => contradiction

/-- What a pattern matches has a line end only if the pattern has one. -/
theorem afterFolded?_eq_some {pattern text rest : Text}
    (matched : Text.afterFolded? pattern text = some rest) :
    ∃ front, text = front ++ rest ∧ (pattern ≠ [] → front ≠ []) ∧
      (newline ∉ pattern → newline ∉ front) := by
  induction pattern generalizing text with
  | nil =>
    cases matched
    exact ⟨[], rfl, by simp, by simp⟩
  | cons p pattern ih =>
    rw [Text.afterFolded?] at matched
    split at matched
    · rename_i middle first
      obtain ⟨front, nonempty, rfl, plain, -⟩ := afterFoldedByte?_eq_some first
      obtain ⟨others, rfl, -, plainOthers⟩ := ih matched
      refine ⟨front ++ others, by simp, by simp [nonempty], ?_⟩
      intro absent
      rw [List.mem_cons, not_or] at absent
      rw [List.mem_append, not_or]
      exact ⟨plain (Ne.symm absent.1), plainOthers absent.2⟩
    · contradiction

theorem afterFolded?_append (first second text : Text) :
    Text.afterFolded? (first ++ second) text =
      (Text.afterFolded? first text).bind (Text.afterFolded? second) := by
  induction first generalizing text with
  | nil => rfl
  | cons p first ih =>
    rw [List.cons_append, Text.afterFolded?, Text.afterFolded?]
    cases Text.afterFoldedByte? p text with
    | none => rfl
    | some rest => exact ih rest

/-- A match of a pattern that ends in a line end ends in one. -/
theorem afterFolded?_concat_newline (pattern : Text) {text rest : Text}
    (matched : Text.afterFolded? (pattern ++ [newline]) text = some rest) :
    ∃ front, text = front ++ newline :: rest := by
  rw [afterFolded?_append, Option.bind_eq_some_iff] at matched
  obtain ⟨middle, first, last⟩ := matched
  obtain ⟨front, rfl, -, -⟩ := afterFolded?_eq_some first
  rw [Text.afterFolded?] at last
  split at last
  · rename_i after ended
    cases last
    obtain ⟨ending, -, rfl, -, newline_eq⟩ := afterFoldedByte?_eq_some ended
    exact ⟨front, by rw [newline_eq rfl]; rfl⟩
  · contradiction

/-! ## Entries -/

/-- A dotted run has no ASCII character that stands in no name. -/
theorem notMem_dottedRun {b : UInt8} (ascii : b < 128) (wordless : isWordByte b = false)
    (other : b ≠ Text.dot) (text : Text) : b ∉ dottedRun text := by
  fun_induction dottedRun text <;> grind

theorem forall_mem_dottedName {p : UInt8 → Prop} {text : Text} (run : ∀ b ∈ dottedRun text, p b) :
    ∀ word ∈ dottedName text, ∀ b ∈ word, p b := by
  intro word member b inWord
  exact run b (Text.mem_of_mem_splitOn ((List.takeWhile_sublist _).subset member) inWord)

/-- What stands in the line of an entry besides the words of its name. -/
def entryMarks : Text := ":methclas`. <>"

/-- An entry for a name: the head of a block, and in the line below it, behind the margin,
words of the name between marks. -/
def IsEntry (margin : Text) (words : List Text) (entry : Text) : Prop :=
  ∃ line, entry = ".. seealso::\n" ++ (margin ++ line) ∧
    ∀ b ∈ line, b ∈ entryMarks ∨ ∃ word ∈ words, b ∈ word

theorem mem_marks_or_of_mem_join {words : List Text} {b : UInt8}
    (member : b ∈ Text.join "." words) : b ∈ entryMarks ∨ ∃ word ∈ words, b ∈ word := by
  have dots : Text.ofString "." ⊆ entryMarks := by decide
  exact (Text.mem_join member).imp_left fun inDot => dots inDot

theorem isEntry_of_shown {role shown : Text} {words : List Text} (marked : role ⊆ entryMarks)
    (ofWords : ∀ b ∈ shown, b ∈ entryMarks ∨ ∃ word ∈ words, b ∈ word) (margin : Text) :
    IsEntry margin words
      (".. seealso::\n" ++ margin ++ role ++ shown ++ " <" ++ Text.join "." words ++ ">`") := by
  have opened : Text.ofString " <" ⊆ entryMarks := by decide
  have closed : Text.ofString ">`" ⊆ entryMarks := by decide
  refine ⟨role ++ shown ++ " <" ++ Text.join "." words ++ ">`", by simp, ?_⟩
  simp only [List.forall_mem_append]
  exact ⟨⟨⟨⟨fun b member => .inl (marked member), ofWords⟩, fun b member => .inl (opened member)⟩,
    fun b => mem_marks_or_of_mem_join⟩, fun b member => .inl (closed member)⟩

theorem isEntry_methodEntry (margin : Text) (words : List Text) :
    IsEntry margin words (methodEntry margin words) := by
  apply isEntry_of_shown (by decide)
  intro b member
  apply (mem_marks_or_of_mem_join member).imp_right
  rintro ⟨word, among, inWord⟩
  exact ⟨word, List.mem_of_mem_drop among, inWord⟩

theorem isEntry_classEntry (margin : Text) (words : List Text) :
    IsEntry margin words (classEntry margin words) := by
  apply isEntry_of_shown (by decide)
  intro b member
  cases last : words.getLast? with
  | none =>
    rw [last] at member
    contradiction
  | some word =>
    rw [last] at member
    exact .inr ⟨word, List.mem_of_getLast? last, member⟩

variable {margin deeper : Text}

/-- What holds of the bytes of margins, marks and words holds of those of an entry. -/
theorem IsEntry.forall_mem {words : List Text} {entry : Text} (isEntry : IsEntry margin words entry)
    {p : UInt8 → Prop} (head : ∀ b ∈ Text.ofString ".. seealso::\n", p b)
    (behind : ∀ b ∈ margin, p b) (marks : ∀ b ∈ entryMarks, p b)
    (named : ∀ word ∈ words, ∀ b ∈ word, p b) : ∀ b ∈ entry, p b := by
  obtain ⟨line, rfl, bytes⟩ := isEntry
  simp only [List.forall_mem_append]
  refine ⟨head, behind, fun b member => ?_⟩
  rcases bytes b member with isMark | ⟨word, among, inWord⟩
  · exact marks b isMark
  · exact named word among b inWord

/-- An entry stands in a line of its own, behind a margin that may be deeper. -/
theorem IsEntry.hanging {words : List Text} {entry : Text} (isEntry : IsEntry deeper words entry)
    (within : margin <+: deeper) (oneLine : newline ∉ deeper)
    (oneLineWords : ∀ word ∈ words, newline ∉ word) : Hanging margin entry := by
  obtain ⟨line, rfl, bytes⟩ := isEntry
  have head : newline ∉ Text.ofString ".. seealso::" := by decide
  have oneLineEntry : newline ∉ line := by
    intro member
    rcases bytes newline member with isMark | ⟨word, among, inWord⟩
    · exact absurd isMark (by decide)
    · exact oneLineWords word among inWord
  show Hanging margin (Text.ofString ".. seealso::" ++ newline :: (deeper ++ line))
  refine (Text.hanging_of_notMem head).append (.newline_cons ?_ (Text.hanging_of_notMem ?_))
  · exact within.trans (List.prefix_append deeper line)
  · rw [List.mem_append, not_or]
    exact ⟨oneLine, oneLineEntry⟩

/-! ## The rules -/

/-- What stands up to some end of the text is taken, and the margin follows. -/
theorem fits_append {rule : Rule} {front gap new : Text} (nonempty : front ≠ [])
    (inert : ∀ b ∈ gap, Inert rule b) (hanging : Hanging margin (new ++ gap)) (back : Text) :
    Fits margin rule (front ++ (gap ++ back)) new
      ((front ++ (gap ++ back)).length - (gap ++ back).length) := by
  refine ⟨front, gap, back, nonempty, (List.append_assoc ..).symm, ?_, inert, hanging⟩
  rw [List.length_append, Nat.add_sub_cancel]

/-- What stands up to some end of the text is taken, inside a line. -/
theorem fits_of_suffix {rule : Rule} {front named rest new : Text} (nonempty : front ≠ [])
    (suffix : rest <:+ named) (hanging : Hanging margin new) :
    Fits margin rule (front ++ named) new ((front ++ named).length - rest.length) := by
  obtain ⟨inner, rfl⟩ := suffix
  have whole : front ++ inner ≠ [] := List.append_ne_nil_of_left_ne_nil nonempty inner
  have inert : ∀ b ∈ ([] : Text), Inert rule b := by simp
  rw [← List.append_nil new] at hanging
  have fits := fits_append whole inert hanging rest
  rwa [List.nil_append, List.append_assoc] at fits

/-- The rule replaces references: in the place of `@see`, a name and maybe more it puts an
entry for the name. -/
def Refers (margin : Text) (rule : Rule) : Prop :=
  ∀ (text new : Text) (taken : Nat), rule text = some (new, taken) →
    ∃ named rest, Text.afterFolded? "@see " text = some named ∧ dottedName named ≠ [] ∧
      IsEntry margin (dottedName named) new ∧ rest <:+ named ∧ taken = text.length - rest.length

theorem refers_methodRule (margin : Text) : Refers margin (methodRule margin) := by
  intro text new taken applied
  simp only [methodRule, Option.bind_eq_bind, Option.bind_eq_some_iff] at applied
  obtain ⟨named, found, applied⟩ := applied
  split at applied
  · contradiction
  next two =>
    obtain ⟨rest, called, applied⟩ := Option.bind_eq_some_iff.mp applied
    cases applied
    have suffix : rest <:+ named.drop (Text.join "." (dottedName named)).length :=
      ⟨_, (Text.after?_eq_some_iff.mp called).symm⟩
    refine ⟨named, rest, found, ?_, isEntry_methodEntry margin _,
      suffix.trans (List.drop_suffix _ named), rfl⟩
    rintro nothing
    simp [nothing] at two

theorem refers_classRule (margin : Text) : Refers margin (classRule margin) := by
  intro text new taken applied
  simp only [classRule, Option.bind_eq_bind, Option.bind_eq_some_iff] at applied
  obtain ⟨named, found, applied⟩ := applied
  split at applied
  · contradiction
  next some_word =>
    cases applied
    exact ⟨named, _, found, by simpa using some_word, isEntry_classEntry margin _,
      List.drop_suffix _ named, rfl⟩

theorem Refers.keepsMargin {rule : Rule} (refers : Refers deeper rule) (within : margin <+: deeper)
    (oneLine : newline ∉ deeper) : KeepsMargin margin rule := by
  intro text new taken _ applied
  obtain ⟨named, rest, found, -, isEntry, suffix, rfl⟩ := refers _ _ _ applied
  obtain ⟨see, rfl, nonempty, -⟩ := afterFolded?_eq_some found
  have oneLineWords : ∀ word ∈ dottedName named, newline ∉ word := by
    intro word member inWord
    have run : ∀ b ∈ dottedRun named, b ≠ newline := fun b inRun same =>
      notMem_dottedRun (by decide) (by decide) (by decide) named (same ▸ inRun)
    exact forall_mem_dottedName run word member newline inWord rfl
  exact fits_of_suffix (nonempty (by decide)) suffix
    (isEntry.hanging within oneLine oneLineWords)

theorem newline_notMem_takeWhile (text : Text) : newline ∉ text.takeWhile (· != newline) := by
  intro member
  have := List.all_eq_true.mp List.all_takeWhile newline member
  simp at this

/-- A merged place starts in one line and ends behind a line end. -/
theorem mergeRule_eq_some {text new : Text} {taken : Nat}
    (applied : mergeRule text = some (new, taken)) :
    ∃ line skipped rest, line ≠ [] ∧ newline ∉ line ∧
      text = line ++ newline :: skipped ++ newline :: rest ∧
      new = line ++ ",\n" ∧ taken = text.length - rest.length := by
  simp only [mergeRule, Option.bind_eq_bind, Option.bind_eq_some_iff] at applied
  obtain ⟨entry, found, below, ended, rest, merged, applied⟩ := applied
  cases applied
  obtain ⟨role, rfl, nonempty, plain⟩ := afterFolded?_eq_some found
  have ended := Text.after?_eq_some_iff.mp ended
  obtain ⟨block, merged⟩ := afterFolded?_concat_newline ".. seealso::" merged
  have divided := List.takeWhile_append_dropWhile (p := (· != newline)) (l := entry)
  have oneLine := newline_notMem_takeWhile entry
  have gap := List.takeWhile_append_dropWhile (p := isGap) (l := below)
  generalize entry.takeWhile (· != newline) = line at *
  generalize entry.dropWhile (· != newline) = after at *
  generalize below.takeWhile isGap = blank at *
  rw [merged] at gap
  subst divided gap
  refine ⟨role ++ line, blank ++ block, rest, ?_, ?_, ?_, ?_, rfl⟩
  · exact List.append_ne_nil_of_left_ne_nil (nonempty (by decide)) line
  · rw [List.mem_append, not_or]
    exact ⟨plain (by decide), oneLine⟩
  · rw [ended]
    simp
  · rw [← List.append_assoc, List.length_append, Nat.add_sub_cancel, List.take_left]

/-- The rest of the line with the entry stays; the lines that are left out end
in a line end, behind which the margin stands. -/
theorem keepsMargin_mergeRule (inert : ∀ b ∈ margin, Inert mergeRule b)
    (oneLine : newline ∉ margin) : KeepsMargin margin mergeRule := by
  intro text new taken hanging applied
  obtain ⟨line, skipped, rest, nonempty, oneLineEntry, rfl, rfl, rfl⟩ := mergeRule_eq_some applied
  obtain ⟨back, rfl⟩ := hanging.prefix_of_append
  have merged : Hanging margin (line ++ ",\n" ++ margin) := by
    have comma : newline ∉ line ++ Text.ofString "," := by
      rw [List.mem_append, not_or]
      exact ⟨oneLineEntry, by decide⟩
    have := (Text.hanging_of_notMem comma).append
      (.newline_cons List.prefix_rfl (Text.hanging_of_notMem oneLine))
    rw [List.append_assoc] at this ⊢
    exact this
  have whole : line ++ newline :: skipped ++ [newline] ≠ [] := by simp
  have := fits_append whole inert merged back
  simpa using this

/-! ## Expanding -/

theorem inert_methodRule (deeper : Text) : Inert (methodRule deeper) Text.space := fun _ => rfl

theorem inert_classRule (deeper : Text) : Inert (classRule deeper) Text.space := fun _ => rfl

theorem inert_mergeRule : Inert mergeRule Text.space := fun _ => rfl

/-- A text with its references expanded keeps a margin of spaces, when entries
stand behind the same margin or a deeper one. -/
theorem behind_expand {text : Text} (spaces : ∀ b ∈ deeper, b = Text.space)
    (within : margin <+: deeper) (behind : Behind margin text) :
    Behind margin (expand deeper text) := by
  have oneLine : newline ∉ deeper := fun member => absurd (spaces newline member) (by decide)
  have oneLineMargin : newline ∉ margin := fun member => oneLine (within.subset member)
  have inert {rule : Rule} (inert : Inert rule Text.space) : ∀ b ∈ margin, Inert rule b := by
    intro b member
    rw [spaces b (within.subset member)]
    exact inert
  have methods := ((refers_methodRule deeper).keepsMargin within oneLine).behind_replaceAll
    (inert (inert_methodRule deeper)) behind
  have classes := ((refers_classRule deeper).keepsMargin within oneLine).behind_replaceAll
    (inert (inert_classRule deeper)) methods
  exact (keepsMargin_mergeRule (inert inert_mergeRule) oneLineMargin).behind_replaceAll
    (inert inert_mergeRule) classes

end Protoclass.Reference
