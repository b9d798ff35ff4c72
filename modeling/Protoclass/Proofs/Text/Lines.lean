import Protoclass.Text.Basic

/-!
# Lines and margins

A text of whole lines is determined by its lines.  `Hanging margin text` says
that every line of the text but the first starts with the margin; it is the form
in which margins are carried through functions that work byte by byte, where
the first line may have begun earlier.
-/

namespace Protoclass.Text

/-! ## Division into pieces -/

@[simp]
theorem ofString_newline : ofString "\n" = [newline] := rfl

@[simp]
theorem ofString_slash : ofString "/" = [slash] := rfl

@[simp]
theorem splitOn_nil (sep : UInt8) : splitOn sep [] = [[]] := rfl

theorem splitOn_cons_self (sep : UInt8) (text : Text) :
    splitOn sep (sep :: text) = [] :: splitOn sep text := by
  rw [splitOn, if_pos rfl]

theorem splitOn_cons_of_ne {sep b : UInt8} (other : b ≠ sep) {text piece : Text}
    {pieces : List Text} (split : splitOn sep text = piece :: pieces) :
    splitOn sep (b :: text) = (b :: piece) :: pieces := by
  rw [splitOn, if_neg other, split]

theorem exists_splitOn_eq_cons (sep : UInt8) (text : Text) :
    ∃ piece pieces, splitOn sep text = piece :: pieces :=
  List.exists_cons_of_ne_nil (splitOn_ne_nil sep text)

theorem splitOn_append_cons (sep : UInt8) (front back : Text) :
    splitOn sep (front ++ sep :: back) = splitOn sep front ++ splitOn sep back := by
  induction front with
  | nil => exact splitOn_cons_self sep back
  | cons b front ih =>
    by_cases same : b = sep
    · subst same
      rw [List.cons_append, splitOn_cons_self, splitOn_cons_self, ih]
      rfl
    · obtain ⟨piece, pieces, split⟩ := exists_splitOn_eq_cons sep front
      rw [split] at ih
      rw [splitOn_cons_of_ne same split]
      exact splitOn_cons_of_ne same ih

theorem splitOn_eq_singleton {sep : UInt8} {text : Text} (absent : sep ∉ text) :
    splitOn sep text = [text] := by
  induction text with
  | nil => rfl
  | cons b text ih =>
    rw [List.mem_cons, not_or] at absent
    exact splitOn_cons_of_ne (Ne.symm absent.1) (ih absent.2)

theorem notMem_of_mem_splitOn {sep : UInt8} {text piece : Text}
    (member : piece ∈ splitOn sep text) : sep ∉ piece := by
  induction text generalizing piece with
  | nil =>
    obtain rfl := List.mem_singleton.mp member
    exact List.not_mem_nil
  | cons b text ih =>
    by_cases same : b = sep
    · subst same
      rw [splitOn_cons_self] at member
      rcases List.mem_cons.mp member with rfl | member
      · exact List.not_mem_nil
      · exact ih member
    · obtain ⟨first, others, split⟩ := exists_splitOn_eq_cons sep text
      rw [splitOn_cons_of_ne same split] at member
      rw [split] at ih
      rcases List.mem_cons.mp member with rfl | member
      · rw [List.mem_cons, not_or]
        exact ⟨Ne.symm same, ih List.mem_cons_self⟩
      · exact ih (List.mem_cons_of_mem first member)

theorem mem_of_mem_splitOn {sep b : UInt8} {text piece : Text}
    (member : piece ∈ splitOn sep text) (inPiece : b ∈ piece) : b ∈ text := by
  induction text generalizing piece with
  | nil =>
    obtain rfl := List.mem_singleton.mp member
    exact inPiece
  | cons c text ih =>
    by_cases same : c = sep
    · subst same
      rw [splitOn_cons_self] at member
      rcases List.mem_cons.mp member with rfl | member
      · exact absurd inPiece List.not_mem_nil
      · exact List.mem_cons_of_mem c (ih member inPiece)
    · obtain ⟨first, others, split⟩ := exists_splitOn_eq_cons sep text
      rw [splitOn_cons_of_ne same split] at member
      rw [split] at ih
      rcases List.mem_cons.mp member with rfl | member
      · rcases List.mem_cons.mp inPiece with rfl | inPiece
        · exact List.mem_cons_self
        · exact List.mem_cons_of_mem c (ih List.mem_cons_self inPiece)
      · exact List.mem_cons_of_mem c (ih (List.mem_cons_of_mem first member) inPiece)

/-- The pieces of a text come first among those of another exactly when the other
is the same text or goes on behind a separator. -/
theorem splitOn_prefix_iff {sep : UInt8} {front text : Text} :
    splitOn sep front <+: splitOn sep text ↔ text = front ∨ front ++ [sep] <+: text := by
  induction front generalizing text with
  | nil =>
    cases text with
    | nil => simp
    | cons b text =>
      by_cases same : b = sep
      · simp [same, splitOn_cons_self]
      · obtain ⟨piece, pieces, split⟩ := exists_splitOn_eq_cons sep text
        simp [splitOn_cons_of_ne same split, Ne.symm same]
  | cons a front ih =>
    obtain ⟨first, others, splitFront⟩ := exists_splitOn_eq_cons sep front
    cases text with
    | nil =>
      by_cases ended : a = sep
      · simp [ended, splitOn_cons_self, splitOn_ne_nil]
      · simp [splitOn_cons_of_ne ended splitFront]
    | cons b text =>
      obtain ⟨piece, pieces, split⟩ := exists_splitOn_eq_cons sep text
      by_cases ended : a = sep <;> by_cases same : b = sep
      · subst ended same
        simpa [splitOn_cons_self] using ih
      · subst ended
        simp [splitOn_cons_self, splitOn_cons_of_ne same split, same, Ne.symm same]
      · subst same
        simp [splitOn_cons_self, splitOn_cons_of_ne ended splitFront, ended, Ne.symm ended]
      · have inner : splitOn sep front <+: splitOn sep text ↔
            text = front ∨ front ++ [sep] <+: text := ih
        rw [splitFront, split, List.cons_prefix_cons] at inner
        rw [splitOn_cons_of_ne ended splitFront, splitOn_cons_of_ne same split]
        simp only [List.cons_append, List.cons_prefix_cons, List.cons.injEq]
        by_cases equal : a = b
        · simp [equal, inner]
        · simp [equal, Ne.symm equal]

/-- One more piece stands behind a separator. -/
theorem join_concat (sep : Text) (first : Text) (pieces : List Text) (last : Text) :
    join sep (first :: (pieces ++ [last])) =
      join sep (first :: pieces) ++ sep ++ last := by
  induction pieces generalizing first with
  | nil => simp [join]
  | cons next pieces ih =>
    have inner := ih next
    simp only [List.cons_append, join] at inner ⊢
    rw [inner]
    simp only [List.append_assoc]

/-- Two lists of pieces, with a separator between their texts. -/
theorem join_append (sep : Text) {first second : List Text} (nonempty : first ≠ [])
    (nonempty' : second ≠ []) :
    join sep (first ++ second) = join sep first ++ sep ++ join sep second := by
  induction first with
  | nil => contradiction
  | cons piece first ih =>
    cases first with
    | nil =>
      obtain ⟨next, rest, rfl⟩ := List.exists_cons_of_ne_nil nonempty'
      rfl
    | cons next rest =>
      have inner := ih (List.cons_ne_nil next rest)
      simp only [List.cons_append, join, List.append_assoc] at inner ⊢
      rw [inner]

theorem join_cons_ne_nil (sep : Text) {first : Text} (nonempty : first ≠ [])
    (pieces : List Text) : join sep (first :: pieces) ≠ [] := by
  cases pieces with
  | nil => exact nonempty
  | cons next pieces => simp [join, nonempty]

theorem join_nil (pieces : List Text) : join [] pieces = pieces.flatten := by
  fun_induction join [] pieces with
  | case1 => rfl
  | case2 piece => simp
  | case3 piece pieces _ ih => rw [ih, List.append_nil, List.flatten_cons]

/-- A piece stands behind those before it. -/
theorem flatten_take_append_isPrefix {pieces : List Text} {r : Nat} {piece : Text}
    (found : pieces[r]? = some piece) : (pieces.take r).flatten ++ piece <+: pieces.flatten := by
  refine ⟨(pieces.drop (r + 1)).flatten, ?_⟩
  conv => rhs; rw [← List.take_append_drop (r + 1) pieces]
  rw [List.take_add_one, found, List.flatten_append, List.flatten_append]
  simp

theorem join_cons_cons (sep first second : Text) (pieces : List Text) :
    join sep (first :: second :: pieces) = first ++ sep ++ join sep (second :: pieces) := rfl

/-- Pieces are read back from their text. -/
theorem splitOn_join {sep : UInt8} {pieces : List Text} (nonempty : pieces ≠ [])
    (absent : ∀ piece ∈ pieces, sep ∉ piece) : splitOn sep (join [sep] pieces) = pieces := by
  fun_induction join [sep] pieces with
  | case1 => contradiction
  | case2 piece => exact splitOn_eq_singleton (absent piece List.mem_cons_self)
  | case3 piece pieces more ih =>
    rw [List.forall_mem_cons] at absent
    rw [List.append_assoc, List.singleton_append, splitOn_append_cons,
      splitOn_eq_singleton absent.1, ih more absent.2]
    rfl

theorem join_splitOn (sep : UInt8) (text : Text) : join [sep] (splitOn sep text) = text := by
  induction text with
  | nil => rfl
  | cons b text ih =>
    obtain ⟨piece, pieces, split⟩ := exists_splitOn_eq_cons sep text
    rw [split] at ih
    by_cases same : b = sep
    · subst same
      rw [splitOn_cons_self, split, join_cons_cons, ih]
      rfl
    · rw [splitOn_cons_of_ne same split]
      cases pieces with
      | nil => exact congrArg (b :: ·) ih
      | cons next pieces =>
        rw [join_cons_cons] at ih ⊢
        exact congrArg (b :: ·) ih

/-- What is written behind a text goes on in its last piece. -/
theorem splitOn_append {sep : UInt8} {front back last : Text} {pieces : List Text}
    (split : splitOn sep front = pieces ++ [last]) (absent : sep ∉ back) :
    splitOn sep (front ++ back) = pieces ++ [last ++ back] := by
  have joined : join [sep] (pieces ++ [last ++ back]) = front ++ back := by
    rw [← join_splitOn sep front, split]
    cases pieces with
    | nil => rfl
    | cons first pieces =>
      rw [List.cons_append, List.cons_append, join_concat, join_concat, ← List.append_assoc]
  have undivided : ∀ piece ∈ pieces ++ [last], sep ∉ piece := by
    intro piece member
    rw [← split] at member
    exact notMem_of_mem_splitOn member
  rw [List.forall_mem_append, List.forall_mem_singleton] at undivided
  rw [← joined]
  apply splitOn_join (by simp)
  rw [List.forall_mem_append, List.forall_mem_singleton, List.mem_append, not_or]
  exact ⟨undivided.1, undivided.2, absent⟩

/-- A byte of joined pieces is one of the separator or of a piece. -/
theorem mem_join {b : UInt8} {sep : Text} {pieces : List Text}
    (member : b ∈ join sep pieces) : b ∈ sep ∨ ∃ piece ∈ pieces, b ∈ piece := by
  fun_induction join sep pieces with
  | case1 => simp at member
  | case2 piece => exact .inr ⟨piece, List.mem_singleton_self piece, member⟩
  | case3 piece pieces _ ih =>
    rw [List.mem_append, List.mem_append] at member
    rcases member with (inPiece | inSep) | inRest
    · exact .inr ⟨piece, List.mem_cons_self, inPiece⟩
    · exact .inl inSep
    · rcases ih inRest with inSep | ⟨other, among, inOther⟩
      · exact .inl inSep
      · exact .inr ⟨other, List.mem_cons_of_mem piece among, inOther⟩

theorem dropLead_suffix (text lead : Text) : dropLead text lead <:+ text := by
  unfold dropLead
  cases found : after? lead text with
  | none => exact List.suffix_refl text
  | some rest => exact ⟨lead, (after?_eq_some_iff.mp found).symm⟩

theorem dropTail_isPrefix (text tail : Text) : dropTail text tail <+: text := by
  unfold dropTail
  cases found : before? tail text with
  | none => exact List.prefix_rfl
  | some rest => exact ⟨tail, (before?_eq_some_iff.mp found).symm⟩

/-! ## Whole lines -/

/-- The text of some lines, each ended. -/
def ofLines (lines : List Text) : Text :=
  lines.flatMap fun line => line ++ [newline]

@[simp]
theorem ofLines_nil : ofLines [] = [] := rfl

theorem ofLines_cons (line : Text) (lines : List Text) :
    ofLines (line :: lines) = line ++ newline :: ofLines lines := by
  simp [ofLines]

theorem ofLines_append (first second : List Text) :
    ofLines (first ++ second) = ofLines first ++ ofLines second := by
  simp [ofLines]

/-- Lines are read back from their text, which ends in an empty line. -/
theorem splitOn_ofLines {lines : List Text} (oneLine : ∀ line ∈ lines, newline ∉ line) :
    splitOn newline (ofLines lines) = lines ++ [[]] := by
  induction lines with
  | nil => rfl
  | cons line lines ih =>
    rw [ofLines_cons, splitOn_append_cons, splitOn_eq_singleton (oneLine line List.mem_cons_self),
      ih fun other member => oneLine other (List.mem_cons_of_mem line member)]
    rfl

/-- The lines of a text that are ended. -/
def endedLines (text : Text) : List Text :=
  (splitOn newline text).dropLast

theorem endedLines_ofLines {lines : List Text} (oneLine : ∀ line ∈ lines, newline ∉ line) :
    endedLines (ofLines lines) = lines := by
  rw [endedLines, splitOn_ofLines oneLine, List.dropLast_concat]

/-- The lines of a text, each ended, are the text with its last line ended. -/
theorem ofLines_splitOn (text : Text) : ofLines (splitOn newline text) = text ++ [newline] := by
  induction text with
  | nil => rfl
  | cons b text ih =>
    by_cases same : b = newline
    · subst same
      rw [splitOn_cons_self, ofLines_cons, ih]
      rfl
    · obtain ⟨piece, pieces, split⟩ := exists_splitOn_eq_cons newline text
      rw [splitOn_cons_of_ne same split, ofLines_cons, List.cons_append, ← ofLines_cons, ← split, ih]
      rfl

/-- A text goes on in the line that was begun. -/
theorem append_ofLines_splitOn (front : Text) {text piece : Text} {pieces : List Text}
    (split : splitOn newline text = piece :: pieces) :
    front ++ text ++ [newline] = ofLines ((front ++ piece) :: pieces) := by
  rw [List.append_assoc, ← ofLines_splitOn, split, ofLines_cons, ofLines_cons, List.append_assoc]

/-- A piece of several that are joined by line ends stands behind those before it, each
ended. -/
theorem ofLines_take_append_prefix_join {pieces : List Text} {r : Nat} {piece : Text}
    (found : pieces[r]? = some piece) :
    ofLines (pieces.take r) ++ piece <+: join "\n" pieces := by
  induction pieces generalizing r with
  | nil => contradiction
  | cons first rest ih =>
    cases r with
    | zero =>
      cases found
      cases rest with
      | nil => exact List.prefix_rfl
      | cons next rest =>
        rw [join_cons_cons, List.append_assoc]
        exact List.prefix_append _ _
    | succ r =>
      cases rest with
      | nil => contradiction
      | cons next rest =>
        rw [join_cons_cons, List.take_succ_cons, ofLines_cons, List.append_assoc,
          List.append_assoc]
        exact (List.prefix_append_right_inj _).mpr ((List.prefix_append_right_inj [newline]).mpr
          (ih found))

/-! ## Starts of lines -/

/-- Behind `front`, a line starts. -/
def StartsLine (front : Text) : Prop :=
  front = [] ∨ front.getLast? = some newline

instance (front : Text) : Decidable (StartsLine front) :=
  inferInstanceAs (Decidable (_ ∨ _))

theorem StartsLine.append {front back : Text} (first : StartsLine front)
    (second : StartsLine back) : StartsLine (front ++ back) := by
  rcases second with rfl | ended
  · rwa [List.append_nil]
  · right
    rw [List.getLast?_append, ended, Option.some_or]

theorem startsLine_ofLines (lines : List Text) : StartsLine (ofLines lines) := by
  induction lines with
  | nil => exact .inl rfl
  | cons line lines ih =>
    have ended : StartsLine (line ++ [newline]) := .inr List.getLast?_concat
    rw [ofLines, List.flatMap_cons]
    exact ended.append ih

/-- What was written last decides whether a line starts. -/
theorem startsLine_append_iff {front back : Text} (given : back ≠ []) :
    StartsLine (front ++ back) ↔ StartsLine back := by
  obtain ⟨last, ended⟩ := Option.isSome_iff_exists.mp (List.getLast?_isSome.mpr given)
  simp [StartsLine, List.getLast?_append, ended, given]

theorem endsWith_newline_iff {text : Text} :
    endsWith text "\n" = true ↔ text.getLast? = some newline := by
  rw [endsWith, Option.isSome_iff_exists, List.getLast?_eq_some_iff]
  simp only [before?_eq_some_iff, ofString_newline]

/-! ## Margins -/

/-- Every line but the first starts with the margin. -/
def Hanging (margin : Text) : Text → Prop
  | [] => True
  | b :: rest => (b = newline → margin <+: rest) ∧ Hanging margin rest

variable {margin front back text : Text}

theorem hanging_of_notMem (oneLine : newline ∉ text) : Hanging margin text := by
  induction text with
  | nil => trivial
  | cons b rest ih =>
    rw [List.mem_cons, not_or] at oneLine
    exact ⟨fun ended => absurd ended.symm oneLine.1, ih oneLine.2⟩

theorem Hanging.append (first : Hanging margin front) (second : Hanging margin back) :
    Hanging margin (front ++ back) := by
  induction front with
  | nil => exact second
  | cons b front ih =>
    refine ⟨?_, ih first.2⟩
    intro ended
    exact (first.1 ended).trans (List.prefix_append front back)

theorem Hanging.of_append (hanging : Hanging margin (front ++ back)) : Hanging margin back := by
  induction front with
  | nil => exact hanging
  | cons b front ih => exact ih hanging.2

/-- Behind a line end stands the margin. -/
theorem Hanging.prefix_of_append (hanging : Hanging margin (front ++ newline :: back)) :
    margin <+: back :=
  hanging.of_append.1 rfl

theorem Hanging.newline_cons (start : margin <+: text) (hanging : Hanging margin text) :
    Hanging margin (newline :: text) :=
  ⟨fun _ => start, hanging⟩

/-- A margin at the start of a text is at the start of its first line. -/
theorem prefix_of_splitOn_eq_cons (oneLine : newline ∉ margin) (start : margin <+: text)
    {piece : Text} {pieces : List Text} (split : splitOn newline text = piece :: pieces) :
    margin <+: piece := by
  obtain ⟨rest, rfl⟩ := start
  induction margin generalizing piece pieces with
  | nil => exact List.nil_prefix
  | cons b margin ih =>
    rw [List.mem_cons, not_or] at oneLine
    obtain ⟨first, others, inner⟩ := exists_splitOn_eq_cons newline (margin ++ rest)
    rw [List.cons_append, splitOn_cons_of_ne (Ne.symm oneLine.1) inner] at split
    obtain ⟨rfl, rfl⟩ := List.cons.inj split
    exact (List.prefix_cons_inj b).mpr (ih oneLine.2 inner)

theorem Hanging.lines (hanging : Hanging margin text) (oneLine : newline ∉ margin) :
    ∀ line ∈ (splitOn newline text).tail, margin <+: line := by
  induction text with
  | nil => simp
  | cons b rest ih =>
    obtain ⟨piece, pieces, split⟩ := exists_splitOn_eq_cons newline rest
    have below := ih hanging.2
    rw [split] at below
    by_cases ended : b = newline
    · subst ended
      rw [splitOn_cons_self, split, List.tail_cons]
      intro line member
      rcases List.mem_cons.mp member with rfl | member
      · exact prefix_of_splitOn_eq_cons oneLine (hanging.1 rfl) split
      · exact below line member
    · rw [splitOn_cons_of_ne ended split]
      exact below

/-- Every line starts with the margin. -/
structure Behind (margin text : Text) : Prop where
  start : margin <+: text
  hanging : Hanging margin text

theorem Behind.lines (behind : Behind margin text) (oneLine : newline ∉ margin) :
    ∀ line ∈ splitOn newline text, margin <+: line := by
  obtain ⟨piece, pieces, split⟩ := exists_splitOn_eq_cons newline text
  have below := behind.hanging.lines oneLine
  rw [split] at below ⊢
  intro line member
  rcases List.mem_cons.mp member with rfl | member
  · exact prefix_of_splitOn_eq_cons oneLine behind.start split
  · exact below line member

theorem behind_join {pieces : List Text} (nonempty : pieces ≠ [])
    (start : ∀ piece ∈ pieces, margin <+: piece) (oneLine : ∀ piece ∈ pieces, newline ∉ piece) :
    Behind margin (join [newline] pieces) := by
  fun_induction join [newline] pieces with
  | case1 => contradiction
  | case2 piece =>
    exact ⟨start piece List.mem_cons_self, hanging_of_notMem (oneLine piece List.mem_cons_self)⟩
  | case3 piece pieces more ih =>
    have rest := ih more (fun other member => start other (List.mem_cons_of_mem piece member))
      fun other member => oneLine other (List.mem_cons_of_mem piece member)
    rw [List.append_assoc]
    constructor
    · exact (start piece List.mem_cons_self).trans (List.prefix_append piece _)
    · exact (hanging_of_notMem (oneLine piece List.mem_cons_self)).append
        (.newline_cons rest.start rest.hanging)

end Protoclass.Text
