import Protoclass.Text.Blank

/-!
# Trimming

What trimming takes away is made of the bytes of blanks, and a text between two
other bytes stays as it is.  A text is trimmed from the back by its bytes from last
to first, so both ends are cases of one function on lists of bytes.
-/

namespace Protoclass.Text

/-- A byte of a blank: an ASCII blank, or a byte from outside ASCII. -/
def IsBlankByte (b : UInt8) : Prop :=
  isAsciiBlank b = true ∨ 128 ≤ b

instance (b : UInt8) : Decidable (IsBlankByte b) :=
  inferInstanceAs (Decidable (_ ∨ _))

theorem isBlankByte_of_isBlankPair {a b : UInt8} (pair : isBlankPair a b = true) :
    IsBlankByte a ∧ IsBlankByte b := by
  unfold isBlankPair at pair
  unfold IsBlankByte
  grind

theorem isBlankByte_of_isBlankTriple {a b c : UInt8} (triple : isBlankTriple a b c = true) :
    IsBlankByte a ∧ IsBlankByte b ∧ IsBlankByte c := by
  unfold isBlankTriple at triple
  unfold IsBlankByte
  grind

/-! ## Both ends at once -/

/-- The longer blanks at one end: those of two and those of three bytes, in the
order in which they are read there. -/
structure LongBlanks where
  pair : UInt8 → UInt8 → Bool
  triple : UInt8 → UInt8 → UInt8 → Bool
  pair_sound : ∀ {a b}, pair a b = true → IsBlankByte a ∧ IsBlankByte b
  triple_sound : ∀ {a b c}, triple a b c = true → IsBlankByte a ∧ IsBlankByte b ∧ IsBlankByte c

/-- The bytes read from one end without the blanks that come first. -/
def trimFrom (long : LongBlanks) : Text → Text
  | [] => []
  | a :: rest =>
    if isAsciiBlank a then trimFrom long rest
    else
      match rest with
      | [] => [a]
      | b :: rest₁ =>
        if long.pair a b then trimFrom long rest₁
        else
          match rest₁ with
          | [] => [a, b]
          | c :: rest₂ =>
            if long.triple a b c then trimFrom long rest₂
            else a :: b :: c :: rest₂

/-- The longer blanks as they are read from the front. -/
def LongBlanks.forward : LongBlanks where
  pair := isBlankPair
  triple := isBlankTriple
  pair_sound := isBlankByte_of_isBlankPair
  triple_sound := isBlankByte_of_isBlankTriple

/-- The longer blanks as they are read from the back. -/
def LongBlanks.backward : LongBlanks where
  pair a b := isBlankPair b a
  triple a b c := isBlankTriple c b a
  pair_sound found := (isBlankByte_of_isBlankPair found).symm
  triple_sound found :=
    let ⟨third, second, first⟩ := isBlankByte_of_isBlankTriple found
    ⟨first, second, third⟩

theorem trimLeft_eq_trimFrom (text : Text) : trimLeft text = trimFrom .forward text := by
  fun_induction trimLeft text <;> rw [trimFrom.eq_def] <;> simp_all [LongBlanks.forward]

theorem trimReversed_eq_trimFrom (text : Text) : trimReversed text = trimFrom .backward text := by
  fun_induction trimReversed text <;> rw [trimFrom.eq_def] <;> simp_all [LongBlanks.backward]

section

variable (long : LongBlanks)

theorem exists_append_trimFrom (text : Text) :
    ∃ front, front ++ trimFrom long text = text ∧ ∀ b ∈ front, IsBlankByte b := by
  fun_induction trimFrom long text with
  | case2 a rest blank ih =>
    obtain ⟨front, split, blanks⟩ := ih
    refine ⟨a :: front, by rw [List.cons_append, split], ?_⟩
    rw [List.forall_mem_cons]
    exact ⟨.inl blank, blanks⟩
  | case4 a _ b rest found ih =>
    obtain ⟨front, split, blanks⟩ := ih
    obtain ⟨first, second⟩ := long.pair_sound found
    refine ⟨a :: b :: front, by rw [List.cons_append, List.cons_append, split], ?_⟩
    rw [List.forall_mem_cons, List.forall_mem_cons]
    exact ⟨first, second, blanks⟩
  | case6 a _ b _ c rest found ih =>
    obtain ⟨front, split, blanks⟩ := ih
    obtain ⟨first, second, third⟩ := long.triple_sound found
    refine ⟨a :: b :: c :: front, by simp only [List.cons_append, split], ?_⟩
    simp only [List.forall_mem_cons]
    exact ⟨first, second, third, blanks⟩
  | case1 | case3 | case5 | case7 => exact ⟨[], rfl, by simp⟩

theorem trimFrom_append {front : Text} (blanks : ∀ b ∈ front, isAsciiBlank b = true)
    (text : Text) : trimFrom long (front ++ text) = trimFrom long text := by
  induction front with
  | nil => rfl
  | cons b front ih =>
    rw [List.forall_mem_cons] at blanks
    rw [List.cons_append, trimFrom.eq_def]
    simp only [blanks.1, if_true]
    exact ih blanks.2

theorem trimFrom_cons {b : UInt8} (shown : ¬IsBlankByte b) (rest : Text) :
    trimFrom long (b :: rest) = b :: rest := by
  have plain : isAsciiBlank b = false := by simpa using mt Or.inl shown
  have single : ∀ c, long.pair b c = false := fun c =>
    Bool.eq_false_iff.mpr fun found => shown (long.pair_sound found).1
  have other : ∀ c d, long.triple b c d = false := fun c d =>
    Bool.eq_false_iff.mpr fun found => shown (long.triple_sound found).1
  rcases rest with _ | ⟨c, _ | ⟨d, rest⟩⟩ <;> simp [trimFrom, plain, single, other]

theorem trimFrom_trimFrom (text : Text) :
    trimFrom long (trimFrom long text) = trimFrom long text := by
  fun_induction trimFrom long text with
  | case1 => rfl
  | case2 | case4 | case6 => assumption
  | case3 | case5 | case7 => simp_all [trimFrom]

end

/-! ## Trimmed texts -/

theorem exists_append_trimLeft (text : Text) :
    ∃ front, front ++ trimLeft text = text ∧ ∀ b ∈ front, IsBlankByte b := by
  rw [trimLeft_eq_trimFrom]
  exact exists_append_trimFrom .forward text

theorem isBlank_eq_false_of_mem {text : Text} {b : UInt8} (member : b ∈ text)
    (shown : ¬IsBlankByte b) : isBlank text = false := by
  rw [isBlank, List.isEmpty_eq_false_iff]
  intro nothing
  obtain ⟨front, split, blanks⟩ := exists_append_trimLeft text
  rw [nothing, List.append_nil] at split
  exact shown (blanks b (split ▸ member))

theorem exists_trimRight_append (text : Text) :
    ∃ back, trimRight text ++ back = text ∧ ∀ b ∈ back, IsBlankByte b := by
  obtain ⟨front, split, blanks⟩ := exists_append_trimFrom .backward text.reverse
  refine ⟨front.reverse, ?_, by simpa using blanks⟩
  rw [trimRight, trimReversed_eq_trimFrom, ← List.reverse_append, split, List.reverse_reverse]

/-- A text is its trimmed text with bytes of blanks around it. -/
theorem exists_append_trim_append (text : Text) :
    ∃ front back, front ++ trim text ++ back = text ∧
      (∀ b ∈ front, IsBlankByte b) ∧ ∀ b ∈ back, IsBlankByte b := by
  obtain ⟨front, split, blanks⟩ := exists_append_trimLeft text
  obtain ⟨back, split', blanks'⟩ := exists_trimRight_append (trimLeft text)
  refine ⟨front, back, ?_, blanks, blanks'⟩
  rw [List.append_assoc, trim, split', split]

theorem trim_trimLeft (text : Text) : trim (trimLeft text) = trim text := by
  simp only [trim, trimLeft_eq_trimFrom, trimFrom_trimFrom]

/-- Trimming leaves what stands between ASCII blanks, when its first and its last
byte are of no blank. -/
theorem trim_append_append {front back inner : Text} {first last : UInt8}
    (blanks : ∀ b ∈ front, isAsciiBlank b = true) (blanks' : ∀ b ∈ back, isAsciiBlank b = true)
    (shown : ¬IsBlankByte first) (shown' : ¬IsBlankByte last) :
    trim (front ++ (first :: inner ++ [last]) ++ back) = first :: inner ++ [last] := by
  have ahead : trimLeft (front ++ (first :: inner ++ [last]) ++ back) =
      first :: inner ++ [last] ++ back := by
    rw [List.append_assoc, trimLeft_eq_trimFrom, trimFrom_append _ blanks, List.cons_append,
      List.cons_append, trimFrom_cons _ shown]
  rw [trim, ahead, trimRight, trimReversed_eq_trimFrom, List.reverse_append,
    trimFrom_append _ (by simpa using blanks'), List.reverse_append, List.reverse_singleton,
    List.singleton_append, trimFrom_cons _ shown', List.reverse_cons, List.reverse_reverse]

end Protoclass.Text
