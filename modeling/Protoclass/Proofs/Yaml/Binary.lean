import Protoclass.Proofs.Text.Base64
import Protoclass.Proofs.Yaml.Styles

/-!
# Bytes as scalars

Bytes that are not UTF-8 are written in base 64: in one line as a plain scalar, or
in several as a block of lines (`styled_binaryText`).  The line breaks among the
digits are left out of account when they are read (`decode?_binaryText`).
-/

namespace Protoclass.Yaml

open Text (ofChars chars?)
open Text.Base64 (IsDigit encode decode?)

/-- Digits are ASCII characters that end neither a line nor a plain scalar. -/
theorem digitChar_spec {b : UInt8} (digit : IsDigit b) :
    String.utf8EncodeChar (digitChar b) = [b] ∧ isSpace (digitChar b) = false
      ∧ Scan.isIndicator (digitChar b) = false ∧ b ≠ 10 ∧ b ≠ 13
      ∧ isAllowed (digitChar b) = true := by
  have all : ∀ n : Fin 256,
      ((Text.Base64.value? (UInt8.ofNat n)).isSome ∨ UInt8.ofNat n = 61) →
        String.utf8EncodeChar (digitChar (UInt8.ofNat n)) = [UInt8.ofNat n]
          ∧ isSpace (digitChar (UInt8.ofNat n)) = false
          ∧ Scan.isIndicator (digitChar (UInt8.ofNat n)) = false ∧ UInt8.ofNat n ≠ 10
          ∧ UInt8.ofNat n ≠ 13 ∧ isAllowed (digitChar (UInt8.ofNat n)) = true := by
    decide +kernel
  have byte := all ⟨b.toNat, b.toNat_lt⟩
  simp only [UInt8.ofNat_toNat] at byte
  exact byte digit

theorem ofChars_map_digitChar {bytes : List UInt8} (areDigits : ∀ b ∈ bytes, IsDigit b) :
    ofChars (bytes.map digitChar) = bytes := by
  induction bytes with
  | nil => rfl
  | cons b bytes ih =>
    rw [List.map_cons, ofChars, List.flatMap_cons, ← ofChars,
      (digitChar_spec (areDigits b List.mem_cons_self)).1,
      ih fun d mem => areDigits d (List.mem_cons_of_mem b mem)]
    rfl

theorem filter_digits {bytes : List UInt8} (areDigits : ∀ b ∈ bytes, IsDigit b) :
    (bytes.filter fun b => b != 10 && b != 13) = bytes := by
  rw [List.filter_eq_self]
  intro b mem
  rcases digitChar_spec (areDigits b mem) with ⟨-, -, -, newline, carriage, -⟩
  simp [newline, carriage]

/-- Lines of digits without their line breaks are the digits. -/
theorem filter_ofChars_wrapped {limit : Nat} {bytes : List UInt8} (enough : bytes.length ≤ limit)
    (areDigits : ∀ b ∈ bytes, IsDigit b) :
    ((ofChars (wrapped limit (bytes.map digitChar))).filter fun b => b != 10 && b != 13)
      = bytes := by
  induction limit generalizing bytes with
  | zero =>
    rw [List.length_eq_zero_iff.mp (Nat.le_zero.mp enough)]
    rfl
  | succ limit ih =>
    cases bytes with
    | nil => rfl
    | cons b bytes =>
      have first : ∀ d ∈ (b :: bytes).take 70, IsDigit d :=
        fun d mem => areDigits d (List.mem_of_mem_take mem)
      have later : ∀ d ∈ (b :: bytes).drop 70, IsDigit d :=
        fun d mem => areDigits d (List.mem_of_mem_drop mem)
      have fewer : ((b :: bytes).drop 70).length ≤ limit := by
        rw [List.length_drop]
        omega
      have line : ofChars ('\n' :: wrapped limit (((b :: bytes).drop 70).map digitChar))
          = 10 :: ofChars (wrapped limit (((b :: bytes).drop 70).map digitChar)) := rfl
      rw [wrapped, if_neg (by simp), ← List.map_take, ← List.map_drop, Text.ofChars_append,
        ofChars_map_digitChar first, line, List.filter_append, filter_digits first,
        List.filter_cons_of_neg (by decide), ih fewer later, List.take_append_drop]

/-- The digits of bytes, in lines or not, are read as the bytes. -/
theorem decode?_binaryText (bytes : Text) : decode? (ofChars (binaryText bytes)) = some bytes := by
  have areDigits : ∀ b ∈ encode bytes, IsDigit b := fun b mem => .of_mem_encode mem
  apply Text.Base64.decode?_of_filter
  unfold binaryText
  split
  · rw [digits, ofChars_map_digitChar areDigits, filter_digits areDigits]
  · exact filter_ofChars_wrapped (by simp [digits]) areDigits

/-! ## The style -/

theorem mem_wrapped {limit : Nat} {digits : List Char} {c : Char} (mem : c ∈ wrapped limit digits) :
    c ∈ digits ∨ c = '\n' := by
  induction limit generalizing digits with
  | zero => cases mem
  | succ limit ih =>
    rw [wrapped] at mem
    split at mem
    · cases mem
    · rw [List.mem_append, List.mem_cons] at mem
      rcases mem with mem | newline | mem
      · exact .inl (List.mem_of_mem_take mem)
      · exact .inr newline
      · exact (ih mem).imp_left List.mem_of_mem_drop

theorem head?_wrapped {limit : Nat} {digits : List Char} (enough : digits.length ≤ limit) :
    (wrapped limit digits).head? = digits.head? := by
  cases limit with
  | zero =>
    rw [List.length_eq_zero_iff.mp (Nat.le_zero.mp enough)]
    rfl
  | succ limit =>
    cases digits with
    | nil => rfl
    | cons c digits => rfl

theorem newline_mem_wrapped {limit : Nat} {digits : List Char} (enough : digits.length ≤ limit)
    (nonempty : digits ≠ []) : '\n' ∈ wrapped limit digits := by
  cases limit with
  | zero => exact absurd (List.length_eq_zero_iff.mp (Nat.le_zero.mp enough)) nonempty
  | succ limit =>
    rw [wrapped, if_neg (by simpa using nonempty)]
    simp

theorem isSpace_of_mem_digits {bytes : Text} {c : Char} (mem : c ∈ digits bytes) :
    isSpace c = false := by
  rcases List.mem_map.mp mem with ⟨b, isDigit, rfl⟩
  exact (digitChar_spec (.of_mem_encode isDigit)).2.1

theorem isIndicator_of_mem_digits {bytes : Text} {c : Char} (mem : c ∈ digits bytes) :
    Scan.isIndicator c = false := by
  rcases List.mem_map.mp mem with ⟨b, isDigit, rfl⟩
  exact (digitChar_spec (.of_mem_encode isDigit)).2.2.1

theorem digits_ne_nil {bytes : Text} (nonempty : bytes ≠ []) : digits bytes ≠ [] := by
  intro empty
  have decoded := Text.Base64.decodeLine?_encode bytes
  rw [List.map_eq_nil_iff.mp empty] at decoded
  exact nonempty (Option.some.inj decoded).symm

theorem plainWord_digits {bytes : Text} (nonempty : bytes ≠ []) : PlainWord (digits bytes) := by
  constructor
  · exact digits_ne_nil nonempty
  · intro c mem
    exact isSpace_of_mem_digits mem
  · intro head
    have indicator := isIndicator_of_mem_digits (List.mem_of_mem_head? head)
    simp [Scan.isIndicator] at indicator
  · intro last
    have indicator := isIndicator_of_mem_digits (List.mem_of_getLast? last)
    simp [Scan.isIndicator] at indicator

/-- The digits of bytes can be written in the style that is chosen for them, and
they do not start with a space or a line end. -/
theorem styled_binaryText {bytes : Text} (nonempty : bytes ≠ []) :
    Styled (binaryText bytes) (binaryStyle (binaryText bytes))
      ∧ ∀ c ∈ (binaryText bytes).head?, isSpace c = false := by
  unfold binaryText
  split
  · have noNewline : '\n' ∉ digits bytes := by
      intro mem
      have space := isSpace_of_mem_digits mem
      simp [isSpace, isBreak] at space
    constructor
    · rw [binaryStyle, if_neg (by simpa using noNewline)]
      rcases List.exists_cons_of_ne_nil (digits_ne_nil nonempty) with ⟨c, rest, start⟩
      have mem : c ∈ digits bytes := by
        rw [start]
        exact List.mem_cons_self
      apply Styled.plain start (.word (plainWord_digits nonempty))
      intro tail
      constructor
      · exact isSpace_of_mem_digits mem
      · intro indicator
        rw [isIndicator_of_mem_digits mem] at indicator
        cases indicator
    · intro c mem
      exact isSpace_of_mem_digits (List.mem_of_mem_head? mem)
  · have newline := newline_mem_wrapped (Nat.le_refl _) (digits_ne_nil nonempty)
    constructor
    · rw [binaryStyle, if_pos (by simpa using newline)]
      apply Styled.literal (List.ne_nil_of_mem newline)
      intro c mem broken
      rcases mem_wrapped mem with digit | newline
      · rw [isBreak_of_isSpace (isSpace_of_mem_digits digit)] at broken
        cases broken
      · exact .inl newline
    · intro c mem
      rw [head?_wrapped (Nat.le_refl _)] at mem
      exact isSpace_of_mem_digits (List.mem_of_mem_head? mem)

end Protoclass.Yaml
