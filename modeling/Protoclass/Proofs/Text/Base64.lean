import Protoclass.Proofs.Text.Utf8
import Protoclass.Text.Base64

/-!
# Base 64 can be read back

The digits for bytes are read as these bytes, also with line breaks among the
digits (`decode?_of_filter`).  Each digit is a letter, a number, or one of `+`,
`/` and `=` (`IsDigit.of_mem_encode`).
-/

namespace Protoclass.Text.Base64

/-! ## Digits -/

theorem value?_digit {value : Nat} (small : value < 64) : value? (digit value) = some value := by
  have all : ∀ v : Fin 64, value? (digit v) = some v.val := by decide
  exact all ⟨value, small⟩

theorem digit_ne_fill {value : Nat} (small : value < 64) : digit value ≠ 61 := by
  have all : ∀ v : Fin 64, digit v ≠ 61 := by decide
  exact all ⟨value, small⟩

/-- A byte that stands in base 64: a digit, or the fill. -/
def IsDigit (b : UInt8) : Prop := (value? b).isSome ∨ b = 61

theorem IsDigit.digit {value : Nat} (small : value < 64) : IsDigit (digit value) := by
  left
  rw [value?_digit small]
  rfl

theorem IsDigit.of_mem_encode {bytes : Text} {b : UInt8} (mem : b ∈ encode bytes) : IsDigit b := by
  fun_induction encode bytes with
  | case1 x y z rest n ih =>
    have size : n < 16777216 := by
      have := x.toNat_lt
      have := y.toNat_lt
      have := z.toNat_lt
      omega
    simp only [List.mem_cons] at mem
    rcases mem with rfl | rfl | rfl | rfl | mem
    · exact .digit (by omega)
    · exact .digit (by omega)
    · exact .digit (by omega)
    · exact .digit (by omega)
    · exact ih mem
  | case2 x y n =>
    have size : n < 16777216 := by
      have := x.toNat_lt
      have := y.toNat_lt
      omega
    simp only [List.mem_cons, List.not_mem_nil, or_false] at mem
    rcases mem with rfl | rfl | rfl | rfl
    · exact .digit (by omega)
    · exact .digit (by omega)
    · exact .digit (by omega)
    · exact .inr rfl
  | case3 x n =>
    have size : n < 16777216 := by
      have := x.toNat_lt
      omega
    simp only [List.mem_cons, List.not_mem_nil, or_false] at mem
    rcases mem with rfl | rfl | rfl | rfl
    · exact .digit (by omega)
    · exact .digit (by omega)
    · exact .inr rfl
    · exact .inr rfl
  | case4 => simp at mem

/-! ## Reading -/

/-- Four digits, of which the last is no fill, are three bytes. -/
theorem decodeLine?_four {a b c d : UInt8} {rest : Text} (full : d ≠ 61) :
    decodeLine? (a :: b :: c :: d :: rest) = do
      let n := (← value? a) * 262144 + (← value? b) * 4096 + (← value? c) * 64 + (← value? d)
      return UInt8.ofNat (n / 65536) :: UInt8.ofNat (n / 256) :: UInt8.ofNat n
        :: (← decodeLine? rest) := by
  rw [decodeLine?]
  · simp [full]
  · simp [full]

/-- The digits of bytes are read as the bytes. -/
theorem decodeLine?_encode (bytes : Text) : decodeLine? (encode bytes) = some bytes := by
  fun_induction encode bytes with
  | case1 a b c rest n ih =>
    have := a.toNat_lt
    have := b.toNat_lt
    have := c.toNat_lt
    rw [decodeLine?_four (digit_ne_fill (by omega)), value?_digit (by omega),
      value?_digit (by omega), value?_digit (by omega), value?_digit (by omega), ih]
    simp only [Option.bind_eq_bind, Option.bind_some, Option.pure_def, Option.some.injEq,
      List.cons.injEq, ofNat_eq_iff, and_true]
    omega
  | case2 a b n =>
    have := a.toNat_lt
    have := b.toNat_lt
    have third : digit (n / 64 % 64) ≠ 61 := digit_ne_fill (by omega)
    rw [decodeLine?, value?_digit (by omega), value?_digit (by omega), value?_digit (by omega)]
    · simp only [Option.bind_eq_bind, Option.bind_some, Option.pure_def, Option.some.injEq,
        List.cons.injEq, ofNat_eq_iff, and_true]
      omega
    · simp [third]
  | case3 a n =>
    have := a.toNat_lt
    rw [decodeLine?, value?_digit (by omega), value?_digit (by omega)]
    simp only [Option.bind_eq_bind, Option.bind_some, Option.pure_def, Option.some.injEq,
      List.cons.injEq, ofNat_eq_iff, and_true]
    omega
  | case4 => rfl

/-- Digits are read as the bytes that they were written for, whatever line breaks
stand among them. -/
theorem decode?_of_filter {text bytes : Text}
    (digits : (text.filter fun b => b != 10 && b != 13) = encode bytes) :
    decode? text = some bytes := by
  rw [decode?, digits, decodeLine?_encode]

end Protoclass.Text.Base64
