import Mathlib.Tactic.Ring
import Protoclass.Wire.Varint

/-!
# The form of a variable-length integer

`Groups n bytes` says that the bytes are groups of seven bits for `n`, lowest
first, each but the last marked.  `IsVarint` adds the two bounds: ten bytes, and
64 bits.  A number may be written with more groups than it needs.

The reader takes exactly such bytes from the front of a text, and what is
written for a number below 2^64 is one way to write it.
-/

namespace Protoclass.Wire

/-- Bytes are groups of seven bits for a number, lowest first. -/
inductive Groups : Nat → Text → Prop where
  | last {b : UInt8} (unmarked : b < 0x80) : Groups b.toNat [b]
  | more {b : UInt8} {high : Nat} {bytes : Text} (marked : ¬ b < 0x80) (rest : Groups high bytes) :
    Groups (b.toNat % 128 + 128 * high) (b :: bytes)

/-- Bytes are a way to write a number of 64 bits. -/
structure IsVarint (n : Nat) (bytes : Text) : Prop where
  groups : Groups n bytes
  length_le : bytes.length ≤ 10
  lt : n < 2 ^ 64

theorem Groups.ne_nil {n : Nat} {bytes : Text} (groups : Groups n bytes) : bytes ≠ [] := by
  cases groups <;> simp

theorem IsVarint.length_pos {n : Nat} {bytes : Text} (written : IsVarint n bytes) :
    0 < bytes.length :=
  List.length_pos_iff.mpr written.groups.ne_nil

/-! ## Reading -/

/-- The last group that fits from the group `place` on: seven bits, or one in the
tenth group. -/
theorem last_fits_iff {place : Nat} {b : UInt8} (unmarked : b < 0x80) :
    (place < 9 ∨ (place = 9 ∧ b ≤ 1)) ↔ place + 1 ≤ 10 ∧ b.toNat * 128 ^ place < 2 ^ 64 := by
  have small : b.toNat < 128 := unmarked
  constructor
  · rintro (early | ⟨rfl, bit⟩)
    · have power : 128 ^ place ≤ 128 ^ 8 := Nat.pow_le_pow_right (by decide) (by omega)
      have product : b.toNat * 128 ^ place ≤ 127 * 128 ^ 8 := Nat.mul_le_mul (by omega) power
      exact ⟨by omega, by omega⟩
    · have bit : b.toNat ≤ 1 := bit
      exact ⟨by decide, by omega⟩
  · rintro ⟨short, fits⟩
    rcases Nat.lt_or_ge place 9 with early | late
    · exact .inl early
    · have tenth : place = 9 := by omega
      subst tenth
      exact .inr ⟨rfl, show b.toNat ≤ 1 by omega⟩

/-- A group before the last takes nothing from what fits in the groups after
it. -/
theorem more_fits_iff {place low high : Nat} (early : place < 9) (seven : low < 128) :
    (low + 128 * high) * 128 ^ place < 2 ^ 64 ↔ high * 128 ^ (place + 1) < 2 ^ 64 := by
  have split : (low + 128 * high) * 128 ^ place = low * 128 ^ place + high * 128 ^ (place + 1) := by
    ring
  constructor
  · intro fits
    omega
  · intro fits
    -- 2^64 is a multiple of the weight of the next group, so there is room for all of this one.
    have room : (high + 1) * 128 ^ (place + 1) ≤ 2 ^ 64 := by
      have multiple : 2 ^ 64 = 2 ^ (64 - 7 * (place + 1)) * 128 ^ (place + 1) := by
        rw [show 128 = 2 ^ 7 from rfl, ← Nat.pow_mul, ← Nat.pow_add]
        congr 1
        omega
      rw [multiple] at fits ⊢
      exact Nat.mul_le_mul_right _ (Nat.lt_of_mul_lt_mul_right fits)
    have below : low * 128 ^ place < 128 ^ (place + 1) := by
      rw [Nat.pow_succ, Nat.mul_comm _ 128]
      exact Nat.mul_lt_mul_of_pos_right seven (Nat.pow_pos (by decide))
    rw [split]
    rw [Nat.add_mul, Nat.one_mul] at room
    omega

/-- From the group `place` on, the reader takes the groups that still fit. -/
theorem readVarintFrom_eq_some_iff {place n : Nat} {bytes rest : Text} :
    readVarintFrom place bytes = some (n, rest) ↔
      ∃ front, bytes = front ++ rest ∧ Groups n front ∧ place + front.length ≤ 10
        ∧ n * 128 ^ place < 2 ^ 64 := by
  induction bytes generalizing place n with
  | nil =>
    simp only [readVarintFrom, reduceCtorEq, false_iff]
    rintro ⟨front, same, groups, -⟩
    exact groups.ne_nil (List.append_eq_nil_iff.mp same.symm).1
  | cons b bytes ih =>
    constructor
    · intro read
      unfold readVarintFrom at read
      split at read
      next unmarked =>
        split at read
        next fits =>
          cases read
          rcases (last_fits_iff unmarked).mp fits with ⟨short, fits⟩
          exact ⟨[b], rfl, .last unmarked, short, fits⟩
        next => contradiction
      next marked =>
        split at read
        next early =>
          split at read
          next high rest' more =>
            cases read
            rcases ih.mp more with ⟨front, rfl, groups, short, fits⟩
            have seven : b.toNat % 128 < 128 := Nat.mod_lt _ (by decide)
            refine ⟨b :: front, rfl, .more marked groups, ?_, (more_fits_iff early seven).mpr fits⟩
            rw [List.length_cons]
            omega
          next => contradiction
        next => contradiction
    · rintro ⟨front, same, groups, short, fits⟩
      cases groups with
      | last unmarked =>
        rcases List.cons_eq_cons.mp same with ⟨rfl, rfl⟩
        rw [readVarintFrom, if_pos unmarked, if_pos ((last_fits_iff unmarked).mpr ⟨short, fits⟩)]
      | @more b high front marked groups =>
        rw [List.cons_append] at same
        rcases List.cons_eq_cons.mp same with ⟨rfl, rfl⟩
        have more : 0 < front.length := List.length_pos_iff.mpr groups.ne_nil
        rw [List.length_cons] at short
        have early : place < 9 := by omega
        have seven : b.toNat % 128 < 128 := Nat.mod_lt _ (by decide)
        have inner : readVarintFrom (place + 1) (front ++ rest) = some (high, rest) :=
          ih.mpr ⟨front, rfl, groups, by omega, (more_fits_iff early seven).mp fits⟩
        rw [readVarintFrom, if_neg marked, if_pos early, inner]

/-- The reader takes exactly the bytes of one number from the front of a text. -/
theorem readVarint_eq_some_iff {n : Nat} {bytes rest : Text} :
    readVarint bytes = some (n, rest) ↔ ∃ front, bytes = front ++ rest ∧ IsVarint n front := by
  rw [readVarint, readVarintFrom_eq_some_iff]
  constructor
  · rintro ⟨front, same, groups, short, fits⟩
    exact ⟨front, same, groups, by omega, by omega⟩
  · rintro ⟨front, same, groups, short, fits⟩
    exact ⟨front, same, groups, by omega, by omega⟩

theorem IsVarint.read {n : Nat} {front : Text} (written : IsVarint n front) (rest : Text) :
    readVarint (front ++ rest) = some (n, rest) :=
  readVarint_eq_some_iff.mpr ⟨front, rfl, written⟩

/-- Bytes are ways to write numbers, one after another. -/
inductive AreVarints : List Nat → Text → Prop where
  | nil : AreVarints [] []
  | cons {n : Nat} {numbers : List Nat} {front rest : Text} (first : IsVarint n front)
    (others : AreVarints numbers rest) : AreVarints (n :: numbers) (front ++ rest)

theorem readVarints_eq_some_iff {fuel : Nat} {numbers : List Nat} {bytes : Text}
    (enough : bytes.length ≤ fuel) :
    readVarints fuel bytes = some numbers ↔ AreVarints numbers bytes := by
  constructor
  · intro read
    induction fuel generalizing bytes numbers with
    | zero =>
      cases List.length_eq_zero_iff.mp (Nat.le_zero.mp enough)
      cases read
      exact .nil
    | succ fuel ih =>
      cases bytes with
      | nil =>
        cases read
        exact .nil
      | cons b bytes =>
        unfold readVarints at read
        split at read
        next n rest first =>
          rcases readVarint_eq_some_iff.mp first with ⟨front, same, written⟩
          rcases Option.map_eq_some_iff.mp read with ⟨others, more, rfl⟩
          have positive := written.length_pos
          have total := congrArg List.length same
          rw [List.length_append] at total
          rw [same]
          exact .cons written (ih (by omega) more)
        next => contradiction
  · intro written
    induction written generalizing fuel with
    | nil => cases fuel <;> rfl
    | @cons n numbers front rest first others ih =>
      have positive := first.length_pos
      rw [List.length_append] at enough
      cases fuel with
      | zero => omega
      | succ fuel =>
        rw [readVarints, first.read]
        · simp only [ih (show rest.length ≤ fuel by omega), Option.map_some]
        · intro empty
          exact first.groups.ne_nil (List.append_eq_nil_iff.mp empty).1

/-! ## Writing -/

theorem toNat_byte {n : Nat} (byte : n < 256) : (UInt8.ofNat n).toNat = n :=
  UInt8.toNat_ofNat_of_lt' byte

theorem groups_singleton {n : Nat} (small : n < 128) : Groups n [UInt8.ofNat n] := by
  have byte : (UInt8.ofNat n).toNat = n := toNat_byte (by omega)
  have unmarked : UInt8.ofNat n < 0x80 := show (UInt8.ofNat n).toNat < 128 by omega
  have groups := Groups.last unmarked
  rwa [byte] at groups

theorem groups_varintGroups {more n : Nat} (fits : n < 128 ^ (more + 1)) :
    Groups n (varintGroups more n) := by
  induction more generalizing n with
  | zero => exact groups_singleton (by omega)
  | succ more ih =>
    unfold varintGroups
    split
    next small => exact groups_singleton small
    next large =>
      have byte : (UInt8.ofNat (n % 128 + 128)).toNat = n % 128 + 128 := toNat_byte (by omega)
      have marked : ¬ UInt8.ofNat (n % 128 + 128) < 0x80 :=
        show ¬ (UInt8.ofNat (n % 128 + 128)).toNat < 128 by omega
      have quotient : n / 128 < 128 ^ (more + 1) := by
        apply Nat.div_lt_of_lt_mul
        rwa [Nat.mul_comm, ← Nat.pow_succ]
      have all := Groups.more marked (ih quotient)
      rwa [byte, show (n % 128 + 128) % 128 + 128 * (n / 128) = n by omega] at all

theorem length_varintGroups_le (more n : Nat) : (varintGroups more n).length ≤ more + 1 := by
  induction more generalizing n with
  | zero => exact Nat.le_refl 1
  | succ more ih =>
    unfold varintGroups
    split
    next => simp
    next =>
      have shorter := ih (n / 128)
      rw [List.length_cons]
      omega

theorem length_varint_le (n : Nat) : (varint n).length ≤ 10 :=
  length_varintGroups_le 9 n

theorem isVarint_varint {n : Nat} (fits : n < 2 ^ 64) : IsVarint n (varint n) :=
  ⟨groups_varintGroups (by omega), length_varint_le n, fits⟩

theorem areVarints_flatMap_varint {numbers : List Nat} (fit : ∀ n ∈ numbers, n < 2 ^ 64) :
    AreVarints numbers (numbers.flatMap varint) := by
  induction numbers with
  | nil => exact .nil
  | cons n numbers ih =>
    rw [List.flatMap_cons]
    apply AreVarints.cons
    · exact isVarint_varint (fit n List.mem_cons_self)
    · exact ih fun m member => fit m (List.mem_cons_of_mem n member)

end Protoclass.Wire
