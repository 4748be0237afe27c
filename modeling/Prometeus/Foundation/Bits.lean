import Mathlib.Algebra.Ring.Nat
import Mathlib.Data.List.Induction
import Mathlib.Tactic.Common
import Mathlib.Tactic.Ring

/-! # Numbers as lists of bits

The bits of a number, the most significant first, and the sum of the bytes that a list of
bits makes up. The sum tells apart lists that differ in a single bit, modulo 256.
-/

namespace Bits

/-- The number with the given bits. -/
def value (bits : List Bool) : ℕ := bits.foldl (fun n bit => 2 * n + bit.toNat) 0

/-- The last `k` bits of a number. -/
def ofNat : ℕ → ℕ → List Bool
  | 0, _ => []
  | k + 1, n => ofNat k (n / 2) ++ [n.testBit 0]

@[simp] theorem length_ofNat (k n : ℕ) : (ofNat k n).length = k := by
  induction k generalizing n with
  | zero => rfl
  | succ k ih => simp [ofNat, ih]

@[simp] theorem value_nil : value [] = 0 := rfl

theorem value_concat (bits : List Bool) (bit : Bool) :
    value (bits ++ [bit]) = 2 * value bits + bit.toNat := by
  simp [value]

theorem value_append (xs ys : List Bool) :
    value (xs ++ ys) = value xs * 2 ^ ys.length + value ys := by
  induction ys using List.reverseRecOn with
  | nil => simp
  | append_singleton ys bit ih =>
      rw [← List.append_assoc, value_concat, value_concat, ih, List.length_append,
        List.length_singleton, pow_succ]
      ring

theorem value_cons (bit : Bool) (bits : List Bool) :
    value (bit :: bits) = bit.toNat * 2 ^ bits.length + value bits := by
  have hsplit := value_append [bit] bits
  simpa [value] using hsplit

theorem value_lt (bits : List Bool) : value bits < 2 ^ bits.length := by
  induction bits with
  | nil => simp
  | cons bit bits ih =>
      have hbit : bit.toNat * 2 ^ bits.length ≤ 1 * 2 ^ bits.length :=
        Nat.mul_le_mul_right _ bit.toNat_le
      rw [value_cons, List.length_cons, pow_succ]
      omega

theorem value_ofNat (k n : ℕ) : value (ofNat k n) = n % 2 ^ k := by
  induction k generalizing n with
  | zero => simp [ofNat, Nat.mod_one]
  | succ k ih =>
      have hbit : (n.testBit 0).toNat = n % 2 := by
        rw [Nat.testBit_zero]
        rcases Nat.mod_two_eq_zero_or_one n with h | h <;> simp [h]
      rw [ofNat, value_concat, ih, hbit, pow_succ', Nat.mod_mul]
      omega

theorem ofNat_value (bits : List Bool) : ofNat bits.length (value bits) = bits := by
  induction bits using List.reverseRecOn with
  | nil => rfl
  | append_singleton bits bit ih =>
      have hdiv : (2 * value bits + bit.toNat) / 2 = value bits := by
        have hle := bit.toNat_le
        omega
      have hlast : (2 * value bits + bit.toNat).testBit 0 = bit := by
        cases bit <;> simp
      rw [List.length_append, List.length_singleton, value_concat, ofNat, hdiv, hlast, ih]

/-! ## Sums of bytes -/

/-- The sum of the bytes, the last of which ends with the list. -/
def sumOfBytes : List Bool → ℕ
  | [] => 0
  | bit :: bits => bit.toNat * 2 ^ (bits.length % 8) + sumOfBytes bits

/-- Whole bytes in front are added. -/
theorem sumOfBytes_append (xs : List Bool) {ys : List Bool} (hys : 8 ∣ ys.length) :
    sumOfBytes (xs ++ ys) = sumOfBytes xs + sumOfBytes ys := by
  induction xs with
  | nil => simp [sumOfBytes]
  | cons bit xs ih =>
      have hlength : (xs ++ ys).length % 8 = xs.length % 8 := by
        rw [List.length_append]
        omega
      rw [List.cons_append, sumOfBytes, sumOfBytes, hlength, ih, Nat.add_assoc]

theorem sumOfBytes_byte {bits : List Bool} (hbits : bits.length ≤ 8) : sumOfBytes bits = value bits := by
  induction bits with
  | nil => rfl
  | cons bit bits ih =>
      rw [List.length_cons] at hbits
      rw [sumOfBytes, value_cons, Nat.mod_eq_of_lt (by omega), ih (by omega)]

/-- Two bytes. -/
theorem sumOfBytes_word {bits : List Bool} (hbits : bits.length = 16) :
    sumOfBytes bits = value bits / 256 + value bits % 256 := by
  have hlow : (bits.drop 8).length = 8 := by simp [hbits]
  have hhigh : (bits.take 8).length = 8 := by simp [hbits]
  have hvalue := value_append (bits.take 8) (bits.drop 8)
  have hbyte : 8 ∣ (bits.drop 8).length := by rw [hlow]
  have hsum := sumOfBytes_append (bits.take 8) hbyte
  have hlt := value_lt (bits.drop 8)
  rw [List.take_append_drop, hlow] at hvalue
  rw [List.take_append_drop, sumOfBytes_byte hlow.le, sumOfBytes_byte hhigh.le] at hsum
  rw [hlow] at hlt
  rw [hsum]
  omega

/-- A flipped bit changes the sum, also modulo 256. -/
theorem sumOfBytes_flip_ne (xs ys : List Bool) (bit : Bool) :
    sumOfBytes (xs ++ (!bit) :: ys) % 256 ≠ sumOfBytes (xs ++ bit :: ys) % 256 := by
  induction xs with
  | nil =>
      have hdigit : ∀ j < 8, 2 ^ j % 256 ≠ 0 := by decide
      have hne := hdigit (ys.length % 8) (Nat.mod_lt _ (by decide))
      cases bit with
      | false =>
          simp only [List.nil_append, sumOfBytes, Bool.not_false, Bool.toNat_true, Bool.toNat_false]
          omega
      | true =>
          simp only [List.nil_append, sumOfBytes, Bool.not_true, Bool.toNat_true, Bool.toNat_false]
          omega
  | cons x xs ih =>
      have hlength : (xs ++ (!bit) :: ys).length = (xs ++ bit :: ys).length := by simp
      simp only [List.cons_append, sumOfBytes, hlength]
      omega

end Bits
