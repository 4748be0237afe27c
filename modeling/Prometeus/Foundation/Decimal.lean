import Mathlib.Algebra.Order.Field.Rat
import Mathlib.Data.List.Basic
import Mathlib.Tactic.Common
import Mathlib.Tactic.Ring

/-! # Decimal texts

Numbers `n / 10 ^ k` written with `k` decimals, and what such a text denotes. The integer
part is written by `Nat.toDigits`.
-/

namespace Decimal

/-- The last `k` digits of `n`. -/
def pad : ℕ → ℕ → List Char
  | 0, _ => []
  | k + 1, n => pad k (n / 10) ++ [Nat.digitChar (n % 10)]

@[simp] theorem length_pad (k n : ℕ) : (pad k n).length = k := by
  induction k generalizing n with
  | zero => rfl
  | succ k ih => simp [pad, ih]

theorem isDigit_of_mem_pad {k n : ℕ} {c : Char} (hc : c ∈ pad k n) : c.isDigit = true := by
  induction k generalizing n with
  | zero => simp [pad] at hc
  | succ k ih =>
      rcases List.mem_append.mp hc with hinit | hlast
      · exact ih hinit
      · rw [List.mem_singleton.mp hlast, Nat.isDigit_digitChar]
        simp [Nat.mod_lt]

theorem ofDigitChars_pad (k n : ℕ) : Nat.ofDigitChars 10 (pad k n) 0 = n % 10 ^ k := by
  induction k generalizing n with
  | zero => simp [pad, Nat.mod_one]
  | succ k ih =>
      have hdigit : n % 10 < 10 := Nat.mod_lt _ (by decide)
      rw [pad, Nat.ofDigitChars_append, ih, Nat.ofDigitChars_cons_digitChar_of_lt_ten hdigit,
        Nat.ofDigitChars_nil, Nat.pow_succ', Nat.mod_mul]
      ring

/-- Digits before the last `k` do not matter. -/
theorem pad_mul_add (k a n : ℕ) : pad k (a * 10 ^ k + n) = pad k n := by
  induction k generalizing n with
  | zero => rfl
  | succ k ih =>
      have hdiv : (a * 10 ^ (k + 1) + n) / 10 = a * 10 ^ k + n / 10 := by
        rw [pow_succ, ← mul_assoc]
        omega
      have hmod : (a * 10 ^ (k + 1) + n) % 10 = n % 10 := by
        rw [pow_succ, ← mul_assoc]
        omega
      rw [pad, pad, hdiv, hmod, ih]

/-- `%d`: an integer. -/
def intText (n : ℤ) : List Char :=
  if n < 0 then '-' :: Nat.toDigits 10 n.natAbs else Nat.toDigits 10 n.natAbs

theorem intText_natCast (n : ℕ) : intText n = Nat.toDigits 10 n := by
  simp [intText]

/-- `± n / 10 ^ k` with `k` decimals. -/
def text (negative : Bool) (n k : ℕ) : List Char :=
  (if negative then ['-'] else []) ++ Nat.toDigits 10 (n / 10 ^ k) ++
    (if k = 0 then [] else '.' :: pad k n)

def value (negative : Bool) (n k : ℕ) : ℚ := (if negative then -1 else 1) * (n / 10 ^ k)

theorem intText_eq_text (n : ℤ) : intText n = text (decide (n < 0)) n.natAbs 0 := by
  by_cases hn : n < 0
  · simp [intText, text, hn]
  · simp [intText, text, hn]

/-- The digits of a positive number begin with no zero. -/
theorem head_toDigits_ne_zero {n : ℕ} (hn : 0 < n) : (Nat.toDigits 10 n).head? ≠ some '0' := by
  induction n using Nat.strong_induction_on with
  | _ n ih =>
      by_cases hlt : n < 10
      · rw [Nat.toDigits_of_lt_base hlt]
        simpa using hn.ne'
      · rw [Nat.toDigits_of_base_le (by decide) (by omega),
          List.head?_append_of_ne_nil _ Nat.toDigits_ne_nil]
        exact ih (n / 10) (by omega) (by omega)

theorem length_toDigits_of_lt {n k : ℕ} (hn : n < 10 ^ k) (hk : 0 < k) :
    (Nat.toDigits 10 n).length ≤ k :=
  (Nat.length_toDigits_le_iff (by decide) hk).mpr hn

end Decimal
