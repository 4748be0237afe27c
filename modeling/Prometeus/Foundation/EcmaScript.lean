import Prometeus.Foundation.Decimal
import Prometeus.Foundation.Rounding

/-! # Numbers of ECMAScript

`Number.prototype.toFixed`, on the doubles that are not NaN or infinite.
-/

namespace EcmaScript

open Rounding

/-- The digits and the exponent that `Number::toString` chooses for a double: as few digits as
denote it, of `most` at most. The double is below `10 ^ exponent`. -/
def shortest (x : ℚ) (exponent : ℕ) : ℕ → ℕ → ℕ × ℕ
  | digits, 0 => (⌊x * 10 ^ digits / 10 ^ exponent + 1 / 2⌋.toNat, exponent)
  | digits, most + 1 =>
      let n := ⌊x * 10 ^ digits / 10 ^ exponent + 1 / 2⌋.toNat
      if binary64 (n * 10 ^ exponent / 10 ^ digits) = x then
        if n = 10 ^ digits then (1, exponent + 1) else (n, exponent)
      else
        shortest x exponent (digits + 1) most

/-- `Number::toString` of a double from `10 ^ 21` on. -/
def exponential (x : ℚ) : List Char :=
  let (n, exponent) := shortest x (Nat.log 10 ⌊x⌋.toNat + 1) 1 16
  (match Nat.toDigits 10 n with
  | [] => []
  | [digit] => [digit]
  | digit :: rest => digit :: '.' :: rest) ++ "e+".toList ++ Nat.toDigits 10 (exponent - 1)

/-- `x.toFixed(fractionDigits)`; of two candidates the larger is taken. -/
def toFixed (x : ℚ) (fractionDigits : ℕ) : List Char :=
  if |x| < 10 ^ 21 then
    Decimal.text (decide (x < 0)) ⌊|x| * 10 ^ fractionDigits + 1 / 2⌋.toNat fractionDigits
  else
    (if x < 0 then ['-'] else []) ++ exponential |x|

example : String.ofList (toFixed (-(1 / 1000)) 2) = "-0.00" := by decide +kernel

theorem toFixed_ne_nil (x : ℚ) (fractionDigits : ℕ) : toFixed x fractionDigits ≠ [] := by
  unfold toFixed
  split
  · simp [Decimal.text]
  · simp [exponential]

end EcmaScript
