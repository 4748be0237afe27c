import Mathlib.Algebra.Order.Floor.Ring
import Mathlib.Algebra.Order.Round
import Mathlib.Data.Int.Log
import Mathlib.Data.Rat.Floor
import Mathlib.Tactic.Linarith
import Mathlib.Tactic.LinearCombination
import Mathlib.Tactic.Positivity
import Mathlib.Tactic.Ring

/-! # Binary rounding of rationals

Round to nearest, ties to even, keeping `p` significant bits. The exponent is
unbounded, so on the normal range of a binary interchange format with `p`
mantissa bits this is the rounding of that format. Finite floats are the
rationals `Representable p`; every operation of the format is the exact
rational operation followed by `roundTo p`.
-/

namespace Rounding

/-- The nearest integer, the even one of the two when both are as close. -/
def roundEven (q : ℚ) : ℤ :=
  if q - ⌊q⌋ < 1 / 2 then ⌊q⌋
  else if 1 / 2 < q - ⌊q⌋ then ⌊q⌋ + 1
  else if ⌊q⌋ % 2 = 0 then ⌊q⌋ else ⌊q⌋ + 1

theorem floor_le_roundEven (q : ℚ) : ⌊q⌋ ≤ roundEven q := by
  unfold roundEven
  split_ifs <;> omega

theorem roundEven_le_floor_add_one (q : ℚ) : roundEven q ≤ ⌊q⌋ + 1 := by
  unfold roundEven
  split_ifs <;> omega

@[simp] theorem roundEven_intCast (n : ℤ) : roundEven n = n := by
  simp [roundEven]

theorem abs_roundEven_sub_le (q : ℚ) : |(roundEven q : ℚ) - q| ≤ 1 / 2 := by
  have hlow := Int.floor_le q
  have hhigh := Int.lt_floor_add_one q
  unfold roundEven
  rw [abs_le]
  split_ifs with hless hmore heven
  · constructor <;> linarith
  · push_cast
    constructor <;> linarith
  · constructor <;> linarith
  · push_cast
    constructor <;> linarith

theorem roundEven_eq {q : ℚ} {n : ℤ} (h : |q - n| < 1 / 2) : roundEven q = n := by
  have hdist : |(roundEven q : ℚ) - n| < 1 := by
    calc |(roundEven q : ℚ) - n| ≤ |(roundEven q : ℚ) - q| + |q - n| := abs_sub_le _ _ _
      _ < 1 / 2 + 1 / 2 := add_lt_add_of_le_of_lt (abs_roundEven_sub_le q) h
      _ = 1 := by norm_num
  have hint : |roundEven q - n| < 1 := by exact_mod_cast hdist
  rw [Int.abs_lt_one_iff] at hint
  omega

theorem roundEven_mono {q r : ℚ} (hqr : q ≤ r) : roundEven q ≤ roundEven r := by
  rcases lt_or_eq_of_le (Int.floor_le_floor hqr) with hlt | heq
  · calc roundEven q ≤ ⌊q⌋ + 1 := roundEven_le_floor_add_one q
      _ ≤ ⌊r⌋ := hlt
      _ ≤ roundEven r := floor_le_roundEven r
  · have hqr' : q - (⌊r⌋ : ℚ) ≤ r - ⌊r⌋ := by linarith
    unfold roundEven
    rw [heq]
    split_ifs <;> first | omega | linarith

/-- The spacing of the numbers with `p` significant bits around `x`. -/
def ulp (p : ℕ) (x : ℚ) : ℚ := 2 ^ (Int.log 2 |x| - (p - 1))

/-- `x` rounded to `p` significant bits. -/
def roundTo (p : ℕ) (x : ℚ) : ℚ := roundEven (x / ulp p x) * ulp p x

/-- Rounding to `float`. -/
def binary32 (x : ℚ) : ℚ := roundTo 24 x

/-- Rounding to `double`. -/
def binary64 (x : ℚ) : ℚ := roundTo 53 x

theorem ulp_pos (p : ℕ) (x : ℚ) : 0 < ulp p x := zpow_pos (by norm_num) _

@[simp] theorem roundTo_zero (p : ℕ) : roundTo p 0 = 0 := by
  have hzero := roundEven_intCast 0
  rw [Int.cast_zero] at hzero
  simp [roundTo, hzero]

theorem roundTo_nonneg {p : ℕ} {x : ℚ} (hx : 0 ≤ x) : 0 ≤ roundTo p x := by
  have hquot : ((0 : ℤ) : ℚ) ≤ x / ulp p x := by
    rw [Int.cast_zero]
    exact div_nonneg hx (ulp_pos p x).le
  have hround : 0 ≤ roundEven (x / ulp p x) := by
    simpa only [roundEven_intCast] using roundEven_mono hquot
  exact mul_nonneg (by exact_mod_cast hround) (ulp_pos p x).le

/-- The next power of two above `x`, counted in spacings. -/
theorem zpow_log_add_one (p : ℕ) (x : ℚ) :
    (2 : ℚ) ^ (Int.log 2 |x| + 1) = ((2 ^ p : ℤ) : ℚ) * ulp p x := by
  rw [ulp]
  push_cast
  rw [← zpow_natCast, ← zpow_add₀ (by norm_num)]
  congr 1
  ring

/-- Rounding gives the nearest multiple of the spacing. -/
theorem roundTo_eq_mul_ulp {p : ℕ} {x : ℚ} {n : ℤ} (h : |x - n * ulp p x| < ulp p x / 2) :
    roundTo p x = n * ulp p x := by
  have hpos := ulp_pos p x
  have hscaled : |x / ulp p x - n| < 1 / 2 := by
    have hfactor : x - n * ulp p x = (x / ulp p x - n) * ulp p x := by
      rw [sub_mul, div_mul_cancel₀ x hpos.ne']
    rw [hfactor, abs_mul, abs_of_pos hpos] at h
    exact lt_of_mul_lt_mul_right (h.trans_eq (by ring)) hpos.le
  rw [roundTo, roundEven_eq hscaled]

/-- Rounding moves a number by at most half the spacing around it. -/
theorem abs_roundTo_sub_le (p : ℕ) (x : ℚ) : |roundTo p x - x| ≤ ulp p x / 2 := by
  have hpos := ulp_pos p x
  have hscaled : roundTo p x - x = (roundEven (x / ulp p x) - x / ulp p x) * ulp p x := by
    rw [roundTo, sub_mul, div_mul_cancel₀ x hpos.ne']
  rw [hscaled, abs_mul, abs_of_pos hpos]
  calc |(roundEven (x / ulp p x) : ℚ) - x / ulp p x| * ulp p x
      ≤ 1 / 2 * ulp p x := by gcongr; exact abs_roundEven_sub_le _
    _ = ulp p x / 2 := by ring

/-- Below `2 ^ (e + 1)` the spacing is at most `2 ^ (e - (p - 1))`. -/
theorem ulp_le_of_lt {p : ℕ} {x : ℚ} {e : ℤ} (hx : x ≠ 0) (hlt : |x| < 2 ^ (e + 1)) :
    ulp p x ≤ 2 ^ (e - (p - 1)) := by
  have hlog : Int.log 2 |x| < e + 1 :=
    (Int.lt_zpow_iff_log_lt (by norm_num) (abs_pos.mpr hx)).mp (by exact_mod_cast hlt)
  exact zpow_le_zpow_right₀ (by norm_num) (by omega)

/-- The rounding error below `2 ^ (e + 1)`, stated without the spacing. -/
theorem abs_roundTo_sub_le_of_lt {p : ℕ} {x : ℚ} {e : ℤ} (hlt : |x| < 2 ^ (e + 1)) :
    |roundTo p x - x| ≤ 2 ^ (e - (p - 1)) / 2 := by
  by_cases hx : x = 0
  · subst x
    have hpos : (0 : ℚ) < 2 ^ (e - (p - 1)) := zpow_pos (by norm_num) _
    simpa using (half_pos hpos).le
  · calc |roundTo p x - x| ≤ ulp p x / 2 := abs_roundTo_sub_le p x
      _ ≤ 2 ^ (e - (p - 1)) / 2 := by gcongr; exact ulp_le_of_lt hx hlt

/-- The rounding error relative to what is rounded. -/
theorem abs_roundTo_sub_le_mul (p : ℕ) (x : ℚ) : |roundTo p x - x| ≤ |x| / 2 ^ p := by
  by_cases hx : x = 0
  · simp [hx]
  · have hlog : (2 : ℚ) ^ Int.log 2 |x| ≤ |x| := Int.zpow_log_le_self (by norm_num) (abs_pos.mpr hx)
    have hulp : ulp p x = 2 ^ Int.log 2 |x| * 2 / 2 ^ p := by
      rw [ulp, sub_eq_add_neg, zpow_add₀ (by norm_num), neg_sub, zpow_sub₀ (by norm_num), zpow_one,
        zpow_natCast]
      ring
    calc |roundTo p x - x| ≤ ulp p x / 2 := abs_roundTo_sub_le p x
      _ = 2 ^ Int.log 2 |x| / 2 ^ p := by rw [hulp]; ring
      _ ≤ |x| / 2 ^ p := by gcongr

theorem abs_binary32_sub_le (e : ℤ) {x b : ℚ} (hx : |x| < b) (hb : b ≤ 2 ^ (e + 1)) :
    |binary32 x - x| ≤ 2 ^ (e - 23) / 2 := by
  have hround := abs_roundTo_sub_le_of_lt (p := 24) (hx.trans_le hb)
  norm_num at hround
  exact hround

theorem abs_binary64_sub_le (e : ℤ) {x b : ℚ} (hx : |x| < b) (hb : b ≤ 2 ^ (e + 1)) :
    |binary64 x - x| ≤ 2 ^ (e - 52) / 2 := by
  have hround := abs_roundTo_sub_le_of_lt (p := 53) (hx.trans_le hb)
  norm_num at hround
  exact hround

/-! ## Representable numbers -/

/-- A number with at most `p` significant bits. -/
def Representable (p : ℕ) (x : ℚ) : Prop :=
  ∃ (m k : ℤ), x = m * 2 ^ k ∧ |m| < 2 ^ p

theorem Representable.mul_two {p : ℕ} {x : ℚ} (hx : Representable p x) :
    Representable p (x * 2) := by
  obtain ⟨m, k, rfl, hm⟩ := hx
  refine ⟨m, k + 1, ?_, hm⟩
  rw [zpow_add₀ (by norm_num), zpow_one]
  ring

theorem representable_zpow {p : ℕ} (hp : 0 < p) (k : ℤ) : Representable p (2 ^ k) :=
  ⟨1, k, by simp, by simpa using one_lt_pow₀ (by norm_num) hp.ne'⟩

theorem representable_natCast {p n : ℕ} (hn : n < 2 ^ p) : Representable p n := by
  refine ⟨n, 0, by simp, ?_⟩
  rw [abs_of_nonneg (Int.natCast_nonneg n)]
  exact_mod_cast hn

/-- Dropping the integer part of a representable number keeps it representable. -/
theorem Representable.sub_floor {p : ℕ} {x : ℚ} (hx : Representable p x) (hpos : 0 ≤ x) :
    Representable p (x - ⌊x⌋) := by
  obtain ⟨m, k, rfl, hm⟩ := hx
  have hzero : Representable p 0 := ⟨0, 0, by simp, by simp⟩
  have htwo : (0 : ℚ) < 2 ^ k := zpow_pos (by norm_num) k
  have hm0 : 0 ≤ m := by
    have hcast : (0 : ℚ) ≤ m := nonneg_of_mul_nonneg_left hpos htwo
    exact_mod_cast hcast
  obtain ⟨d, hd | hd⟩ := Int.eq_nat_or_neg k
  · -- an integer: nothing remains
    have hint : (m : ℚ) * 2 ^ k = ((m * 2 ^ d : ℤ) : ℚ) := by
      rw [hd, zpow_natCast]
      push_cast
      ring
    rw [hint, Int.floor_intCast, sub_self]
    exact hzero
  · -- the last `d` bits of the mantissa remain
    have hfloor : ⌊(m : ℚ) * 2 ^ k⌋ = m / 2 ^ d := by
      have hdiv : (m : ℚ) * 2 ^ k = (m : ℚ) / ((2 ^ d : ℕ) : ℚ) := by
        rw [hd, zpow_neg, zpow_natCast, div_eq_mul_inv]
        push_cast
        ring
      rw [hdiv, Rat.floor_intCast_div_natCast]
      push_cast
      ring
    refine ⟨m % 2 ^ d, k, ?_, ?_⟩
    · have hsplit : (m : ℚ) = (m / 2 ^ d : ℤ) * 2 ^ d + (m % 2 ^ d : ℤ) := by
        exact_mod_cast (Int.ediv_mul_add_emod m (2 ^ d)).symm
      have hcancel : (2 : ℚ) ^ d * 2 ^ k = 1 := by
        rw [hd, zpow_neg, zpow_natCast, mul_inv_cancel₀ (by positivity)]
      rw [hfloor]
      linear_combination (2 : ℚ) ^ k * hsplit + ((m / 2 ^ d : ℤ) : ℚ) * hcancel
    · have hmod : 0 ≤ m % 2 ^ d := Int.emod_nonneg m (by positivity)
      have hdiv : 0 ≤ m / 2 ^ d * 2 ^ d :=
        mul_nonneg (Int.ediv_nonneg hm0 (by positivity)) (by positivity)
      have hsplit := Int.ediv_mul_add_emod m (2 ^ d)
      rw [abs_of_nonneg hmod]
      calc m % 2 ^ d ≤ m := by linarith
        _ ≤ |m| := le_abs_self m
        _ < 2 ^ p := hm

/-- A representable number is a multiple of the spacing around it. -/
theorem Representable.exists_mul_ulp {p : ℕ} {x : ℚ} (hx : Representable p x) (hne : x ≠ 0) :
    ∃ n : ℤ, x = n * ulp p x := by
  obtain ⟨m, k, rfl, hm⟩ := hx
  have hk : (0 : ℚ) < 2 ^ k := zpow_pos (by norm_num) k
  have hbound : |(m : ℚ) * 2 ^ k| < 2 ^ ((p : ℤ) + k) := by
    rw [abs_mul, abs_of_pos hk, zpow_add₀ (by norm_num), zpow_natCast]
    gcongr
    exact_mod_cast hm
  -- the leading bit lies at most `p - 1` places above the last one
  have hlog : Int.log 2 |(m : ℚ) * 2 ^ k| < p + k :=
    (Int.lt_zpow_iff_log_lt (by norm_num) (abs_pos.mpr hne)).mp (by exact_mod_cast hbound)
  obtain ⟨d, hd⟩ : ∃ d : ℕ, k = d + (Int.log 2 |(m : ℚ) * 2 ^ k| - (p - 1)) :=
    ⟨(k - (Int.log 2 |(m : ℚ) * 2 ^ k| - (p - 1))).toNat, by omega⟩
  have hsplit : (2 : ℚ) ^ k = 2 ^ d * ulp p (m * 2 ^ k) := by
    rw [ulp, ← zpow_natCast, ← zpow_add₀ (by norm_num), ← hd]
  refine ⟨m * 2 ^ d, ?_⟩
  calc (m : ℚ) * 2 ^ k = m * (2 ^ d * ulp p (m * 2 ^ k)) := by rw [← hsplit]
    _ = ((m * 2 ^ d : ℤ) : ℚ) * ulp p (m * 2 ^ k) := by push_cast; ring

theorem roundTo_of_representable {p : ℕ} {x : ℚ} (hx : Representable p x) : roundTo p x = x := by
  by_cases hne : x = 0
  · rw [hne, roundTo_zero]
  · obtain ⟨n, hn⟩ := hx.exists_mul_ulp hne
    have hquot : x / ulp p x = n := by
      rw [div_eq_iff (ulp_pos p x).ne']
      exact hn
    rw [roundTo, hquot, roundEven_intCast]
    exact hn.symm

theorem abs_roundEven_le {q : ℚ} {n : ℤ} (h : |q| ≤ n) : |roundEven q| ≤ n := by
  obtain ⟨hlow, hhigh⟩ := abs_le.mp h
  have hneg : ((-n : ℤ) : ℚ) ≤ q := by
    rw [Int.cast_neg]
    exact hlow
  apply abs_le.mpr
  constructor
  · simpa only [roundEven_intCast] using roundEven_mono hneg
  · simpa only [roundEven_intCast] using roundEven_mono hhigh

/-- What rounding gives is a number of the format. -/
theorem representable_roundTo {p : ℕ} (hp : 0 < p) (x : ℚ) : Representable p (roundTo p x) := by
  by_cases hx : x = 0
  · exact ⟨0, 0, by simp [hx], by simp⟩
  · have hquot : |x / ulp p x| ≤ ((2 ^ p : ℤ) : ℚ) := by
      rw [abs_div, abs_of_pos (ulp_pos p x), div_le_iff₀ (ulp_pos p x)]
      have hself := Int.lt_zpow_succ_log_self (b := 2) (by norm_num) |x|
      calc |x| ≤ 2 ^ (Int.log 2 |x| + 1) := by exact_mod_cast hself.le
        _ = ((2 ^ p : ℤ) : ℚ) * ulp p x := zpow_log_add_one p x
    rcases lt_or_eq_of_le (abs_roundEven_le hquot) with hlt | heq
    · exact ⟨roundEven (x / ulp p x), Int.log 2 |x| - (p - 1), rfl, hlt⟩
    · -- rounded up to the next power of two, which has a shorter mantissa
      obtain ⟨d, rfl⟩ : ∃ d, p = d + 1 := ⟨p - 1, by omega⟩
      obtain ⟨m, hm⟩ : ∃ m : ℤ, roundEven (x / ulp (d + 1) x) = 2 * m := by
        rcases abs_choice (roundEven (x / ulp (d + 1) x)) with hsign | hsign
        · exact ⟨2 ^ d, by rw [← hsign, heq, pow_succ]; ring⟩
        · exact ⟨-2 ^ d, by rw [← neg_neg (roundEven _), ← hsign, heq, pow_succ]; ring⟩
      refine ⟨m, Int.log 2 |x| - ((d + 1 : ℕ) - 1) + 1, ?_, ?_⟩
      · rw [roundTo, hm, zpow_add₀ (by norm_num), zpow_one, ulp]
        push_cast
        ring
      · have htwo : |(2 : ℤ)| = 2 := rfl
        rw [hm, abs_mul, htwo, pow_succ] at heq
        rw [pow_succ]
        have hpos : (0 : ℤ) < 2 ^ d := by positivity
        omega

/-- Small whole numbers are floats. -/
theorem binary32_natCast {n : ℕ} (hn : n < 2 ^ 24) : binary32 n = n :=
  roundTo_of_representable (representable_natCast hn)

/-! ## Monotonicity -/

theorem roundTo_le_zpow {p : ℕ} {x : ℚ} (hx : 0 < x) :
    roundTo p x ≤ 2 ^ (Int.log 2 |x| + 1) := by
  have hpos := ulp_pos p x
  have hmul := zpow_log_add_one p x
  have hlt : x < 2 ^ (Int.log 2 |x| + 1) := by
    have hself := Int.lt_zpow_succ_log_self (b := 2) (by norm_num) |x|
    rw [abs_of_pos hx] at hself ⊢
    exact_mod_cast hself
  have hquot : x / ulp p x ≤ ((2 ^ p : ℤ) : ℚ) := by
    rw [div_le_iff₀ hpos, ← hmul]
    exact hlt.le
  have hround : roundEven (x / ulp p x) ≤ 2 ^ p := by
    simpa only [roundEven_intCast] using roundEven_mono hquot
  rw [roundTo, hmul]
  gcongr

theorem zpow_le_roundTo {p : ℕ} (hp : 0 < p) {x : ℚ} (hx : 0 < x) :
    2 ^ Int.log 2 |x| ≤ roundTo p x := by
  have hpos := ulp_pos p x
  have hmul : (2 : ℚ) ^ Int.log 2 |x| = ((2 ^ (p - 1) : ℤ) : ℚ) * ulp p x := by
    rw [ulp]
    push_cast
    rw [← zpow_natCast, ← zpow_add₀ (by norm_num)]
    congr 1
    omega
  have hle : 2 ^ Int.log 2 |x| ≤ x := by
    have hself := Int.zpow_log_le_self (b := 2) (by norm_num) (abs_pos.mpr hx.ne')
    rw [abs_of_pos hx] at hself ⊢
    exact_mod_cast hself
  have hquot : ((2 ^ (p - 1) : ℤ) : ℚ) ≤ x / ulp p x := by
    rw [le_div_iff₀ hpos, ← hmul]
    exact hle
  have hround : 2 ^ (p - 1) ≤ roundEven (x / ulp p x) := by
    simpa only [roundEven_intCast] using roundEven_mono hquot
  rw [roundTo, hmul]
  gcongr

theorem roundTo_pos {p : ℕ} (hp : 0 < p) {x : ℚ} (hx : 0 < x) : 0 < roundTo p x :=
  lt_of_lt_of_le (zpow_pos (by norm_num) _) (zpow_le_roundTo hp hx)

theorem roundTo_mono {p : ℕ} (hp : 0 < p) {x y : ℚ} (hx : 0 < x) (hxy : x ≤ y) :
    roundTo p x ≤ roundTo p y := by
  have hy : 0 < y := hx.trans_le hxy
  have habs : |x| ≤ |y| := by rwa [abs_of_pos hx, abs_of_pos hy]
  rcases lt_or_eq_of_le (Int.log_mono_right (b := 2) (abs_pos.mpr hx.ne') habs) with hlt | heq
  · calc roundTo p x ≤ 2 ^ (Int.log 2 |x| + 1) := roundTo_le_zpow hx
      _ ≤ 2 ^ Int.log 2 |y| := zpow_le_zpow_right₀ (by norm_num) (by omega)
      _ ≤ roundTo p y := zpow_le_roundTo hp hy
  · have hulp : ulp p x = ulp p y := by rw [ulp, ulp, heq]
    have hpos := ulp_pos p y
    rw [roundTo, roundTo, hulp]
    gcongr
    exact_mod_cast roundEven_mono (by gcongr)

/-- Whatever lies between two numbers that round alike rounds as they do. -/
theorem roundTo_eq_of_between {p : ℕ} (hp : 0 < p) {a b x : ℚ} (ha : 0 < a) (hax : a ≤ x)
    (hxb : x ≤ b) (hab : roundTo p a = roundTo p b) : roundTo p x = roundTo p a :=
  le_antisymm (hab ▸ roundTo_mono hp (ha.trans_le hax) hxb) (roundTo_mono hp ha hax)

/-- The finite values of `float`. -/
def IsBinary32 (x : ℚ) : Prop :=
  ∃ (m k : ℤ), x = m * 2 ^ k ∧ |m| < 2 ^ 24 ∧ -149 ≤ k ∧ k ≤ 104

theorem IsBinary32.representable {x : ℚ} (hx : IsBinary32 x) : Representable 24 x := by
  obtain ⟨m, k, heq, hm, -⟩ := hx
  exact ⟨m, k, heq, hm⟩

theorem IsBinary32.neg {x : ℚ} (hx : IsBinary32 x) : IsBinary32 (-x) := by
  obtain ⟨m, k, rfl, hm, hk⟩ := hx
  exact ⟨-m, k, by push_cast; ring, by rwa [abs_neg], hk⟩

theorem IsBinary32.bounds {x : ℚ} (hx : IsBinary32 x) (hpos : 0 < x) :
    1 / 2 ^ 149 ≤ x ∧ x < 2 ^ 128 := by
  obtain ⟨m, k, rfl, hm, hlow, hhigh⟩ := hx
  have hpow : (0 : ℚ) < 2 ^ k := zpow_pos (by norm_num) k
  have hmpos : 0 < m := by exact_mod_cast (pos_iff_pos_of_mul_pos hpos).mpr hpow
  constructor
  · calc (1 / 2 ^ 149 : ℚ) = 1 * 2 ^ (-149 : ℤ) := by norm_num
      _ ≤ m * 2 ^ k := by
          gcongr
          · exact_mod_cast hmpos
          · norm_num
  · have hlt : (m : ℚ) < 2 ^ 24 := by exact_mod_cast (le_abs_self m).trans_lt hm
    calc (m : ℚ) * 2 ^ k < 2 ^ 24 * 2 ^ k := by gcongr
      _ ≤ 2 ^ 24 * 2 ^ (104 : ℤ) := by
          gcongr
          norm_num
      _ = 2 ^ 128 := by norm_num

/-! ## Several roundings -/

/-- `x` is `y` up to `k` roundings to `p` bits. -/
def Within (p k : ℕ) (x y : ℚ) : Prop :=
  y * (1 - 1 / 2 ^ p) ^ k ≤ x ∧ x ≤ y * (1 + 1 / 2 ^ p) ^ k

namespace Within

variable {p j k : ℕ} {x y z c : ℚ}

theorem refl (p : ℕ) (x : ℚ) : Within p 0 x x := by
  simp [Within]

/-- What a rounding takes away or adds is nonnegative. -/
theorem lower_nonneg (p : ℕ) : (0 : ℚ) ≤ 1 - 1 / 2 ^ p := by
  rw [sub_nonneg, div_le_one (by positivity)]
  exact one_le_pow₀ (by norm_num)

theorem nonneg (h : Within p k x y) (hy : 0 ≤ y) : 0 ≤ x :=
  (mul_nonneg hy (pow_nonneg (lower_nonneg p) k)).trans h.1

theorem trans (hxy : Within p j x y) (hyz : Within p k y z) : Within p (k + j) x z := by
  constructor
  · calc z * (1 - 1 / 2 ^ p) ^ (k + j) = z * (1 - 1 / 2 ^ p) ^ k * (1 - 1 / 2 ^ p) ^ j := by
          rw [pow_add, mul_assoc]
      _ ≤ y * (1 - 1 / 2 ^ p) ^ j := by
          gcongr
          · exact pow_nonneg (lower_nonneg p) j
          · exact hyz.1
      _ ≤ x := hxy.1
  · calc x ≤ y * (1 + 1 / 2 ^ p) ^ j := hxy.2
      _ ≤ z * (1 + 1 / 2 ^ p) ^ k * (1 + 1 / 2 ^ p) ^ j := by
          gcongr
          exact hyz.2
      _ = z * (1 + 1 / 2 ^ p) ^ (k + j) := by rw [pow_add, mul_assoc]

theorem mul_right (h : Within p k x y) (hc : 0 ≤ c) : Within p k (x * c) (y * c) := by
  constructor
  · calc y * c * (1 - 1 / 2 ^ p) ^ k = y * (1 - 1 / 2 ^ p) ^ k * c := by ring
      _ ≤ x * c := by
          gcongr
          exact h.1
  · calc x * c ≤ y * (1 + 1 / 2 ^ p) ^ k * c := by
          gcongr
          exact h.2
      _ = y * c * (1 + 1 / 2 ^ p) ^ k := by ring

theorem mul_left (h : Within p k x y) (hc : 0 ≤ c) : Within p k (c * x) (c * y) := by
  rw [mul_comm c x, mul_comm c y]
  exact h.mul_right hc

theorem mono (h : Within p j x y) (hy : 0 ≤ y) (hjk : j ≤ k) : Within p k x y := by
  constructor
  · calc y * (1 - 1 / 2 ^ p) ^ k ≤ y * (1 - 1 / 2 ^ p) ^ j := by
          gcongr y * ?_
          exact pow_le_pow_of_le_one (lower_nonneg p) (sub_le_self 1 (by positivity)) hjk
      _ ≤ x := h.1
  · calc x ≤ y * (1 + 1 / 2 ^ p) ^ j := h.2
      _ ≤ y * (1 + 1 / 2 ^ p) ^ k := by
          gcongr
          exact le_add_of_nonneg_right (by positivity)

end Within

theorem within_roundTo (p : ℕ) {x : ℚ} (hx : 0 ≤ x) : Within p 1 (roundTo p x) x := by
  have herror := abs_le.mp (abs_roundTo_sub_le_mul p x)
  rw [abs_of_nonneg hx] at herror
  have hfactor : x / 2 ^ p = x * (1 / 2 ^ p) := by ring
  rw [hfactor] at herror
  constructor
  · linarith [herror.1]
  · linarith [herror.2]

/-- A product with a rounded factor. -/
theorem within_mul_roundTo (p : ℕ) {x c : ℚ} (hx : 0 ≤ x) (hc : 0 ≤ c) :
    Within p 2 (roundTo p (x * roundTo p c)) (x * c) :=
  (within_roundTo p (mul_nonneg hx (roundTo_nonneg hc))).trans ((within_roundTo p hc).mul_left hx)

end Rounding
