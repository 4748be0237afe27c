import Prometeus.Arduino.ArduinoJsonLaws

/-! # How near a printed float is

Floats from `10 ^ 7` on and up to `10 ^ -5` are scaled before they are printed, by products with
powers of ten that are rounded themselves. Six steps of two roundings each leave a value between
one and ten, up to these roundings, and the digits that are printed of it are seven.
-/

namespace Arduino

open Rounding

namespace FloatParts

variable {x : ℚ} {n j : ℕ} {state : ℚ × ℤ}

/-- What the scaling keeps: `state` denotes `x` up to `j` steps of two roundings. -/
structure Denotes (x : ℚ) (j : ℕ) (state : ℚ × ℤ) : Prop where
  representable : Representable 24 state.1
  nonneg : 0 ≤ state.1
  near : Within 24 (2 * j) (state.1 * 10 ^ state.2) x

theorem Denotes.scale (h : Denotes x j state) {c : ℚ} (hc : 0 ≤ c) {e : ℤ}
    (hscale : c * 10 ^ e = 10 ^ state.2) :
    Denotes x (j + 1) (binary32 (state.1 * binary32 c), e) := by
  have hstep := within_mul_roundTo 24 h.nonneg hc
  have hpow : (0 : ℚ) ≤ 10 ^ e := zpow_nonneg (by norm_num) e
  refine ⟨representable_roundTo (by norm_num) _, hstep.nonneg (mul_nonneg h.nonneg hc), ?_⟩
  have hscaled := hstep.mul_right hpow
  rw [mul_assoc, hscale] at hscaled
  exact hscaled.trans h.near

theorem Denotes.keep (h : Denotes x j state) (hx : 0 ≤ x) : Denotes x (j + 1) state :=
  ⟨h.representable, h.nonneg, h.near.mono hx (by omega)⟩

theorem pow_two_pow_succ (n : ℕ) : (10 : ℚ) ^ 2 ^ (n + 1) = 10 ^ 2 ^ n * 10 ^ 2 ^ n := by
  rw [pow_succ 2 n, pow_mul, sq]

/-! ## Down -/

/-- With `n` powers left to try, what is scaled down is below the next one. -/
structure Lowers (x : ℚ) (n j : ℕ) (state : ℚ × ℤ) : Prop extends Denotes x j state where
  low : (1 - 1 / 2 ^ 24) ^ 3 ≤ state.1
  high : state.1 ≤ 10 ^ 2 ^ n * (1 + 1 / 2 ^ 24) ^ (2 * j)

theorem Lowers.normalizeDown (h : Lowers x n j state) (hx : 0 ≤ x) :
    Lowers x 0 (j + n) (normalizeDown n state) := by
  induction n generalizing j state with
  | zero => exact h
  | succ n ih =>
      obtain ⟨v, e⟩ := state
      rw [FloatParts.normalizeDown]
      have hcount : j + (n + 1) = j + 1 + n := by omega
      have hrounds : ∀ r : ℚ, r ^ (2 * (j + 1)) = r ^ (2 * j) * r ^ 2 := fun r => pow_add r _ 2
      rw [hcount]
      apply ih
      have hpower := within_roundTo 24 (x := 10 ^ 2 ^ n) (by positivity)
      rw [Within, pow_one, pow_one] at hpower
      split_ifs with htaken
      · have hinv : (0 : ℚ) ≤ 1 / 10 ^ 2 ^ n := by positivity
        have hstep := within_mul_roundTo 24 h.nonneg hinv
        have hscale : (1 : ℚ) / 10 ^ 2 ^ n * 10 ^ (e + 2 ^ n) = 10 ^ e := by
          have hcast : (10 : ℚ) ^ ((2 : ℤ) ^ n) = 10 ^ 2 ^ n := by exact_mod_cast rfl
          rw [zpow_add₀ (by norm_num), hcast]
          field_simp
        refine ⟨h.toDenotes.scale hinv hscale, ?_, ?_⟩
        · calc (1 - 1 / 2 ^ 24 : ℚ) ^ 3
              = 10 ^ 2 ^ n * (1 - 1 / 2 ^ 24) * (1 / 10 ^ 2 ^ n) * (1 - 1 / 2 ^ 24) ^ 2 := by
                field_simp
            _ ≤ v * (1 / 10 ^ 2 ^ n) * (1 - 1 / 2 ^ 24) ^ 2 := by
                gcongr
                exact hpower.1.trans htaken
            _ ≤ _ := hstep.1
        · calc binary32 (v * negativeBinaryPowerOfTen n)
              ≤ v * (1 / 10 ^ 2 ^ n) * (1 + 1 / 2 ^ 24) ^ 2 := hstep.2
            _ ≤ 10 ^ 2 ^ (n + 1) * (1 + 1 / 2 ^ 24) ^ (2 * j) * (1 / 10 ^ 2 ^ n) *
                  (1 + 1 / 2 ^ 24) ^ 2 := by
                gcongr
                exact h.high
            _ = 10 ^ 2 ^ n * (1 + 1 / 2 ^ 24) ^ (2 * (j + 1)) := by
                rw [pow_two_pow_succ, hrounds]
                field_simp
      · refine ⟨h.toDenotes.keep hx, h.low, ?_⟩
        calc v ≤ 10 ^ 2 ^ n * (1 + 1 / 2 ^ 24) := (not_le.mp htaken).le.trans hpower.2
          _ ≤ 10 ^ 2 ^ n * (1 + 1 / 2 ^ 24) ^ (2 * (j + 1)) := by
              gcongr
              exact le_self_pow₀ (by norm_num) (by omega)

/-! ## Up -/

/-- With `n` powers left to try, what is scaled up has been brought above the next one. -/
structure Raises (x : ℚ) (n j : ℕ) (state : ℚ × ℤ) : Prop extends Denotes x j state where
  low : 10 / 10 ^ 2 ^ n * (1 - 1 / 2 ^ 24) ^ (2 * j) ≤ state.1
  high : state.1 ≤ 10 * (1 + 1 / 2 ^ 24) ^ 3

theorem Raises.normalizeUp (h : Raises x n j state) (hx : 0 ≤ x) :
    Raises x 0 (j + n) (normalizeUp n state) := by
  induction n generalizing j state with
  | zero => exact h
  | succ n ih =>
      obtain ⟨v, e⟩ := state
      rw [FloatParts.normalizeUp]
      have hcount : j + (n + 1) = j + 1 + n := by omega
      have hrounds : ∀ r : ℚ, r ^ (2 * (j + 1)) = r ^ (2 * j) * r ^ 2 := fun r => pow_add r _ 2
      rw [hcount]
      apply ih
      have hpower := within_roundTo 24 (x := 10 / 10 ^ 2 ^ n) (by positivity)
      rw [Within, pow_one, pow_one] at hpower
      have hpow : (0 : ℚ) ≤ 10 ^ 2 ^ n := by positivity
      split_ifs with htaken
      · have hstep := within_mul_roundTo 24 h.nonneg hpow
        have hscale : (10 : ℚ) ^ 2 ^ n * 10 ^ (e - 2 ^ n) = 10 ^ e := by
          have hcast : (10 : ℚ) ^ ((2 : ℤ) ^ n) = 10 ^ 2 ^ n := by exact_mod_cast rfl
          rw [zpow_sub₀ (by norm_num), hcast]
          field_simp
        refine ⟨h.toDenotes.scale hpow hscale, ?_, ?_⟩
        · calc 10 / 10 ^ 2 ^ n * (1 - 1 / 2 ^ 24 : ℚ) ^ (2 * (j + 1))
              = 10 / 10 ^ 2 ^ (n + 1) * (1 - 1 / 2 ^ 24) ^ (2 * j) * 10 ^ 2 ^ n *
                  (1 - 1 / 2 ^ 24) ^ 2 := by
                rw [pow_two_pow_succ, hrounds]
                field_simp
            _ ≤ v * 10 ^ 2 ^ n * (1 - 1 / 2 ^ 24) ^ 2 := by
                gcongr
                exact h.low
            _ ≤ _ := hstep.1
        · calc binary32 (v * positiveBinaryPowerOfTen n)
              ≤ v * 10 ^ 2 ^ n * (1 + 1 / 2 ^ 24) ^ 2 := hstep.2
            _ ≤ 10 / 10 ^ 2 ^ n * (1 + 1 / 2 ^ 24) * 10 ^ 2 ^ n * (1 + 1 / 2 ^ 24) ^ 2 := by
                gcongr
                exact htaken.le.trans hpower.2
            _ = 10 * (1 + 1 / 2 ^ 24) ^ 3 := by
                field_simp
      · refine ⟨h.toDenotes.keep hx, ?_, h.high⟩
        calc 10 / 10 ^ 2 ^ n * (1 - 1 / 2 ^ 24 : ℚ) ^ (2 * (j + 1))
            ≤ 10 / 10 ^ 2 ^ n * (1 - 1 / 2 ^ 24) := by
              gcongr
              exact pow_le_of_le_one (by norm_num) (by norm_num) (by omega)
          _ ≤ v := hpower.1.trans (not_lt.mp htaken)

/-! ## Seven digits -/

/-- The places left beside an integral part keep seven digits. -/
theorem pow_le_mul_placesFor {places i : ℕ} (hpos : 0 < i) (hi : i < 10 ^ (places + 1)) :
    10 ^ places ≤ i * 10 ^ placesFor places i := by
  induction places generalizing i with
  | zero => simpa [placesFor] using Nat.succ_le_of_lt hpos
  | succ places ih =>
      rw [placesFor]
      split_ifs with hten
      · have hquot := ih (i := i / 10) (by omega) (by rw [pow_succ] at hi; omega)
        calc 10 ^ (places + 1) = 10 ^ places * 10 := pow_succ 10 places
          _ ≤ i / 10 * 10 ^ placesFor places (i / 10) * 10 := Nat.mul_le_mul_right 10 hquot
          _ = i / 10 * 10 * 10 ^ placesFor places (i / 10) := by ring
          _ ≤ i * 10 ^ placesFor places (i / 10) :=
              Nat.mul_le_mul_right _ (Nat.div_mul_le_self i 10)
      · exact Nat.le_mul_of_pos_left _ hpos

/-- The last digit of what is printed without an exponent is small beside the number. -/
theorem last_place_le {y : ℚ} (hlow : 999 / 1000 ≤ y) (hhigh : y < 10 ^ 7) :
    17 / 32 / 10 ^ placesFor 6 (truncate y) ≤ 54 / 10 ^ 8 * y := by
  have hfloor := truncate_eq (show 0 ≤ y by linarith)
  have hle : (truncate y : ℚ) ≤ y := hfloor ▸ Int.floor_le y
  rw [div_le_iff₀ (by positivity)]
  rcases Nat.eq_zero_or_pos (truncate y) with hzero | hpos
  · rw [hzero, placesFor_of_lt (by decide)]
    linarith
  · have hlt : truncate y < 10 ^ (6 + 1) := by
      have hcast : (truncate y : ℚ) < (10 ^ 7 : ℕ) := by
        push_cast
        exact hle.trans_lt hhigh
      exact_mod_cast hcast
    have hseven : (10 : ℚ) ^ 6 ≤ truncate y * 10 ^ placesFor 6 (truncate y) := by
      exact_mod_cast pow_le_mul_placesFor hpos hlt
    calc (17 / 32 : ℚ) ≤ 54 / 10 ^ 8 * 10 ^ 6 := by norm_num
      _ ≤ 54 / 10 ^ 8 * (truncate y * 10 ^ placesFor 6 (truncate y)) := by gcongr
      _ ≤ 54 / 10 ^ 8 * (y * 10 ^ placesFor 6 (truncate y)) := by gcongr
      _ = 54 / 10 ^ 8 * y * 10 ^ placesFor 6 (truncate y) := by ring

/-- What is printed is near the float, relative to it; below one, and above what is printed with an
exponent, it is near it by the sixth decimal. -/
def Close (y x : ℚ) : Prop :=
  |y - x| ≤ 13 / 10 ^ 7 * |x| ∨ 1 / 10 ^ 5 < |x| ∧ |x| < 1 ∧ |y - x| ≤ 17 / 32 / 10 ^ 6

theorem Denotes.close (h : Denotes x 6 (normalize x)) (hx : 0 ≤ x)
    (hlow : 999 / 1000 ≤ (normalize x).1) (hhigh : (normalize x).1 < 21 / 2) :
    Close (of x).value x := by
  generalize hnormalize : normalize x = state at h hlow hhigh
  obtain ⟨y, e⟩ := state
  obtain ⟨hrep, hnonneg, hnear⟩ := h
  have hscale : (0 : ℚ) < 10 ^ e := zpow_pos (by norm_num) e
  have hprinted := abs_value_sub_le hnormalize hrep hnonneg fun _ => hhigh
  have hplace := last_place_le hlow (by linarith)
  have hbelow : (1 - 72 / 10 ^ 8 : ℚ) ≤ (1 - 1 / 2 ^ 24) ^ (2 * 6) := by norm_num
  have habove : (1 + 1 / 2 ^ 24 : ℚ) ^ (2 * 6) ≤ 1 + 72 / 10 ^ 8 := by norm_num
  have hdown : x * (1 - 72 / 10 ^ 8) ≤ y * 10 ^ e := le_trans (by gcongr) hnear.1
  have hup : y * 10 ^ e ≤ x * (1 + 72 / 10 ^ 8) := hnear.2.trans (by gcongr)
  have hscaled : |y * 10 ^ e - x| ≤ 72 / 10 ^ 8 * x := by
    rw [abs_le]
    constructor <;> linarith
  refine Or.inl ?_
  rw [abs_of_nonneg hx]
  calc |(of x).value - x| ≤ |(of x).value - y * 10 ^ e| + |y * 10 ^ e - x| := abs_sub_le _ _ _
    _ ≤ 54 / 10 ^ 8 * y * 10 ^ e + 72 / 10 ^ 8 * x := by
        apply add_le_add _ hscaled
        exact hprinted.trans (by gcongr)
    _ = 54 / 10 ^ 8 * (y * 10 ^ e) + 72 / 10 ^ 8 * x := by ring
    _ ≤ 54 / 10 ^ 8 * (x * (1 + 72 / 10 ^ 8)) + 72 / 10 ^ 8 * x := by gcongr
    _ ≤ 13 / 10 ^ 7 * x := by linarith

theorem close_of_large (hx : IsBinary32 x) (hlarge : 10 ^ 7 ≤ x) : Close (of x).value x := by
  have hpos : 0 < x := lt_of_lt_of_le (by norm_num) hlarge
  have hstart : Lowers x 6 0 (x, 0) := by
    refine ⟨⟨hx.representable, hpos.le, ?_⟩, ?_, ?_⟩
    · simpa using Within.refl 24 x
    · norm_num at hlarge ⊢
      linarith
    · have hlt := (hx.bounds hpos).2
      norm_num at hlt ⊢
      linarith
  have hend := hstart.normalizeDown hpos.le
  have hnormalize : normalize x = normalizeDown 6 (x, 0) := if_pos hlarge
  rw [← hnormalize] at hend
  apply hend.toDenotes.close hpos.le
  · exact le_trans (by norm_num) hend.low
  · exact hend.high.trans_lt (by norm_num)

theorem le_negativeExponentiationThreshold : 1 / 10 ^ 5 ≤ negativeExponentiationThreshold := by
  decide +kernel

theorem close_of_small (hx : IsBinary32 x) (hpos : 0 < x)
    (hsmall : x ≤ negativeExponentiationThreshold) : Close (of x).value x := by
  have hthreshold := negativeExponentiationThreshold_lt
  have hstart : Raises x 6 0 (x, 0) := by
    refine ⟨⟨hx.representable, hpos.le, ?_⟩, ?_, ?_⟩
    · simpa using Within.refl 24 x
    · have hge := (hx.bounds hpos).1
      norm_num at hge ⊢
      linarith
    · norm_num
      linarith
  have hend := hstart.normalizeUp hpos.le
  have hnormalize : normalize x = normalizeUp 6 (x, 0) := by
    rw [normalize, if_neg, if_pos ⟨hpos, hsmall⟩]
    rw [positiveExponentiationThreshold]
    linarith
  rw [← hnormalize] at hend
  apply hend.toDenotes.close hpos.le
  · exact le_trans (by norm_num) hend.low
  · exact hend.high.trans_lt (by norm_num)

/-- Every float is printed near itself. -/
theorem close_value (hx : IsBinary32 x) (hnonneg : 0 ≤ x) : Close (of x).value x := by
  rcases le_or_gt (10 ^ 7) x with hlarge | hordinary
  · exact close_of_large hx hlarge
  by_cases hsmall : 0 < x ∧ x ≤ negativeExponentiationThreshold
  · exact close_of_small hx hsmall.1 hsmall.2
  have hlow : 0 < x → negativeExponentiationThreshold < x := fun hpos =>
    not_le.mp fun hle => hsmall ⟨hpos, hle⟩
  have hprinted := abs_value_sub_le (normalize_eq hlow hordinary) hx.representable hnonneg
    fun h => absurd rfl h
  rw [zpow_zero, mul_one, mul_one] at hprinted
  rcases le_or_gt 1 x with hone | hfraction
  · have hplace := last_place_le (y := x) (by linarith) hordinary
    refine Or.inl ?_
    rw [abs_of_nonneg hnonneg]
    linarith
  · have hdigit : truncate x = 0 := by
      rw [truncate, Int.floor_eq_zero_iff.mpr ⟨hnonneg, hfraction⟩]
      rfl
    rw [hdigit, placesFor_of_lt (by decide)] at hprinted
    rcases hnonneg.eq_or_lt with rfl | hpos
    · refine Or.inl ?_
      have hzero := of_natCast (i := 0) (by norm_num)
      rw [Nat.cast_zero] at hzero
      simp [hzero, value]
    · refine Or.inr ⟨?_, ?_, hprinted⟩
      · rw [abs_of_nonneg hnonneg]
        exact le_negativeExponentiationThreshold.trans_lt (hlow hpos)
      · rwa [abs_of_nonneg hnonneg]

end FloatParts

namespace JsonWriter

/-- What a float is printed as, with its sign, is near it. -/
theorem close_printed {x : ℚ} (hx : IsBinary32 x) : FloatParts.Close (printed x) x := by
  rw [printed]
  split_ifs with hneg
  · have hclose := FloatParts.close_value hx.neg (neg_nonneg.mpr hneg.le)
    have hflip : |-(FloatParts.of (-x)).value - x| = |(FloatParts.of (-x)).value - -x| := by
      rw [← abs_neg]
      congr 1
      ring
    rw [FloatParts.Close, abs_neg] at hclose
    rwa [FloatParts.Close, hflip]
  · exact FloatParts.close_value hx (not_lt.mp hneg)

end JsonWriter

/-! ## Round trip -/

namespace JsonVariant

/-- Not a NaN and no infinity. -/
def Finite : JsonVariant → Prop
  | .float stored => ∃ x, stored = some x ∧ IsBinary32 x
  | .integer _ => True

/-- The number stands for the value. -/
def Stands : JsonVariant → Json (List Char) → Prop
  | .float stored, found => ∃ x y, stored = some x ∧ found = .number y ∧ FloatParts.Close y x
  | .integer n, found => found = .number n

/-- The number that a reader finds for a value. -/
def readBack : JsonVariant → Json (List Char)
  | .float stored => .number (JsonWriter.printed (stored.getD 0))
  | .integer n => .number n

theorem Finite.atom {v : JsonVariant} (h : v.Finite) :
    Json.Atom (JsonWriter.writeVariant v) v.readBack := by
  cases v with
  | float stored =>
      obtain ⟨x, rfl, -⟩ := h
      exact JsonWriter.atom_writeFloat x
  | integer n => exact JsonWriter.atom_intText n

theorem Finite.stands {v : JsonVariant} (h : v.Finite) : v.Stands v.readBack := by
  cases v with
  | float stored =>
      obtain ⟨x, rfl, hx⟩ := h
      exact ⟨x, JsonWriter.printed x, rfl, rfl, JsonWriter.close_printed hx⟩
  | integer n => rfl

end JsonVariant

open JsonWriter

/-- A large float, a tiny one below zero, and names that need escapes. -/
def sampleObject : List (List Char × JsonVariant) :=
  [("a\tb".toList, .float (some (3 * 2 ^ 30))),
    ("\"c\"".toList, .float (some (-5 / 2 ^ 140))), ("n".toList, .integer (-7))]

end Arduino
