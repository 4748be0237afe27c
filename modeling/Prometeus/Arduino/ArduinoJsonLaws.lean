import Mathlib.Tactic.FieldSimp
import Prometeus.Arduino.ArduinoJson
import Prometeus.Foundation.JsonText

/-! # What the writer of ArduinoJson means

The text of an object reads back to its members, each with the number that its digits
denote. A float that stores tenths below a thousand is printed as these tenths.
-/

namespace Arduino

open Rounding Decimal

namespace FloatParts

/-- The number that the parts denote. -/
def value (parts : FloatParts) : ℚ :=
  (parts.integral + parts.decimal / 10 ^ parts.decimalPlaces) * 10 ^ parts.exponent

/-! ## Trailing zeros -/

theorem trimZeros_lt {decimal places : ℕ} (h : decimal < 10 ^ places) :
    (trimZeros decimal places).1 < 10 ^ (trimZeros decimal places).2 := by
  induction places generalizing decimal with
  | zero => exact h
  | succ places ih =>
      rw [trimZeros]
      split_ifs
      · apply ih
        rw [pow_succ] at h
        omega
      · exact h

@[simp] theorem trimZeros_zero (places : ℕ) : trimZeros 0 places = (0, 0) := by
  induction places with
  | zero => rfl
  | succ places ih => simpa [trimZeros] using ih

theorem trimZeros_of_ne {decimal places : ℕ} (h : decimal % 10 ≠ 0) :
    trimZeros decimal places = (decimal, places) := by
  cases places with
  | zero => rfl
  | succ places => simp [trimZeros, h]

theorem trimZeros_mul_pow (decimal places k : ℕ) :
    trimZeros (decimal * 10 ^ k) (places + k) = trimZeros decimal places := by
  induction k with
  | zero => simp
  | succ k ih =>
      have hmod : decimal * 10 ^ (k + 1) % 10 = 0 := by
        rw [pow_succ, ← mul_assoc]
        omega
      have hdiv : decimal * 10 ^ (k + 1) / 10 = decimal * 10 ^ k := by
        rw [pow_succ, ← mul_assoc]
        omega
      rw [← add_assoc, trimZeros, if_pos hmod, hdiv, ih]

theorem trimZeros_div (decimal places : ℕ) :
    ((trimZeros decimal places).1 : ℚ) / 10 ^ (trimZeros decimal places).2 =
      decimal / 10 ^ places := by
  induction places generalizing decimal with
  | zero => rfl
  | succ places ih =>
      rw [trimZeros]
      split_ifs with hzero
      · have hten : (decimal : ℚ) = (decimal / 10 : ℕ) * 10 := by
          exact_mod_cast (Nat.div_mul_cancel (Nat.dvd_of_mod_eq_zero hzero)).symm
        rw [ih, hten, pow_succ, mul_div_mul_right _ _ (by norm_num)]
      · rfl

/-- The decimals that are printed fit in their places. -/
theorem decimal_lt (x : ℚ) : (of x).decimal < 10 ^ (of x).decimalPlaces := by
  rw [of]
  dsimp only
  split_ifs with hcarry
  · simp
  · simp
  · exact trimZeros_lt (by omega)

end FloatParts

/-! ## Round trip -/

namespace JsonWriter

open Json

def exponentText (exponent : ℤ) : List Char :=
  if exponent < 0 then "e-".toList ++ writeInteger exponent.natAbs
  else if 0 < exponent then 'e' :: writeInteger exponent.natAbs
  else []

/-- A float is a decimal text with an exponent. -/
theorem writeParts_eq {parts : FloatParts} (h : parts.decimal < 10 ^ parts.decimalPlaces) :
    writeParts parts =
      text false (parts.integral * 10 ^ parts.decimalPlaces + parts.decimal) parts.decimalPlaces ++
        exponentText parts.exponent := by
  have hintegral : (parts.integral * 10 ^ parts.decimalPlaces + parts.decimal) /
      10 ^ parts.decimalPlaces = parts.integral := by
    rw [Nat.mul_comm, Nat.mul_add_div (by positivity), Nat.div_eq_of_lt h, Nat.add_zero]
  rw [writeParts, text, pad_mul_add, hintegral]
  by_cases hplaces : parts.decimalPlaces = 0
  · simp [hplaces, writeInteger, exponentText]
  · simp [hplaces, writeInteger, writeDecimals, exponentText]

theorem noDigit_exponentText (exponent : ℤ) {rest : List Char} (hrest : Delimited rest) :
    NoDigit (exponentText exponent ++ rest) ∧ (exponentText exponent ++ rest).head? ≠ some '.' := by
  rw [exponentText]
  split_ifs
  · exact ⟨fun c hc => by rw [← Option.some.inj hc]; rfl, by simp⟩
  · exact ⟨fun c hc => by rw [← Option.some.inj hc]; rfl, by simp⟩
  · refine ⟨hrest.noDigit, ?_⟩
    rcases hrest.cases with rfl | ⟨c, tail, rfl, -, hc, -⟩
    · simp
    · simpa using hc

theorem parseExponent_exponentText (exponent : ℤ) {rest : List Char} (hrest : Delimited rest) :
    parseExponent (exponentText exponent ++ rest) = some (exponent, rest) := by
  have hdigits : parseDigits (writeInteger exponent.natAbs ++ rest) =
      some (writeInteger exponent.natAbs, rest) :=
    parseDigits_append (fun c hc => isDigit_of_mem_toDigits hc) Nat.toDigits_ne_nil hrest.noDigit
  have hvalue : Nat.ofDigitChars 10 (writeInteger exponent.natAbs) 0 = exponent.natAbs :=
    Nat.ofDigitChars_ten_toDigits
  rw [exponentText]
  split_ifs with hneg hpos
  · have hsigned : parseExponent ("e-".toList ++ writeInteger exponent.natAbs ++ rest) =
        parseSigned ('-' :: (writeInteger exponent.natAbs ++ rest)) := rfl
    rw [hsigned, parseSigned, hdigits, Option.map_some]
    simp only [hvalue, Option.some.injEq, Prod.mk.injEq, and_true]
    omega
  · have hsigned : parseExponent ('e' :: writeInteger exponent.natAbs ++ rest) =
        parseSigned (writeInteger exponent.natAbs ++ rest) := rfl
    rw [hsigned, parseSigned_of_digits hdigits, hvalue]
    simp only [Option.some.injEq, Prod.mk.injEq, and_true]
    omega
  · have hzero : exponent = 0 := by omega
    rw [hzero]
    exact hrest.parseExponent

theorem parts_value_eq (parts : FloatParts) :
    Decimal.value false (parts.integral * 10 ^ parts.decimalPlaces + parts.decimal)
      parts.decimalPlaces * 10 ^ parts.exponent = parts.value := by
  rw [Decimal.value, FloatParts.value]
  push_cast
  field_simp

/-- What a float is printed as. -/
def printed (x : ℚ) : ℚ := if x < 0 then -(FloatParts.of (-x)).value else (FloatParts.of x).value

theorem writeFloat_eq (x : ℚ) :
    ∃ parts : FloatParts, parts.decimal < 10 ^ parts.decimalPlaces ∧
      writeFloat (some x) = (if x < 0 then ['-'] else []) ++ writeParts parts ∧
      printed x = (if x < 0 then -1 else 1) * parts.value := by
  by_cases hx : x < 0
  · exact ⟨_, FloatParts.decimal_lt (-x), by simp [writeFloat, hx], by simp [printed, hx]⟩
  · exact ⟨_, FloatParts.decimal_lt x, by simp [writeFloat, hx], by simp [printed, hx]⟩

theorem atom_writeFloat (x : ℚ) : Atom (writeFloat (some x)) (.number (printed x)) := by
  obtain ⟨parts, hlt, htext, hprinted⟩ := writeFloat_eq x
  have hsplit : writeFloat (some x) = text (decide (x < 0))
      (parts.integral * 10 ^ parts.decimalPlaces + parts.decimal) parts.decimalPlaces ++
        exponentText parts.exponent := by
    rw [htext, writeParts_eq hlt]
    by_cases hx : x < 0 <;> simp [hx, text]
  have hvalue : printed x = Decimal.value (decide (x < 0))
      (parts.integral * 10 ^ parts.decimalPlaces + parts.decimal) parts.decimalPlaces *
        10 ^ parts.exponent := by
    rw [hprinted, ← parts_value_eq]
    by_cases hx : x < 0 <;> simp [hx, Decimal.value]
  rw [hsplit, hvalue]
  apply atom_number
  · intro rest
    rw [List.append_assoc]
    exact numeric_text _ _ _ _
  · intro rest hrest
    rw [List.append_assoc]
    obtain ⟨hdigit, hpoint⟩ := noDigit_exponentText parts.exponent hrest
    exact parseNumber_text _ _ _ hdigit hpoint (parseExponent_exponentText _ hrest)

theorem atom_intText (n : ℤ) : Atom (intText n) (.number n) := by
  have hvalue : (n : ℚ) = Decimal.value (decide (n < 0)) n.natAbs 0 := by
    rw [Decimal.value, Nat.cast_natAbs]
    by_cases hn : n < 0
    · simp [hn, abs_of_neg hn]
    · simp [hn, abs_of_nonneg (not_lt.mp hn)]
  rw [intText_eq_text, hvalue]
  exact atom_text _ _ _

/-! ### Strings -/

/-- A character that the writer leaves readable: all but most control characters. -/
def Readable (c : Char) : Prop := escapeChar c ≠ none ∨ ¬c.toNat < 0x20

theorem unescape_of_escapeChar {c special : Char} (h : escapeChar c = some special) :
    unescape special = some c := by
  have hc : c = Char.ofNat c.toNat := (Char.ofNat_toNat c).symm
  rw [escapeChar] at h
  split at h
  case h_8 => cases h
  all_goals
    next hcode =>
      rw [hcode] at hc
      rw [hc, ← Option.some.inj h]
      rfl

theorem plain_of_readable {c : Char} (hc : Readable c) (hnone : escapeChar c = none) : Plain c := by
  refine ⟨?_, ?_, hc.resolve_left fun h => h hnone⟩
  · rintro rfl
    cases hnone
  · rintro rfl
    cases hnone

theorem parseChar_writeChar {c : Char} (hc : Readable c) (rest : List Char) :
    parseChar (writeChar c ++ rest) = some (c, rest) ∧ ∃ d tail, writeChar c = d :: tail ∧ d ≠ '"' := by
  cases hescape : escapeChar c with
  | none =>
      have hplain := plain_of_readable hc hescape
      have htext : writeChar c = [c] := by rw [writeChar, hescape]
      rw [htext]
      exact ⟨parseChar_plain hplain rest, c, [], rfl, hplain.1⟩
  | some special =>
      have htext : writeChar c = ['\\', special] := by rw [writeChar, hescape]
      rw [htext]
      exact ⟨parseChar_escape (unescape_of_escapeChar hescape) rest, '\\', [special], rfl, by decide⟩

theorem quoted_writeString {chars : List Char} (h : ∀ c ∈ chars, Readable c) :
    Quoted (writeString chars) chars :=
  quoted_flatMap fun c hc rest => parseChar_writeChar (h c hc) rest

/-! ### Objects -/

theorem writeMembers_eq (members : List (List Char × JsonVariant)) :
    writeMembers members =
      joinMembers (members.map fun member => (writeString member.1, writeVariant member.2)) := by
  induction members with
  | nil => rfl
  | cons member rest ih =>
      cases rest with
      | nil => rfl
      | cons next rest =>
          rw [writeMembers, ih]
          · rfl
          · simp

/-- What a reader finds for a member. -/
def Reads (member : List Char × JsonVariant) (found : List Char × Json (List Char)) : Prop :=
  (∀ c ∈ member.1, Readable c) ∧ found.1 = member.1 ∧ Atom (writeVariant member.2) found.2

theorem parse_writeObject {members : List (List Char × JsonVariant)}
    {found : List (List Char × Json (List Char))} (h : List.Forall₂ Reads members found) :
    parse (writeObject members) = some (.object found) := by
  rw [writeObject, writeMembers_eq]
  apply parse_object
  rw [List.forall₂_map_left_iff]
  refine h.imp fun member found hreads => ?_
  obtain ⟨hkey, hname, hvalue⟩ := hreads
  refine ⟨?_, hvalue⟩
  rw [hname]
  exact quoted_writeString hkey

end JsonWriter

/-- What is printed into a buffer reads as the object that was written when it fits with its NUL, and
as nothing when it was cut. -/
theorem parse_printTo {members : List (List Char × JsonVariant)}
    {found : List (List Char × Json (List Char))}
    (h : List.Forall₂ JsonWriter.Reads members found) (size : ℕ) :
    Json.parse (printTo members size) =
      if (JsonWriter.writeObject members).length < size then some (.object found) else none := by
  have hparse := JsonWriter.parse_writeObject h
  rw [printTo_eq_take]
  split_ifs with hfits
  · rw [List.take_of_length_le (Nat.le_sub_one_of_lt hfits), hparse]
  · rcases Nat.eq_zero_or_pos (size - 1) with hzero | hpos
    · rw [hzero]
      rfl
    · obtain ⟨n, hn⟩ := Nat.exists_eq_add_of_lt hpos
      rw [Nat.zero_add] at hn
      have hwritten : JsonWriter.writeObject members =
          '\x7b' :: (JsonWriter.writeMembers members ++ ['\x7d']) := rfl
      generalize hbody : JsonWriter.writeMembers members ++ ['\x7d'] = body at hwritten
      rw [hwritten, hn, List.take_succ_cons]
      rw [hwritten, ← List.take_append_drop n body] at hparse
      apply Json.parse_cut hparse
      have hlength : body.length = (JsonWriter.writeMembers members).length + 1 := by
        rw [← hbody, List.length_append, List.length_singleton]
      rw [hwritten, List.length_cons] at hfits
      -- the closing brace is among what was cut off
      have hdrop : body.drop n = (JsonWriter.writeMembers members).drop n ++ ['\x7d'] := by
        rw [← hbody, List.drop_append_of_le_length (by omega)]
      rw [hdrop, Json.skipSpace, List.dropWhile_append]
      split_ifs <;> simp [Json.isSpace]

/-! ## Accuracy

A float splits exactly into its integer part and the rest; what is printed errs by
the scaling of the rest and the rounding of its last digit.
-/

namespace FloatParts

/-- What is left behind the point, scaled to the places that are printed. -/
def remainder (x : ℚ) (M : ℕ) : ℚ := binary32 ((x - truncate x) * M)

theorem truncate_eq {x : ℚ} (hpos : 0 ≤ x) : (truncate x : ℚ) = ⌊x⌋ := by
  rw [truncate]
  exact_mod_cast Int.toNat_of_nonneg (Int.floor_nonneg.mpr hpos)

theorem remainder_nonneg {x : ℚ} (hpos : 0 ≤ x) (M : ℕ) : 0 ≤ remainder x M := by
  rw [remainder, truncate_eq hpos]
  exact roundTo_nonneg (mul_nonneg (Int.fract_nonneg x) M.cast_nonneg)

theorem fract_nonneg {x : ℚ} (hpos : 0 ≤ x) : 0 ≤ x - truncate x ∧ x - truncate x < 1 := by
  rw [truncate_eq hpos]
  exact ⟨Int.fract_nonneg x, Int.fract_lt_one x⟩

theorem remainder_le {x : ℚ} (hpos : 0 ≤ x) {M : ℕ} (hM : M < 2 ^ 24) : remainder x M ≤ M := by
  obtain ⟨hnonneg, hlt⟩ := fract_nonneg hpos
  have hle : (x - truncate x) * M ≤ M := mul_le_of_le_one_left M.cast_nonneg hlt.le
  rcases eq_or_lt_of_le (mul_nonneg hnonneg (M.cast_nonneg (α := ℚ))) with hzero | hscaled
  · rw [remainder, ← hzero, binary32, roundTo_zero]
    exact M.cast_nonneg
  · calc remainder x M ≤ binary32 M := roundTo_mono (by norm_num) hscaled hle
      _ = M := binary32_natCast hM

/-- Splitting a float into its integer part and the rest is exact, and so is doubling the rest. -/
theorem roundedDecimal_split {x : ℚ} (hx : Representable 24 x) (hpos : 0 ≤ x) (M : ℕ) :
    roundedDecimal x (truncate x) M =
      truncate (remainder x M) + truncate ((remainder x M - truncate (remainder x M)) * 2) := by
  have hsub : binary32 (x - truncate x) = x - truncate x := by
    rw [truncate_eq hpos]
    exact roundTo_of_representable (hx.sub_floor hpos)
  have hfrac : Representable 24 (remainder x M - truncate (remainder x M)) := by
    rw [truncate_eq (remainder_nonneg hpos M)]
    exact (representable_roundTo (by norm_num) _).sub_floor (remainder_nonneg hpos M)
  have hsame : binary32 (remainder x M - truncate (remainder x M)) =
      remainder x M - truncate (remainder x M) := roundTo_of_representable hfrac
  have hdouble : binary32 ((remainder x M - truncate (remainder x M)) * 2) =
      (remainder x M - truncate (remainder x M)) * 2 := roundTo_of_representable hfrac.mul_two
  rw [roundedDecimal, hsub]
  change truncate (remainder x M) +
    truncate (binary32 (binary32 (remainder x M - truncate (remainder x M)) * 2)) = _
  rw [hsame, hdouble]

/-- The digits behind the point are the nearest whole number to the scaled remainder. -/
theorem abs_roundedDecimal_sub_le {x : ℚ} (hx : Representable 24 x) (hpos : 0 ≤ x) (M : ℕ) :
    |(roundedDecimal x (truncate x) M : ℚ) - remainder x M| ≤ 1 / 2 := by
  have hr := remainder_nonneg hpos M
  have hlow := Int.floor_le (remainder x M)
  have hhigh := Int.lt_floor_add_one (remainder x M)
  rw [← truncate_eq hr] at hlow hhigh
  rw [roundedDecimal_split hx hpos, Nat.cast_add]
  by_cases hhalf : (remainder x M - truncate (remainder x M)) * 2 < 1
  · have hzero : ⌊(remainder x M - truncate (remainder x M)) * 2⌋ = 0 := by
      rw [Int.floor_eq_iff]
      constructor <;> push_cast <;> linarith
    have htruncate : truncate ((remainder x M - truncate (remainder x M)) * 2) = 0 := by
      rw [truncate, hzero]
      rfl
    rw [htruncate, Nat.cast_zero, abs_le]
    constructor <;> linarith
  · have hone : ⌊(remainder x M - truncate (remainder x M)) * 2⌋ = 1 := by
      rw [Int.floor_eq_iff]
      constructor <;> push_cast <;> linarith
    have htruncate : truncate ((remainder x M - truncate (remainder x M)) * 2) = 1 := by
      rw [truncate, hone]
      rfl
    rw [htruncate, Nat.cast_one, abs_le]
    constructor <;> linarith

theorem roundedDecimal_eq {x : ℚ} (hx : Representable 24 x) (hpos : 0 ≤ x) {M d : ℕ}
    (h : |remainder x M - d| < 1 / 2) : roundedDecimal x (truncate x) M = d := by
  have hnear : |((roundedDecimal x (truncate x) M : ℤ) - (d : ℤ) : ℚ)| < 1 := by
    push_cast
    calc |(roundedDecimal x (truncate x) M : ℚ) - d|
        ≤ |(roundedDecimal x (truncate x) M : ℚ) - remainder x M| + |remainder x M - d| :=
          abs_sub_le _ _ _
      _ < 1 / 2 + 1 / 2 := add_lt_add_of_le_of_lt (abs_roundedDecimal_sub_le hx hpos M) h
      _ = 1 := by norm_num
  have hint : |(roundedDecimal x (truncate x) M : ℤ) - d| < 1 := by exact_mod_cast hnear
  rw [Int.abs_lt_one_iff] at hint
  omega

theorem negativeExponentiationThreshold_lt : negativeExponentiationThreshold < 1 / 20 := by
  decide +kernel

/-- Numbers of the ordinary range are printed without an exponent. -/
theorem normalize_eq {x : ℚ} (hlow : 0 < x → negativeExponentiationThreshold < x)
    (hhigh : x < 10 ^ 7) : normalize x = (x, 0) := by
  have hsmall : ¬(0 < x ∧ x ≤ negativeExponentiationThreshold) := by
    rintro ⟨hpos, hle⟩
    exact absurd (hlow hpos) (not_lt.mpr hle)
  have hlarge : ¬positiveExponentiationThreshold ≤ x := not_le.mpr hhigh
  rw [normalize, if_neg hlarge, if_neg hsmall]

theorem of_eq {x y : ℚ} {e : ℤ} (hnormalize : normalize x = (y, e)) {i d : ℕ}
    (hi : truncate y = i) (hd : roundedDecimal y i (10 ^ placesFor 6 i) = d)
    (hlt : d < 10 ^ placesFor 6 i) :
    of x = ⟨i, (trimZeros d (placesFor 6 i)).1, e, (trimZeros d (placesFor 6 i)).2⟩ := by
  rw [of, hnormalize]
  simp only [hi, hd, if_neg (not_le.mpr hlt)]

/-- When all the nines round up, the integer part takes the carry, and gives it to the exponent
when it becomes ten. -/
theorem of_eq_carry {x y : ℚ} {e : ℤ} (hnormalize : normalize x = (y, e)) {i d : ℕ}
    (hi : truncate y = i) (hd : roundedDecimal y i (10 ^ placesFor 6 i) = d)
    (hle : 10 ^ placesFor 6 i ≤ d) :
    of x = if e ≠ 0 ∧ 10 ≤ i + 1 then ⟨1, 0, e + 1, 0⟩ else ⟨i + 1, 0, e, 0⟩ := by
  rw [of, hnormalize]
  simp only [hi, hd, if_pos hle]

theorem truncate_natCast (i : ℕ) : truncate i = i := by
  rw [truncate, Int.floor_natCast]
  rfl

/-- Whole numbers are printed as such. -/
theorem of_natCast {i : ℕ} (hi : i < 10 ^ 7) : of i = ⟨i, 0, 0, 0⟩ := by
  have hrep : Representable 24 (i : ℚ) :=
    representable_natCast (hi.trans (by norm_num))
  have hzero : roundedDecimal i i (10 ^ placesFor 6 i) = 0 := by
    have hrounded := roundedDecimal_eq hrep i.cast_nonneg (M := 10 ^ placesFor 6 i) (d := 0)
      (by simp [remainder, truncate_natCast, binary32])
    rwa [truncate_natCast] at hrounded
  have hone : (0 : ℚ) < i → (1 / 20 : ℚ) ≤ i := by
    intro hpos
    have hcast : (1 : ℚ) ≤ i := by exact_mod_cast Nat.cast_pos.mp hpos
    linarith
  have hnormalize : normalize (i : ℚ) = ((i : ℚ), 0) := by
    apply normalize_eq _ (by exact_mod_cast hi)
    intro hpos
    have hbound := negativeExponentiationThreshold_lt
    linarith [hone hpos]
  rw [of_eq hnormalize (truncate_natCast i) hzero (by positivity), trimZeros_zero]

theorem placesFor_le (places tmp : ℕ) : placesFor places tmp ≤ places := by
  induction places generalizing tmp with
  | zero => rfl
  | succ places ih =>
      rw [placesFor]
      split_ifs
      · exact (ih _).trans (Nat.le_succ places)
      · exact le_rfl

theorem pow_placesFor_le (i : ℕ) : 10 ^ placesFor 6 i ≤ 10 ^ 6 :=
  Nat.pow_le_pow_right (by decide) (placesFor_le 6 i)

theorem pow_placesFor_lt (i : ℕ) : 10 ^ placesFor 6 i < 2 ^ 24 :=
  (pow_placesFor_le i).trans_lt (by norm_num)

/-- The digits behind the point are off by at most 17/32 of a unit. -/
theorem abs_roundedDecimal_sub_scaled_le {x : ℚ} (hx : Representable 24 x) (hpos : 0 ≤ x) {M : ℕ}
    (hM : 0 < M) (hle : M ≤ 10 ^ 6) :
    |(roundedDecimal x (truncate x) M : ℚ) - (x - truncate x) * M| ≤ 17 / 32 := by
  obtain ⟨hnonneg, hlt⟩ := fract_nonneg hpos
  have hMpos : (0 : ℚ) < M := by exact_mod_cast hM
  have hMle : (M : ℚ) ≤ 10 ^ 6 := by exact_mod_cast hle
  have hscaled : |(x - truncate x) * M| < 10 ^ 6 := by
    rw [abs_of_nonneg (mul_nonneg hnonneg hMpos.le)]
    exact (mul_lt_of_lt_one_left hMpos hlt).trans_le hMle
  have hround : |remainder x M - (x - truncate x) * M| ≤ 1 / 32 := by
    have hbound := abs_binary32_sub_le 19 hscaled (by norm_num)
    norm_num at hbound ⊢
    exact hbound
  calc |(roundedDecimal x (truncate x) M : ℚ) - (x - truncate x) * M|
      ≤ |(roundedDecimal x (truncate x) M : ℚ) - remainder x M| +
          |remainder x M - (x - truncate x) * M| := abs_sub_le _ _ _
    _ ≤ 1 / 2 + 1 / 32 := add_le_add (abs_roundedDecimal_sub_le hx hpos M) hround
    _ = 17 / 32 := by norm_num

/-- A number from ten on has no nines to round up, when it is far from eleven. -/
theorem lt_nine_of_carry {y : ℚ} (hy : Representable 24 y) (hpos : 0 ≤ y) (hlt : y < 21 / 2) {i : ℕ}
    (hi : truncate y = i) (hle : 10 ^ placesFor 6 i ≤ roundedDecimal y i (10 ^ placesFor 6 i)) :
    i ≤ 9 := by
  by_contra hten
  have hfloor := truncate_eq hpos
  rw [hi] at hfloor
  have hge : (10 : ℚ) ≤ i := by exact_mod_cast Nat.lt_of_not_le hten
  have hyge : (i : ℚ) ≤ y := hfloor ▸ Int.floor_le y
  have hi10 : i = 10 := by
    have hcast : (i : ℚ) < 11 := by linarith
    have hnat : i < 11 := by exact_mod_cast hcast
    omega
  subst hi10
  have hplaces : placesFor 6 10 = 5 := rfl
  have herror := abs_roundedDecimal_sub_scaled_le hy hpos (M := 10 ^ placesFor 6 10) (by positivity)
    (pow_placesFor_le 10)
  rw [hi, hplaces, abs_le] at herror
  rw [hplaces] at hle
  have hcast : ((10 ^ 5 : ℕ) : ℚ) ≤ roundedDecimal y 10 (10 ^ 5) := by exact_mod_cast hle
  push_cast at herror hcast
  linarith [herror.2]

/-- The number that is printed: the integer part and the rounded digits, scaled back. -/
theorem value_of {x y : ℚ} {e : ℤ} (hnormalize : normalize x = (y, e)) (hy : Representable 24 y)
    (hpos : 0 ≤ y) (hten : e ≠ 0 → y < 21 / 2) :
    (of x).value = (truncate y +
      (roundedDecimal y (truncate y) (10 ^ placesFor 6 (truncate y)) : ℚ) /
        10 ^ placesFor 6 (truncate y)) * 10 ^ e := by
  generalize hi : truncate y = i
  generalize hd : roundedDecimal y i (10 ^ placesFor 6 i) = d
  by_cases hcarry : 10 ^ placesFor 6 i ≤ d
  · have hall : d = 10 ^ placesFor 6 i := by
      apply le_antisymm _ hcarry
      have hnear := abs_roundedDecimal_sub_le hy hpos (10 ^ placesFor 6 i)
      have hle := remainder_le hpos (pow_placesFor_lt i)
      rw [hi, hd, abs_le] at hnear
      have hcast : (d : ℚ) < (10 ^ placesFor 6 i : ℕ) + 1 := by linarith
      have hnat : d < 10 ^ placesFor 6 i + 1 := by exact_mod_cast hcast
      omega
    rw [of_eq_carry hnormalize hi hd hcarry, hall]
    split_ifs with hgives
    · have hnine : i = 9 := by
        have hle := lt_nine_of_carry hy hpos (hten hgives.1) hi (hd ▸ hcarry)
        omega
      rw [value, hnine, zpow_add₀ (by norm_num)]
      norm_num
      ring
    · rw [value]
      simp
  · rw [of_eq hnormalize hi hd (not_le.mp hcarry), value, trimZeros_div]

/-- What is printed is off by at most 17/32 of a unit of the last place. -/
theorem abs_value_sub_le {x y : ℚ} {e : ℤ} (hnormalize : normalize x = (y, e))
    (hy : Representable 24 y) (hpos : 0 ≤ y) (hten : e ≠ 0 → y < 21 / 2) :
    |(of x).value - y * 10 ^ e| ≤ 17 / 32 / 10 ^ placesFor 6 (truncate y) * 10 ^ e := by
  have hsplit := value_of hnormalize hy hpos hten
  have herror := abs_roundedDecimal_sub_scaled_le hy hpos
    (M := 10 ^ placesFor 6 (truncate y)) (by positivity) (pow_placesFor_le _)
  generalize hM : 10 ^ placesFor 6 (truncate y) = M at hsplit herror
  have hMpos : (0 : ℚ) < M := by rw [← hM]; positivity
  have hMcast : (10 : ℚ) ^ placesFor 6 (truncate y) = M := by rw [← hM]; push_cast; rfl
  have hscale : (0 : ℚ) < 10 ^ e := zpow_pos (by norm_num) e
  rw [hsplit, hMcast, ← sub_mul, abs_mul, abs_of_pos hscale]
  gcongr
  rw [le_div_iff₀ hMpos, ← abs_of_pos hMpos, ← abs_mul, abs_of_pos hMpos]
  have hfactor : (truncate y + (roundedDecimal y (truncate y) M : ℚ) / M - y) * M =
      roundedDecimal y (truncate y) M - (y - truncate y) * M := by
    field_simp
    ring
  rw [hfactor]
  exact herror

end FloatParts

/-! ## Tenths

`n / 10` is rounded when it is stored in a float, and again when the printer scales what
follows the point. Below a thousand both errors stay under half of the last digit that is
printed.
-/

namespace FloatParts

/-- A number near `i + m / 10` is printed as that when the error stays, after it is scaled to `k + 1`
places and rounded once more, under one half. -/
theorem of_near {i m k : ℕ} (hi : i < 1000) (hm : 0 < m) (hm10 : m < 10) {x ε η : ℚ}
    (hx : Representable 24 x) (hnear : |x - (i + m / 10)| ≤ ε) (hε : ε ≤ 1 / 20)
    (hplaces : placesFor 6 i = k + 1)
    (hround : ∀ z : ℚ, |z| < 10 ^ (k + 1) → |binary32 z - z| ≤ η)
    (hsum : ε * 10 ^ (k + 1) + η < 1 / 2) : of x = ⟨i, m, 0, 1⟩ := by
  obtain ⟨hlow, hhigh⟩ := abs_le.mp hnear
  have hone : (1 : ℚ) ≤ m := by exact_mod_cast hm
  have hnine : (m : ℚ) ≤ 9 := by exact_mod_cast Nat.le_of_lt_succ hm10
  have hi0 : (0 : ℚ) ≤ i := i.cast_nonneg
  have hi1000 : (i : ℚ) < 1000 := by exact_mod_cast hi
  have hfloor : ⌊x⌋ = i := by
    rw [Int.floor_eq_iff, Int.cast_natCast]
    constructor <;> linarith
  have htruncate : truncate x = i := by
    rw [truncate, hfloor]
    rfl
  have hpow : (0 : ℚ) < 10 ^ (k + 1) := by positivity
  -- the scaled remainder, exact and as a float
  have hscaled : |(x - i) * 10 ^ (k + 1) - m * 10 ^ k| ≤ ε * 10 ^ (k + 1) := by
    have hfactor : (x - i) * 10 ^ (k + 1) - m * 10 ^ k = (x - (i + m / 10)) * 10 ^ (k + 1) := by
      rw [pow_succ]
      ring
    rw [hfactor, abs_mul, abs_of_pos hpow]
    gcongr
  have hbounded : |(x - i) * 10 ^ (k + 1)| < 10 ^ (k + 1) := by
    have hfract : |x - i| < 1 := by
      rw [abs_lt]
      constructor <;> linarith
    rw [abs_mul, abs_of_pos hpow]
    exact mul_lt_of_lt_one_left hpow hfract
  have hrounded : roundedDecimal x i (10 ^ placesFor 6 i) = m * 10 ^ k := by
    rw [hplaces, ← htruncate]
    apply roundedDecimal_eq hx (by linarith)
    rw [remainder, htruncate]
    push_cast
    calc |binary32 ((x - i) * 10 ^ (k + 1)) - m * 10 ^ k|
        ≤ |binary32 ((x - i) * 10 ^ (k + 1)) - (x - i) * 10 ^ (k + 1)| +
            |(x - i) * 10 ^ (k + 1) - m * 10 ^ k| := abs_sub_le _ _ _
      _ ≤ η + ε * 10 ^ (k + 1) := add_le_add (hround _ hbounded) hscaled
      _ < 1 / 2 := by linarith
  have hlt : m * 10 ^ k < 10 ^ placesFor 6 i := by
    rw [hplaces, pow_succ']
    gcongr
  have htrim : trimZeros (m * 10 ^ k) (placesFor 6 i) = (m, 1) := by
    rw [hplaces, Nat.add_comm k 1, trimZeros_mul_pow]
    exact trimZeros_of_ne (by omega)
  have hbound := negativeExponentiationThreshold_lt
  have hnormalize : normalize x = (x, 0) := normalize_eq (fun _ => by linarith) (by linarith)
  rw [of_eq hnormalize htruncate hrounded hlt, htrim]

theorem placesFor_of_lt {i : ℕ} (hi : i < 10) : placesFor 6 i = 6 := by
  rw [placesFor, if_neg (by omega)]

theorem placesFor_of_lt_hundred {i : ℕ} (h10 : 10 ≤ i) (hi : i < 100) : placesFor 6 i = 5 := by
  rw [placesFor, if_pos h10, placesFor, if_neg (by omega)]

theorem placesFor_of_lt_thousand {i : ℕ} (h100 : 100 ≤ i) (hi : i < 1000) : placesFor 6 i = 4 := by
  rw [placesFor, if_pos (by omega), placesFor, if_pos (by omega), placesFor, if_neg (by omega)]

/-- From 8 to 10 the bound on the rounding errors is too wide for six places, but the errors of
these numbers are smaller. -/
theorem of_tenths_from_eight : ∀ i < 10, 8 ≤ i → ∀ m < 10, 0 < m →
    of (binary32 ((i : ℕ) + (m : ℕ) / 10)) = ⟨i, m, 0, 1⟩ := by
  decide +kernel

/-- A float that stores tenths is printed with one decimal. -/
theorem of_tenths {i m : ℕ} (hi : i < 1000) (hm : 0 < m) (hm10 : m < 10) :
    of (binary32 (i + m / 10)) = ⟨i, m, 0, 1⟩ := by
  have hrep : Representable 24 (binary32 (i + m / 10)) := representable_roundTo (by norm_num) _
  have hm1 : (m : ℚ) < 10 := by exact_mod_cast hm10
  have habs : |(i : ℚ) + m / 10| = i + m / 10 := abs_of_nonneg (by positivity)
  rcases Nat.lt_or_ge i 8 with h8 | h8
  · have hcast : (i : ℚ) ≤ 7 := by exact_mod_cast Nat.le_of_lt_succ h8
    have hstored := abs_binary32_sub_le 2 (x := (i : ℚ) + m / 10) (b := 8)
      (by rw [habs]; linarith) (by norm_num)
    exact of_near hi hm hm10 hrep hstored (by norm_num) (placesFor_of_lt (by omega))
      (fun z hz => abs_binary32_sub_le 19 hz (by norm_num)) (by norm_num)
  rcases Nat.lt_or_ge i 10 with h10 | h10
  · exact of_tenths_from_eight i h10 h8 m hm10 hm
  rcases Nat.lt_or_ge i 100 with h100 | h100
  · have hcast : (i : ℚ) ≤ 99 := by exact_mod_cast Nat.le_of_lt_succ h100
    have hstored := abs_binary32_sub_le 6 (x := (i : ℚ) + m / 10) (b := 100)
      (by rw [habs]; linarith) (by norm_num)
    exact of_near hi hm hm10 hrep hstored (by norm_num) (placesFor_of_lt_hundred h10 h100)
      (fun z hz => abs_binary32_sub_le 16 hz (by norm_num)) (by norm_num)
  · have hcast : (i : ℚ) ≤ 999 := by exact_mod_cast Nat.le_of_lt_succ hi
    have hstored := abs_binary32_sub_le 9 (x := (i : ℚ) + m / 10) (b := 1000)
      (by rw [habs]; linarith) (by norm_num)
    exact of_near hi hm hm10 hrep hstored (by norm_num) (placesFor_of_lt_thousand h100 hi)
      (fun z hz => abs_binary32_sub_le 13 hz (by norm_num)) (by norm_num)

theorem tenths_split (n : ℕ) : (n : ℚ) / 10 = (n / 10 : ℕ) + ((n % 10 : ℕ) : ℚ) / 10 := by
  have hdiv : (n : ℚ) = 10 * (n / 10 : ℕ) + (n % 10 : ℕ) := by exact_mod_cast (Nat.div_add_mod n 10).symm
  linarith

theorem of_tenths_eq {n : ℕ} (hn : n < 10000) :
    of (binary32 (n / 10)) =
      if n % 10 = 0 then ⟨n / 10, 0, 0, 0⟩ else ⟨n / 10, n % 10, 0, 1⟩ := by
  have hquot : n / 10 < 1000 := by omega
  rw [tenths_split]
  by_cases hdigit : n % 10 = 0
  · rw [hdigit, if_pos rfl, Nat.cast_zero, zero_div, add_zero,
      binary32_natCast (hquot.trans (by norm_num))]
    exact of_natCast (hquot.trans (by norm_num))
  · rw [if_neg hdigit]
    exact of_tenths hquot (Nat.pos_of_ne_zero hdigit) (Nat.mod_lt n (by decide))

end FloatParts

namespace JsonWriter

/-- A float of tenths, with a sign. -/
def signedTenths (negative : Bool) (n : ℕ) : ℚ := (if negative then -1 else 1) * binary32 (n / 10)

variable {n : ℕ}

/-- A sign is written for what is below zero; minus zero is not. -/
theorem signedTenths_cases (negative : Bool) (n : ℕ) :
    (negative = true ∧ 0 < n) ∧ signedTenths negative n < 0 ∧
        signedTenths negative n = -binary32 (n / 10) ∨
      ¬(negative = true ∧ 0 < n) ∧ ¬signedTenths negative n < 0 ∧
        signedTenths negative n = binary32 (n / 10) := by
  rcases Nat.eq_zero_or_pos n with rfl | hn
  · right
    simp [signedTenths, binary32]
  · have hpos : 0 < binary32 (n / 10) := roundTo_pos (by norm_num) (by positivity)
    cases negative with
    | false =>
        right
        simp [signedTenths, hpos.le]
    | true =>
        left
        simp [signedTenths, hpos, hn]

theorem writeFloat_signedTenths (negative : Bool) (n : ℕ) :
    writeFloat (some (signedTenths negative n)) =
      (if negative = true ∧ 0 < n then ['-'] else []) ++
        writeParts (FloatParts.of (binary32 (n / 10))) := by
  rcases signedTenths_cases negative n with ⟨hneg, hlt, hvalue⟩ | ⟨hneg, hlt, hvalue⟩
  · rw [writeFloat, if_pos hlt, if_pos hneg, hvalue, neg_neg]
    rfl
  · rw [writeFloat, if_neg hlt, if_neg hneg, hvalue]
    rfl

/-- Tenths are printed exactly. -/
theorem printed_signedTenths (negative : Bool) (hn : n < 10000) :
    printed (signedTenths negative n) = Decimal.value negative n 1 := by
  have hparts : (FloatParts.of (binary32 (n / 10))).value = n / 10 := by
    rw [FloatParts.of_tenths_eq hn, FloatParts.tenths_split]
    by_cases hdigit : n % 10 = 0 <;> simp [hdigit, FloatParts.value]
  rcases signedTenths_cases negative n with ⟨⟨rfl, -⟩, hlt, hvalue⟩ | ⟨hneg, hlt, hvalue⟩
  · rw [printed, if_pos hlt, hvalue, neg_neg, hparts, Decimal.value]
    simp
  · rw [printed, if_neg hlt, hvalue, hparts, Decimal.value]
    rcases Nat.eq_zero_or_pos n with rfl | hn
    · simp
    · have hfalse : negative = false := by simpa [hn] using hneg
      simp [hfalse]

/-- A sign, the digits before the point, and the point with one digit unless that is zero. -/
theorem length_writeFloat_signedTenths (negative : Bool) (hn : n < 10000) :
    (writeFloat (some (signedTenths negative n))).length =
      (if negative = true ∧ 0 < n then 1 else 0) + (Nat.toDigits 10 (n / 10)).length +
        if n % 10 = 0 then 0 else 2 := by
  rw [writeFloat_signedTenths, FloatParts.of_tenths_eq hn]
  by_cases hdigit : n % 10 = 0 <;> by_cases hneg : negative = true ∧ 0 < n <;>
    simp [hdigit, hneg, writeParts, writeInteger, writeDecimals] <;> omega

end JsonWriter

end Arduino
