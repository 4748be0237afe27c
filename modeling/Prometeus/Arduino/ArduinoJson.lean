import Prometeus.Arduino.DHTesp
import Prometeus.Foundation.Decimal

/-! # ArduinoJson

The writer of ArduinoJson 5 in its embedded mode, where numbers are floats: how a
float is split into the digits that are printed, and the sink that cuts what does not fit.
-/

namespace Arduino

open Rounding Decimal

/-! ## FloatParts -/

structure FloatParts where
  integral : ℕ
  decimal : ℕ
  exponent : ℤ
  decimalPlaces : ℕ
deriving DecidableEq, Repr

namespace FloatParts

def positiveBinaryPowerOfTen (index : ℕ) : ℚ := binary32 (10 ^ 2 ^ index)

def negativeBinaryPowerOfTen (index : ℕ) : ℚ := binary32 (1 / 10 ^ 2 ^ index)

def negativeBinaryPowerOfTenPlusOne (index : ℕ) : ℚ := binary32 (10 / 10 ^ 2 ^ index)

def positiveExponentiationThreshold : ℚ := 10 ^ 7

def negativeExponentiationThreshold : ℚ := binary64 (1 / 10 ^ 5)

/-- The first loop of `normalize`, down from an index. -/
def normalizeDown : ℕ → ℚ × ℤ → ℚ × ℤ
  | 0, state => state
  | index + 1, (value, powersOf10) =>
      normalizeDown index <|
        if positiveBinaryPowerOfTen index ≤ value then
          (binary32 (value * negativeBinaryPowerOfTen index), powersOf10 + 2 ^ index)
        else
          (value, powersOf10)

/-- The second loop. -/
def normalizeUp : ℕ → ℚ × ℤ → ℚ × ℤ
  | 0, state => state
  | index + 1, (value, powersOf10) =>
      normalizeUp index <|
        if value < negativeBinaryPowerOfTenPlusOne index then
          (binary32 (value * positiveBinaryPowerOfTen index), powersOf10 - 2 ^ index)
        else
          (value, powersOf10)

/-- The value brought into the range that is printed without an exponent, and the exponent. -/
def normalize (value : ℚ) : ℚ × ℤ :=
  if positiveExponentiationThreshold ≤ value then
    normalizeDown 6 (value, 0)
  else if 0 < value ∧ value ≤ negativeExponentiationThreshold then
    normalizeUp 6 (value, 0)
  else
    (value, 0)

/-- `for (tmp = integral; tmp >= 10; tmp /= 10)`: the decimal places left beside the integral part,
of the `places` that `10 ^ places` allows. -/
def placesFor : ℕ → ℕ → ℕ
  | 0, _ => 0
  | places + 1, tmp => if 10 ≤ tmp then placesFor places (tmp / 10) else places + 1

/-- `while (decimal % 10 == 0 && decimalPlaces > 0)` -/
def trimZeros : ℕ → ℕ → ℕ × ℕ
  | decimal, 0 => (decimal, 0)
  | decimal, places + 1 =>
      if decimal % 10 = 0 then trimZeros (decimal / 10) places else (decimal, places + 1)

/-- `uint32_t(value)` -/
def truncate (value : ℚ) : ℕ := ⌊value⌋.toNat

/-- The digits behind the point, rounded, before trailing zeros are removed. -/
def roundedDecimal (value : ℚ) (integral maxDecimalPart : ℕ) : ℕ :=
  let remainder := binary32 (binary32 (value - integral) * maxDecimalPart)
  let decimal := truncate remainder
  decimal + truncate (binary32 (binary32 (remainder - decimal) * 2))

/-- `FloatParts(value)` of a nonnegative float. -/
def of (value : ℚ) : FloatParts :=
  let (value, exponent) := normalize value
  let integral := truncate value
  let decimalPlaces := placesFor 6 integral
  let maxDecimalPart := 10 ^ decimalPlaces
  let decimal := roundedDecimal value integral maxDecimalPart
  if maxDecimalPart ≤ decimal then
    if exponent ≠ 0 ∧ 10 ≤ integral + 1 then
      ⟨1, 0, exponent + 1, 0⟩
    else
      ⟨integral + 1, 0, exponent, 0⟩
  else
    let (decimal, decimalPlaces) := trimZeros decimal decimalPlaces
    ⟨integral, decimal, exponent, decimalPlaces⟩

end FloatParts

/-! ## JsonWriter -/

inductive JsonVariant
  | float (value : Single)
  | integer (value : ℤ)
deriving DecidableEq, Repr

namespace JsonWriter

def writeInteger (value : ℕ) : List Char := Nat.toDigits 10 value

def writeDecimals (value width : ℕ) : List Char := '.' :: pad width value

def writeParts (parts : FloatParts) : List Char :=
  writeInteger parts.integral ++
    (if parts.decimalPlaces ≠ 0 then writeDecimals parts.decimal parts.decimalPlaces else []) ++
    (if parts.exponent < 0 then "e-".toList ++ writeInteger parts.exponent.natAbs
    else if 0 < parts.exponent then 'e' :: writeInteger parts.exponent.natAbs
    else [])

def writeFloat : Single → List Char
  | none => "NaN".toList
  | some value =>
      if value < 0 then '-' :: writeParts (FloatParts.of (-value)) else writeParts (FloatParts.of value)

def writeVariant : JsonVariant → List Char
  | .float value => writeFloat value
  | .integer value => intText value

/-- The character that a special one is written as behind a backslash. -/
def escapeChar (c : Char) : Option Char :=
  match c.toNat with
  | 0x22 => some '"'
  | 0x5C => some '\\'
  | 0x08 => some 'b'
  | 0x0C => some 'f'
  | 0x0A => some 'n'
  | 0x0D => some 'r'
  | 0x09 => some 't'
  | _ => none

def writeChar (c : Char) : List Char :=
  match escapeChar c with
  | some special => ['\\', special]
  | none => [c]

def writeString (value : List Char) : List Char := '"' :: (value.flatMap writeChar ++ ['"'])

/-- The members of an object, with a comma between them. -/
def writeMembers : List (List Char × JsonVariant) → List Char
  | [] => []
  | [(key, value)] => writeString key ++ ':' :: writeVariant value
  | (key, value) :: rest => writeString key ++ ':' :: writeVariant value ++ ',' :: writeMembers rest

/-- `serialize(object)` -/
def writeObject (members : List (List Char × JsonVariant)) : List Char :=
  '{' :: (writeMembers members ++ ['}'])

end JsonWriter

/-- A sink over `size` characters, the last of which is for the NUL. -/
structure StaticStringBuilder where
  size : ℕ
  text : List Char := []

namespace StaticStringBuilder

/-- `print(c)`: dropped once the buffer is full. -/
def printChar (sb : StaticStringBuilder) (c : Char) : StaticStringBuilder :=
  if sb.text.length + 1 < sb.size then { sb with text := sb.text ++ [c] } else sb

def print (sb : StaticStringBuilder) (s : List Char) : StaticStringBuilder := s.foldl printChar sb

theorem print_print (sb : StaticStringBuilder) (s t : List Char) :
    (sb.print s).print t = sb.print (s ++ t) :=
  (List.foldl_append).symm

/-- What a sink holds is the part of the text that fits. -/
theorem print_text (sb : StaticStringBuilder) (s : List Char)
    (hroom : sb.text.length ≤ sb.size - 1) :
    (sb.print s).text = (sb.text ++ s).take (sb.size - 1) := by
  induction s generalizing sb with
  | nil => simp [print, List.take_of_length_le hroom]
  | cons c s ih =>
      change ((sb.printChar c).print s).text = _
      by_cases hfits : sb.text.length + 1 < sb.size
      · have hchar : sb.printChar c = { sb with text := sb.text ++ [c] } := if_pos hfits
        rw [hchar, ih _ (by simp; omega)]
        simp
      · have hchar : sb.printChar c = sb := if_neg hfits
        have hfull : sb.size - 1 ≤ sb.text.length := by omega
        rw [hchar, ih _ hroom, List.take_append_of_le_length hfull,
          List.take_append_of_le_length hfull]

end StaticStringBuilder

/-- `object.printTo(buffer, size)`: the characters in the buffer. -/
def printTo (members : List (List Char × JsonVariant)) (size : ℕ) : List Char :=
  (({ size } : StaticStringBuilder).print (JsonWriter.writeObject members)).text

theorem printTo_eq_take (members : List (List Char × JsonVariant)) (size : ℕ) :
    printTo members size = (JsonWriter.writeObject members).take (size - 1) := by
  rw [printTo, StaticStringBuilder.print_text _ _ (Nat.zero_le _)]
  rfl

end Arduino
