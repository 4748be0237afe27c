import Prometeus.Arduino.ArduinoJsonLaws
import Prometeus.Sketches.Pairing

/-! # The payloads of the greenhouse sketch

Every reading is written twice, by `sprintf` into a message for the external broker and by
ArduinoJson into the buffer for the local one. Both texts are read back here, for every report that
the sensors can give.
-/

namespace Sketches.Invernadero

open Arduino Script Sketch Mqtt PubSubClient Rounding Decimal Json JsonWriter

/-! ## Reports of the sensors -/

/-- The report of the readings that an iteration took: the frames of its temperature and humidity,
`ValorSensor` above 300, and the echo time. -/
def reportOf (f g : Frame) (v t : ℕ) : Report where
  temperatura := f.temperature11
  humedad := g.humidity11
  valorSensor := (300 + v : ℕ)
  voltajeUV := voltaje (300 + v : ℕ)
  distancia := t / 59

theorem Genuine.exists_eq {r : Report} (h : Genuine r) :
    ∃ f g v t, v < 100 ∧ t ≤ pulseTimeout ∧ r = reportOf f g v t := by
  obtain ⟨f, hf⟩ := h.temperatura
  obtain ⟨g, hg⟩ := h.humedad
  obtain ⟨v, hv, hvalor, hvoltaje⟩ := h.radiacion
  obtain ⟨t, ht, hdistancia⟩ := h.distancia
  refine ⟨f, g, v, t, hv, ht, ?_⟩
  rw [hvalor] at hvoltaje
  cases r
  simp_all [reportOf]

/-! ## The external messages -/

/-- A text whose head and middle are put together from the texts of members. -/
theorem joinMembers_four {opened between : List Char} {k₁ v₁ k₂ k₃ v₃ k₄ : List Char}
    (name value : List Char)
    (hopened : opened = '\x7b' :: (k₁ ++ ':' :: v₁ ++ ',' :: (k₂ ++ [':', '"'])))
    (hbetween : between = '"' :: ',' :: (k₃ ++ ':' :: v₃ ++ ',' :: (k₄ ++ [':', ' ']))) :
    opened ++ name ++ between ++ value ++ ['\x7d'] = '\x7b' :: (joinMembers
      [(k₁, v₁), (k₂, '"' :: (name ++ ['"'])), (k₃, v₃), (k₄, ' ' :: value)] ++ ['\x7d']) := by
  rw [hopened, hbetween]
  simp [joinMembers]

theorem message_eq (name : String) (value : List Char) :
    message name value = '\x7b' :: (joinMembers
      [("\"from\"".toList, "\"device\"".toList),
        ("\"message\"".toList, '"' :: (name.toList ++ ['"'])),
        ("\"save\"".toList, "true".toList),
        ("\"value\"".toList, ' ' :: value)] ++ ['\x7d']) :=
  joinMembers_four name.toList value (by decide +kernel) (by decide +kernel)

theorem quoted_literal {text s : String} (htext : text.toList = '"' :: (s.toList ++ ['"']))
    (hs : PlainText s) : Quoted text.toList s.toList := by
  rw [htext]
  exact quoted_plain hs.plain

/-- What a reader finds in an external message. -/
def messageFields (name : String) (x : ℚ) : List (List Char × Json (List Char)) :=
  [("from".toList, .string "device".toList), ("message".toList, .string name.toList),
    ("save".toList, .bool true), ("value".toList, .number x)]

theorem parse_message {name : String} {value : List Char} {x : ℚ}
    (hname : PlainText name) (hvalue : Atom value (.number x)) :
    parse (message name value) = some (.object (messageFields name x)) := by
  rw [message_eq]
  apply parse_object
  have hfrom : Quoted "\"from\"".toList "from".toList :=
    quoted_literal (by decide +kernel) (by decide +kernel)
  have hdevice : Quoted "\"device\"".toList "device".toList :=
    quoted_literal (by decide +kernel) (by decide +kernel)
  have hmessage : Quoted "\"message\"".toList "message".toList :=
    quoted_literal (by decide +kernel) (by decide +kernel)
  have hsave : Quoted "\"save\"".toList "save".toList :=
    quoted_literal (by decide +kernel) (by decide +kernel)
  have hkey : Quoted "\"value\"".toList "value".toList :=
    quoted_literal (by decide +kernel) (by decide +kernel)
  refine .cons ⟨hfrom, hdevice.atom⟩ (.cons ⟨hmessage, (quoted_plain hname.plain).atom⟩ ?_)
  exact .cons ⟨hsave, atom_true⟩ (.cons ⟨hkey, hvalue.space⟩ .nil)

/-- The number in the member "value" of an object. -/
def valueOf (text : List Char) : Option ℚ :=
  match parse text with
  | some (.object members) =>
      match members.find? fun member => member.1 = "value".toList with
      | some (_, .number x) => some x
      | _ => none
  | _ => none

theorem valueOf_message {name : String} {value : List Char} {x : ℚ}
    (hname : PlainText name) (hvalue : Atom value (.number x)) :
    valueOf (message name value) = some x := by
  rw [valueOf, parse_message hname hvalue]
  rfl

/-! ## Two decimals -/

/-- What `String::concat(float)` makes of a float. -/
def hundredths (x : ℚ) : ℚ := Decimal.value (decide (x < 0)) ⌊|x| * 100 + 1 / 2⌋.toNat 2

theorem atom_twoDecimals (x : ℚ) : Atom (twoDecimals x) (.number (hundredths x)) :=
  atom_text _ _ _

theorem hundredths_natCast (n : ℕ) : hundredths n = n := by
  have hfloor : ⌊(n : ℚ) * 100 + 1 / 2⌋ = (n * 100 : ℕ) := by
    rw [Int.floor_eq_iff]
    constructor <;> push_cast <;> linarith
  have hneg : ¬(n : ℚ) < 0 := not_lt.mpr n.cast_nonneg
  rw [hundredths, abs_of_nonneg n.cast_nonneg, hfloor, Int.toNat_natCast, Decimal.value,
    decide_eq_false hneg]
  push_cast
  norm_num

theorem floor_tenths {n : ℕ} (hn : n < 10000) :
    ⌊binary32 (n / 10) * 100 + 1 / 2⌋ = (10 * n : ℕ) := by
  have hcast : (n : ℚ) < 10000 := by exact_mod_cast hn
  have hstored : |binary32 ((n : ℚ) / 10) - n / 10| ≤ 2 ^ (9 - 23 : ℤ) / 2 := by
    apply abs_binary32_sub_le 9 (b := 1000) _ (by norm_num)
    rw [abs_of_nonneg (by positivity)]
    linarith
  obtain ⟨hlow, hhigh⟩ := abs_le.mp hstored
  norm_num at hlow hhigh
  rw [Int.floor_eq_iff]
  constructor <;> push_cast <;> linarith

/-- Tenths are written with a zero behind them. -/
theorem twoDecimals_parts (negative : Bool) {n : ℕ} (hn : n < 10000) :
    decide (signedTenths negative n < 0) = decide (negative = true ∧ 0 < n) ∧
      ⌊|signedTenths negative n| * 100 + 1 / 2⌋.toNat = 10 * n := by
  have hnonneg : 0 ≤ binary32 ((n : ℚ) / 10) := roundTo_nonneg (by positivity)
  rcases signedTenths_cases negative n with ⟨hneg, hlt, hvalue⟩ | ⟨hneg, hlt, hvalue⟩
  · rw [decide_eq_true hlt, decide_eq_true hneg, hvalue, abs_neg, abs_of_nonneg hnonneg,
      floor_tenths hn]
    exact ⟨rfl, rfl⟩
  · rw [decide_eq_false hlt, decide_eq_false hneg, hvalue, abs_of_nonneg hnonneg, floor_tenths hn]
    exact ⟨rfl, rfl⟩

theorem hundredths_signedTenths (negative : Bool) {n : ℕ} (hn : n < 10000) :
    hundredths (signedTenths negative n) = Decimal.value negative n 1 := by
  obtain ⟨hsign, hfloor⟩ := twoDecimals_parts negative hn
  rw [hundredths, hsign, hfloor, Decimal.value, Decimal.value]
  rcases Nat.eq_zero_or_pos n with rfl | hpos
  · simp
  · simp only [hpos, and_true, decide_eq_true_eq]
    push_cast
    ring

theorem length_twoDecimals_signedTenths (negative : Bool) {n : ℕ} (hn : n < 10000) :
    (twoDecimals (signedTenths negative n)).length ≤ 7 := by
  obtain ⟨hsign, hfloor⟩ := twoDecimals_parts negative hn
  have hdigits : (Nat.toDigits 10 (10 * n / 10 ^ 2)).length ≤ 3 :=
    length_toDigits_of_lt (by omega) (by decide)
  have hminus : (if decide (negative = true ∧ 0 < n) then ['-'] else []).length ≤ 1 := by
    split <;> simp
  rw [twoDecimals, hsign, hfloor, Decimal.text, if_neg (show (2 : ℕ) ≠ 0 by decide)]
  simp only [List.length_append, List.length_cons, length_pad]
  omega

/-! ## The local object -/

namespace Report

/-- What a reader finds in the whole text of the local object. -/
def fields (r : Report) : List (List Char × Json (List Char)) :=
  [("temperatura".toList, .number (printed r.temperatura)),
    ("humedad".toList, .number (printed r.humedad)),
    ("voltajeradiacion".toList, .number (printed r.valorSensor)),
    ("valorradiacion".toList, .number (printed r.voltajeUV)),
    ("agua".toList, .number r.distancia)]

theorem reads_float {key : String} (hkey : PlainText key) (x : ℚ) :
    Reads (key.toList, .float (some x)) (key.toList, .number (printed x)) :=
  ⟨fun c hc => Or.inr (hkey.plain c hc).2.2, rfl, atom_writeFloat x⟩

theorem reads_fields (r : Report) : List.Forall₂ Reads r.members r.fields := by
  refine .cons (reads_float (by decide +kernel) _) (.cons (reads_float (by decide +kernel) _) ?_)
  refine .cons (reads_float (by decide +kernel) _) (.cons (reads_float (by decide +kernel) _) ?_)
  refine .cons ⟨fun c hc => Or.inr ?_, rfl, atom_intText _⟩ .nil
  have hagua : PlainText "agua" := by decide +kernel
  exact (hagua.plain c hc).2.2

theorem parse_jsonMessage (r : Report) :
    parse r.jsonMessage =
      if (writeObject r.members).length < jsonMessageBufferSize then some (.object r.fields)
      else none :=
  parse_printTo r.reads_fields _

/-- The text up to the last value. -/
def front (r : Report) : List Char :=
  "\x7b\"temperatura\":".toList ++ writeFloat (some r.temperatura) ++
    (",\"humedad\":".toList ++ writeFloat (some r.humedad)) ++
    (",\"voltajeradiacion\":".toList ++ writeFloat (some r.valorSensor)) ++
    (",\"valorradiacion\":".toList ++ writeFloat (some r.voltajeUV)) ++ ",\"agua\":".toList

end Report

/-- The text of an object, from what stands between its values. -/
theorem writeObject_five {k₁ k₂ k₃ k₄ k₅ p₁ p₂ p₃ p₄ p₅ : List Char} {v₁ v₂ v₃ v₄ v₅ : JsonVariant}
    (h₁ : p₁ = '\x7b' :: (writeString k₁ ++ [':'])) (h₂ : p₂ = ',' :: (writeString k₂ ++ [':']))
    (h₃ : p₃ = ',' :: (writeString k₃ ++ [':'])) (h₄ : p₄ = ',' :: (writeString k₄ ++ [':']))
    (h₅ : p₅ = ',' :: (writeString k₅ ++ [':'])) :
    writeObject [(k₁, v₁), (k₂, v₂), (k₃, v₃), (k₄, v₄), (k₅, v₅)] =
      p₁ ++ writeVariant v₁ ++ (p₂ ++ writeVariant v₂) ++ (p₃ ++ writeVariant v₃) ++
        (p₄ ++ writeVariant v₄) ++ p₅ ++ (writeVariant v₅ ++ ['\x7d']) := by
  rw [h₁, h₂, h₃, h₄, h₅]
  simp [writeObject, writeMembers]

theorem length_five {p₁ p₂ p₃ p₄ p₅ : List Char} {n₁ n₂ n₃ n₄ n₅ : ℕ} (t₁ t₂ t₃ t₄ : List Char)
    (h₁ : p₁.length = n₁) (h₂ : p₂.length = n₂) (h₃ : p₃.length = n₃) (h₄ : p₄.length = n₄)
    (h₅ : p₅.length = n₅) :
    (p₁ ++ t₁ ++ (p₂ ++ t₂) ++ (p₃ ++ t₃) ++ (p₄ ++ t₄) ++ p₅).length =
      n₁ + n₂ + n₃ + n₄ + n₅ + t₁.length + t₂.length + t₃.length + t₄.length := by
  simp only [List.length_append, h₁, h₂, h₃, h₄, h₅]
  omega

namespace Report

theorem writeObject_eq (r : Report) :
    writeObject r.members = r.front ++ (Nat.toDigits 10 r.distancia ++ ['\x7d']) := by
  rw [← intText_natCast]
  exact writeObject_five (by decide +kernel) (by decide +kernel) (by decide +kernel)
    (by decide +kernel) (by decide +kernel)

theorem length_front (r : Report) :
    r.front.length = 72 + (writeFloat (some r.temperatura)).length +
      (writeFloat (some r.humedad)).length + (writeFloat (some r.valorSensor)).length +
      (writeFloat (some r.voltajeUV)).length := by
  have htemperatura : "\x7b\"temperatura\":".toList.length = 15 := by decide +kernel
  have hhumedad : ",\"humedad\":".toList.length = 11 := by decide +kernel
  have hvoltaje : ",\"voltajeradiacion\":".toList.length = 20 := by decide +kernel
  have hvalor : ",\"valorradiacion\":".toList.length = 18 := by decide +kernel
  have hagua : ",\"agua\":".toList.length = 8 := by decide +kernel
  exact length_five _ _ _ _ htemperatura hhumedad hvoltaje hvalor hagua

end Report

/-! ## The UV sensor -/

/-- The values of the UV sensor whose voltage has at most five decimals. -/
def shortVoltages : List ℕ := [313, 320, 327, 345, 352, 359, 377, 384, 391]

theorem length_voltage : ∀ v < 100, if 300 + v ∈ shortVoltages then
    (writeFloat (some (voltaje (300 + v : ℕ)))).length ≤ 7
    else (writeFloat (some (voltaje (300 + v : ℕ)))).length = 8 := by
  decide +kernel

/-- The voltages are well within one digit before the point. -/
theorem voltage_bounds : ∀ v < 100, |voltaje (300 + v : ℕ) - 5| ≤ 4 := by
  decide +kernel

/-- What two decimals say is off by half a hundredth at most. -/
theorem abs_hundredths_sub_le {x : ℚ} (hx : 0 ≤ x) : |hundredths x - x| ≤ 1 / 200 := by
  have hlow := Int.floor_le (x * 100 + 1 / 2)
  have hhigh := Int.lt_floor_add_one (x * 100 + 1 / 2)
  have hfloor : ((⌊x * 100 + 1 / 2⌋.toNat : ℕ) : ℚ) = ⌊x * 100 + 1 / 2⌋ := by
    exact_mod_cast Int.toNat_of_nonneg (Int.floor_nonneg.mpr (by positivity))
  rw [hundredths, abs_of_nonneg hx, decide_eq_false (not_lt.mpr hx), Decimal.value, hfloor, abs_le]
  norm_num
  constructor <;> linarith

theorem length_twoDecimals_of_lt {x : ℚ} {k : ℕ} (hx : 0 ≤ x) (hk : 0 < k)
    (hlt : x * 100 + 1 / 2 < 10 ^ k * 100) : (twoDecimals x).length ≤ k + 3 := by
  have hfloor : ⌊x * 100 + 1 / 2⌋.toNat < 10 ^ k * 10 ^ 2 := by
    rw [Int.toNat_lt (Int.floor_nonneg.mpr (by positivity)), Int.floor_lt]
    push_cast
    norm_num
    linarith
  have hdigits : (Nat.toDigits 10 (⌊x * 100 + 1 / 2⌋.toNat / 10 ^ 2)).length ≤ k :=
    length_toDigits_of_lt (Nat.div_lt_of_lt_mul (hfloor.trans_eq (mul_comm _ _))) hk
  rw [twoDecimals, abs_of_nonneg hx, decide_eq_false (not_lt.mpr hx), Decimal.text,
    if_neg (show (2 : ℕ) ≠ 0 by decide)]
  simpa using hdigits

/-- Both texts of a voltage say the same to a hundredth. -/
theorem abs_printed_voltage_sub_le {v : ℕ} (hv : v < 100) :
    |printed (voltaje (300 + v : ℕ)) - hundredths (voltaje (300 + v : ℕ))| ≤ 1 / 100 := by
  obtain ⟨hlow, hhigh⟩ := abs_le.mp (voltage_bounds v hv)
  have hfloat : Representable 24 (voltaje (300 + v : ℕ)) := representable_roundTo (by norm_num) _
  generalize voltaje (300 + v : ℕ) = x at hlow hhigh hfloat ⊢
  have hpos : 0 ≤ x := by linarith
  have hprinted : |printed x - x| ≤ 17 / 32 / 10 ^ 6 := by
    have hdigit : FloatParts.truncate x < 10 := by
      rw [FloatParts.truncate, Int.toNat_lt (Int.floor_nonneg.mpr hpos), Int.floor_lt]
      push_cast
      linarith
    have hthreshold := FloatParts.negativeExponentiationThreshold_lt
    have hnormalize := FloatParts.normalize_eq (x := x) (fun _ => by linarith) (by linarith)
    have haccurate := FloatParts.abs_value_sub_le hnormalize hfloat hpos (fun h => absurd rfl h)
    rw [FloatParts.placesFor_of_lt hdigit, zpow_zero, mul_one, mul_one] at haccurate
    rwa [printed, if_neg (not_lt.mpr hpos)]
  have htwo := abs_hundredths_sub_le hpos
  calc |printed x - hundredths x| ≤ |printed x - x| + |x - hundredths x| := abs_sub_le _ _ _
    _ ≤ 17 / 32 / 10 ^ 6 + 1 / 200 := add_le_add hprinted (by rwa [abs_sub_comm])
    _ ≤ 1 / 100 := by norm_num

/-! ## What fits -/

def msgBufferSize : ℕ := 80

/-- The texts of a report fit: the messages with their NUL into `msg`, the object into
`JSONmessageBuffer`, and every packet into the buffer of the client. -/
structure Fits (r : Report) : Prop where
  messages : ∀ message ∈ r.messages, message.2.length + 1 ≤ msgBufferSize
  whole : parse r.jsonMessage = some (.object r.fields)
  packets : ∀ message ∈ (localTopic, r.jsonMessage) :: r.messages,
    tooLong message.1 (ascii message.2) = false

/-- The readings whose object takes a hundred characters, one more than there are. -/
structure Overlong (f g : Frame) (v t : ℕ) : Prop where
  below : f.belowZero = true
  temperature : 1000 ≤ f.temperatureTenths ∧ f.temperatureTenths % 10 ≠ 0
  humidity : 1000 ≤ g.humidityTenths ∧ g.humidityTenths % 10 ≠ 0
  voltage : 300 + v ∉ shortVoltages
  distance : 590000 ≤ t

section

variable {f g : Frame} {v t : ℕ}

theorem temperature11_eq_signedTenths (f : Frame) :
    f.temperature11 = signedTenths f.belowZero f.temperatureTenths :=
  f.temperature11_eq

theorem humidity11_eq_signedTenths (f : Frame) :
    f.humidity11 = signedTenths false f.humidityTenths := by
  rw [f.humidity11_eq, signedTenths]
  simp

theorem length_toDigits_tenths {n : ℕ} (hn : n < 10000) :
    (Nat.toDigits 10 (n / 10)).length ≤ 3 ∧
      ((Nat.toDigits 10 (n / 10)).length = 3 ↔ 1000 ≤ n) := by
  have hthree : (Nat.toDigits 10 (n / 10)).length ≤ 3 :=
    length_toDigits_of_lt (by omega) (by decide)
  have htwo := Nat.length_toDigits_le_iff (b := 10) (n := n / 10) (k := 2) (by decide) (by decide)
  omega

theorem length_temperature (f : Frame) : (writeFloat (some f.temperature11)).length ≤ 6 ∧
    ((writeFloat (some f.temperature11)).length = 6 ↔
      f.belowZero = true ∧ 1000 ≤ f.temperatureTenths ∧ f.temperatureTenths % 10 ≠ 0) := by
  have hle := f.temperatureTenths_le
  obtain ⟨hdigits, hthree⟩ := length_toDigits_tenths (n := f.temperatureTenths) (by omega)
  rw [temperature11_eq_signedTenths, length_writeFloat_signedTenths _ (by omega)]
  cases f.belowZero with
  | true =>
      simp only [true_and]
      split <;> split <;> omega
  | false =>
      simp only [Bool.false_eq_true, false_and, ↓reduceIte, iff_false]
      split <;> omega

theorem length_humidity (g : Frame) : (writeFloat (some g.humidity11)).length ≤ 5 ∧
    ((writeFloat (some g.humidity11)).length = 5 ↔
      1000 ≤ g.humidityTenths ∧ g.humidityTenths % 10 ≠ 0) := by
  have hle := g.humidityTenths_le
  obtain ⟨hdigits, hthree⟩ := length_toDigits_tenths (n := g.humidityTenths) (by omega)
  rw [humidity11_eq_signedTenths, length_writeFloat_signedTenths _ (by omega), if_neg (by simp)]
  split <;> omega

theorem writeFloat_natCast {n : ℕ} (hn : n < 10 ^ 7) :
    writeFloat (some (n : ℚ)) = Nat.toDigits 10 n := by
  rw [writeFloat, if_neg (not_lt.mpr n.cast_nonneg), FloatParts.of_natCast hn]
  simp [writeParts, writeInteger]

theorem length_valorSensor (hv : v < 100) :
    (writeFloat (some ((300 + v : ℕ) : ℚ))).length = 3 := by
  have hthree := Nat.length_toDigits_le_iff (b := 10) (n := 300 + v) (k := 3) (by decide) (by decide)
  have htwo := Nat.length_toDigits_le_iff (b := 10) (n := 300 + v) (k := 2) (by decide) (by decide)
  rw [writeFloat_natCast (by omega)]
  omega

theorem length_distancia (ht : t ≤ pulseTimeout) :
    (Nat.toDigits 10 (t / 59)).length ≤ 5 ∧
      ((Nat.toDigits 10 (t / 59)).length = 5 ↔ 590000 ≤ t) := by
  rw [pulseTimeout] at ht
  have hfive := Nat.length_toDigits_le_iff (b := 10) (n := t / 59) (k := 5) (by decide) (by decide)
  have hfour := Nat.length_toDigits_le_iff (b := 10) (n := t / 59) (k := 4) (by decide) (by decide)
  omega

/-- The object has a hundred characters at most, and that many only for certain readings. -/
theorem length_writeObject_reportOf (hv : v < 100) (ht : t ≤ pulseTimeout) :
    (writeObject (reportOf f g v t).members).length ≤ 100 ∧
      ((writeObject (reportOf f g v t).members).length = 100 ↔ Overlong f g v t) := by
  obtain ⟨htemperature, hlongTemperature⟩ := length_temperature f
  obtain ⟨hhumidity, hlongHumidity⟩ := length_humidity g
  obtain ⟨hdistance, hlongDistance⟩ := length_distancia ht
  have hvoltage := length_voltage v hv
  have hlength : (writeObject (reportOf f g v t).members).length =
      72 + (writeFloat (some f.temperature11)).length + (writeFloat (some g.humidity11)).length +
        3 + (writeFloat (some (voltaje (300 + v : ℕ)))).length +
        ((Nat.toDigits 10 (t / 59)).length + 1) := by
    rw [Report.writeObject_eq, List.length_append, Report.length_front, List.length_append]
    simp only [reportOf, length_valorSensor hv]
    rfl
  rw [hlength]
  split at hvoltage
  next hshort =>
    refine ⟨by omega, fun hfull => by omega, fun hover => absurd hshort hover.voltage⟩
  next hlong =>
    refine ⟨by omega, fun hfull => ?_, fun hover => ?_⟩
    · obtain ⟨hbelow, hlow⟩ := hlongTemperature.mp (by omega)
      exact ⟨hbelow, hlow, hlongHumidity.mp (by omega), hlong, hlongDistance.mp (by omega)⟩
    · have ht := hlongTemperature.mpr ⟨hover.below, hover.temperature⟩
      have hh := hlongHumidity.mpr hover.humidity
      have hd := hlongDistance.mpr hover.distance
      omega

/-- An object of a hundred characters loses its closing brace, and is no JSON text any more. -/
theorem parse_jsonMessage_reportOf (hv : v < 100) (ht : t ≤ pulseTimeout) :
    (Overlong f g v t → parse (reportOf f g v t).jsonMessage = none) ∧
      (¬Overlong f g v t →
        parse (reportOf f g v t).jsonMessage = some (.object (reportOf f g v t).fields)) := by
  obtain ⟨hle, hfull⟩ := length_writeObject_reportOf (f := f) (g := g) hv ht
  rw [Report.parse_jsonMessage, Report.jsonMessageBufferSize]
  constructor
  · intro hover
    rw [if_neg (by rw [hfull.mpr hover]; decide)]
  · intro h
    rw [if_pos (lt_of_le_of_ne hle (mt hfull.mp h))]

theorem length_message {opened between : List Char} (name value : List Char) {m n : ℕ}
    (hopened : opened.length = m) (hbetween : between.length = n) :
    (opened ++ name ++ between ++ value ++ ['\x7d']).length = m + n + 1 + name.length + value.length := by
  simp only [List.length_append, hopened, hbetween, List.length_singleton]
  omega

theorem message_le {topic name : String} {value : List Char} (htopic : (cstr topic).length ≤ 36)
    (hname : name.toList.length ≤ 11) (hvalue : value.length ≤ 7) :
    (cstr topic, message name value).1.length ≤ 36 ∧
      (cstr topic, message name value).2.length ≤ 70 := by
  have hopened : "\x7b\"from\":\"device\",\"message\":\"".toList.length = 28 := by decide +kernel
  have hbetween : "\",\"save\":true,\"value\": ".toList.length = 23 := by decide +kernel
  have hlength : (message name value).length = 28 + 23 + 1 + name.toList.length + value.length :=
    length_message _ _ hopened hbetween
  dsimp only
  rw [hlength]
  omega

theorem messages_le (hv : v < 100) (ht : t ≤ pulseTimeout) :
    ∀ message ∈ (reportOf f g v t).messages, message.1.length ≤ 36 ∧ message.2.length ≤ 70 := by
  have hf := f.temperatureTenths_le
  have hg := g.humidityTenths_le
  have htemperatura : (twoDecimals f.temperature11).length ≤ 7 := by
    rw [temperature11_eq_signedTenths]
    exact length_twoDecimals_signedTenths _ (by omega)
  have hhumedad : (twoDecimals g.humidity11).length ≤ 7 := by
    rw [humidity11_eq_signedTenths]
    exact length_twoDecimals_signedTenths _ (by omega)
  have hcast : ((300 + v : ℕ) : ℚ) < 400 := by exact_mod_cast (by omega : 300 + v < 400)
  have hradiacion : (twoDecimals ((300 + v : ℕ) : ℚ)).length ≤ 3 + 3 :=
    length_twoDecimals_of_lt (Nat.cast_nonneg _) (by decide) (by linarith)
  obtain ⟨hlow, hhigh⟩ := abs_le.mp (voltage_bounds v hv)
  have hvoltaje : (twoDecimals (voltaje (300 + v : ℕ))).length ≤ 1 + 3 :=
    length_twoDecimals_of_lt (by linarith) (by decide) (by linarith)
  have hagua : (intText ((t / 59 : ℕ) : ℤ)).length ≤ 5 := by
    rw [intText_natCast]
    exact (length_distancia ht).1
  refine List.forall_mem_cons.mpr ⟨message_le (by decide +kernel) (by decide +kernel) htemperatura, ?_⟩
  refine List.forall_mem_cons.mpr ⟨message_le (by decide +kernel) (by decide +kernel) hhumedad, ?_⟩
  refine List.forall_mem_cons.mpr
    ⟨message_le (by decide +kernel) (by decide +kernel) (hradiacion.trans (by decide)), ?_⟩
  refine List.forall_mem_cons.mpr
    ⟨message_le (by decide +kernel) (by decide +kernel) (hvoltaje.trans (by decide)), ?_⟩
  refine List.forall_mem_cons.mpr
    ⟨message_le (by decide +kernel) (by decide +kernel) (hagua.trans (by decide)), ?_⟩
  exact List.forall_mem_nil _

/-- Everything that an iteration prints fits its buffer, but for the closing brace of the
longest objects. -/
theorem fits_iff_not_overlong (hv : v < 100) (ht : t ≤ pulseTimeout) :
    Fits (reportOf f g v t) ↔ ¬Overlong f g v t := by
  refine ⟨fun hfits hover => ?_, fun h => ?_⟩
  · have hnone := (parse_jsonMessage_reportOf hv ht).1 hover
    rw [hfits.whole] at hnone
    cases hnone
  have hmessages := messages_le (f := f) (g := g) hv ht
  refine ⟨fun message hmem => ?_, ?_, List.forall_mem_cons.mpr ⟨?_, fun message hmem => ?_⟩⟩
  · have hle := (hmessages message hmem).2
    rw [msgBufferSize]
    omega
  · exact (parse_jsonMessage_reportOf hv ht).2 h
  · have htopic : localTopic.length = 12 := by decide
    rw [tooLong_eq_false_iff, htopic, Report.jsonMessage, printTo_eq_take, ascii, List.length_map,
      List.length_take, Report.jsonMessageBufferSize, mqttMaxPacketSize]
    omega
  · obtain ⟨htopic, hlength⟩ := hmessages message hmem
    rw [tooLong_eq_false_iff, ascii, List.length_map, mqttMaxPacketSize]
    omega

end

/-- A frame of 100.1 percent at 100.1 degrees below zero. -/
def coldFrame : Frame := ⟨0x6401, 0x6481, 74, rfl⟩

theorem fits_zeroFrame : Fits (reportOf zeroFrame zeroFrame 0 0) ∧
    ¬Fits (reportOf coldFrame coldFrame 0 pulseTimeout) := by
  have hzero : ¬Overlong zeroFrame zeroFrame 0 0 := fun h => absurd h.below (by decide)
  have hcold : Overlong coldFrame coldFrame 0 pulseTimeout :=
    ⟨by decide, by decide, by decide, by decide, by decide⟩
  exact ⟨(fits_iff_not_overlong (by decide) (by decide)).mpr hzero,
    fun hfits => (fits_iff_not_overlong (by decide) (by decide)).mp hfits hcold⟩

/-! ## What the local topic carries -/

/-- The object has the five fields, and the external messages say the same: the tenths of the frames
exactly, the value of the UV sensor (which stands under `voltajeradiacion`), the distance, and the
voltage (under `valorradiacion`) to a hundredth. -/
def Agrees (f g : Frame) (v t : ℕ) : Prop :=
  ∃ voltaje voltajeMessage : ℚ,
    parse (reportOf f g v t).jsonMessage = some (.object [
      ("temperatura".toList, .number (Decimal.value f.belowZero f.temperatureTenths 1)),
      ("humedad".toList, .number (Decimal.value false g.humidityTenths 1)),
      ("voltajeradiacion".toList, .number (300 + v : ℕ)), ("valorradiacion".toList, .number voltaje),
      ("agua".toList, .number (t / 59 : ℕ))]) ∧
    (reportOf f g v t).messages.map (fun message => valueOf message.2) =
      [some (Decimal.value f.belowZero f.temperatureTenths 1),
        some (Decimal.value false g.humidityTenths 1), some (300 + v : ℕ), some voltajeMessage,
        some (t / 59 : ℕ)] ∧
    |voltaje - voltajeMessage| ≤ 1 / 100

/-- Every payload on the local topic is the announcement of a session or the buffer of a report,
and that is either a whole object that agrees with the external messages of the report, or the
report is overlong and the buffer is no JSON text. -/
def Globals.Delivers (g : Globals) : Prop :=
  ∀ packet payload, .wrote packet ∈ g.clientLocal.log →
    published packet = some (localTopic, payload) → payload = announcement ∨
      ∃ f h v t, g.Reported (reportOf f h v t) ∧ payload = ascii (reportOf f h v t).jsonMessage ∧
        (¬Overlong f h v t ∧ Agrees f h v t ∨
          Overlong f h v t ∧ parse (reportOf f h v t).jsonMessage = none)

/-- What the external messages of a report say. -/
theorem map_valueOf_messages (r : Report) : r.messages.map (fun message => valueOf message.2) =
    [some (hundredths r.temperatura), some (hundredths r.humedad), some (hundredths r.valorSensor),
      some (hundredths r.voltajeUV), some (r.distancia : ℚ)] := by
  have hvalue : ∀ name : String, PlainText name → ∀ x,
      valueOf (message name (twoDecimals x)) = some (hundredths x) :=
    fun name hname x => valueOf_message hname (atom_twoDecimals x)
  have hagua : valueOf (message "Distancia" (intText r.distancia)) = some (r.distancia : ℚ) :=
    valueOf_message (by decide +kernel) (by exact_mod_cast atom_intText r.distancia)
  rw [Report.messages, List.map_cons, List.map_cons, List.map_cons, List.map_cons, List.map_cons,
    List.map_nil, hvalue "Temperatura" (by decide +kernel), hvalue "Humedad" (by decide +kernel),
    hvalue "Radiacion" (by decide +kernel), hvalue "Voltaje" (by decide +kernel), hagua]

theorem agrees_of_not_overlong {f g : Frame} {v t : ℕ} (hv : v < 100) (ht : t ≤ pulseTimeout)
    (h : ¬Overlong f g v t) : Agrees f g v t := by
  have hf := f.temperatureTenths_le
  have hg := g.humidityTenths_le
  have htemperatura : printed f.temperature11 = Decimal.value f.belowZero f.temperatureTenths 1 := by
    rw [temperature11_eq_signedTenths, printed_signedTenths _ (by omega)]
  have hhumedad : printed g.humidity11 = Decimal.value false g.humidityTenths 1 := by
    rw [humidity11_eq_signedTenths, printed_signedTenths _ (by omega)]
  have hvalor : printed ((300 + v : ℕ) : ℚ) = (300 + v : ℕ) := by
    rw [printed, if_neg (not_lt.mpr (Nat.cast_nonneg _)), FloatParts.of_natCast (by omega)]
    simp [FloatParts.value]
  refine ⟨printed (voltaje (300 + v : ℕ)), hundredths (voltaje (300 + v : ℕ)), ?_, ?_,
    abs_printed_voltage_sub_le hv⟩
  · rw [(parse_jsonMessage_reportOf hv ht).2 h, Report.fields]
    simp only [reportOf, htemperatura, hhumedad, hvalor]
  · have htwo : hundredths f.temperature11 = Decimal.value f.belowZero f.temperatureTenths 1 ∧
        hundredths g.humidity11 = Decimal.value false g.humidityTenths 1 := by
      rw [temperature11_eq_signedTenths, hundredths_signedTenths _ (by omega),
        humidity11_eq_signedTenths, hundredths_signedTenths _ (by omega)]
      exact ⟨rfl, rfl⟩
    rw [map_valueOf_messages]
    simp only [reportOf, htwo, hundredths_natCast]

/-- What the local topic carries in every run. -/
theorem Run.delivers (r : Run) : r.state.mem.Delivers := by
  intro packet payload hmem hpublished
  have hgrounded := r.grounded
  rcases hgrounded.announces packet payload hmem hpublished with hann | ⟨report, hreported, hpayload⟩
  · exact Or.inl hann
  · obtain ⟨f, g, v, t, hv, ht, rfl⟩ := (hgrounded.genuine report hreported).exists_eq
    refine Or.inr ⟨f, g, v, t, hreported, hpayload, ?_⟩
    by_cases hover : Overlong f g v t
    · exact Or.inr ⟨hover, (parse_jsonMessage_reportOf hv ht).1 hover⟩
    · exact Or.inl ⟨hover, agrees_of_not_overlong hv ht hover⟩

end Sketches.Invernadero
