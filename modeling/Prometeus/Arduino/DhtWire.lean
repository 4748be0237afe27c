import Prometeus.Arduino.DHTesp
import Prometeus.Foundation.Bits

/-! # The wire of the sensor

The sensor answers with three edges and then two for each of its forty bits: a low one, and a high one
that lasts longer for a one than for a zero. What the edge loop of `readSensor` makes of an answer is
compared here with the bits that were sent.
-/

namespace Arduino

open Bits

namespace DHTesp

/-- The edge came in time, as far as the `byte` that it is measured in can tell. -/
def OnTime (edge : ℕ) : Prop := ¬90 < UInt8.ofNat edge

instance (edge : ℕ) : Decidable (OnTime edge) := inferInstanceAs (Decidable (¬_))

/-- The edges of some bits. -/
inductive Carries : List Bool → List ℕ → Prop
  | nil : Carries [] []
  | cons {low high : ℕ} {bits : List Bool} {edges : List ℕ} (hlow : OnTime low)
      (hhigh : OnTime high) (h : Carries bits edges) :
      Carries (decide (30 < UInt8.ofNat high) :: bits) (low :: high :: edges)

/-- An answer with some bits. Nobody looks at what follows it. -/
inductive Signal (bits : List Bool) : List ℕ → Prop
  | mk {a b c : ℕ} {edges : List ℕ} (later : List ℕ) (ha : OnTime a) (hb : OnTime b)
      (hc : OnTime c) (h : Carries bits edges) : Signal bits (a :: b :: c :: (edges ++ later))

/-! ## The shift register -/

/-- Shift one bit in. -/
def shiftIn (data : UInt16) (bit : Bool) : UInt16 := (data <<< 1) ||| if bit then 1 else 0

theorem toNat_shiftIn (data : UInt16) (bit : Bool) :
    (shiftIn data bit).toNat = (2 * data.toNat + bit.toNat) % 2 ^ 16 := by
  have hdouble : (data <<< 1).toNat = 2 * data.toNat % 2 ^ 16 := by
    rw [UInt16.toNat_shiftLeft, Nat.shiftLeft_eq]
    simp [Nat.mul_comm]
  cases bit with
  | false => simp [shiftIn, hdouble]
  | true =>
      have heven : 2 * data.toNat % 2 ^ 16 = (data.toNat % 2 ^ 15) <<< 1 := by
        rw [Nat.shiftLeft_eq]
        omega
      have hor : (shiftIn data true).toNat = 2 * data.toNat % 2 ^ 16 ||| 1 := by
        simp [shiftIn, UInt16.toNat_or, hdouble]
      rw [hor, heven, ← Nat.shiftLeft_add_eq_or_of_lt (by decide), Nat.shiftLeft_eq, Bool.toNat_true]
      omega

theorem toNat_foldl_shiftIn (data : UInt16) (bits : List Bool) :
    (bits.foldl shiftIn data).toNat = (data.toNat * 2 ^ bits.length + value bits) % 2 ^ 16 := by
  induction bits generalizing data with
  | nil => simp [Nat.mod_eq_of_lt data.toNat_lt]
  | cons bit bits ih =>
      rw [List.foldl_cons, ih, toNat_shiftIn, value_cons, List.length_cons, Nat.add_mod,
        Nat.mul_mod, Nat.mod_mod, ← Nat.mul_mod, ← Nat.add_mod, pow_succ]
      congr 1
      ring

/-- A bit moves into the register; the last one of a word copies it. `rest` more bits follow. -/
def Shift.push (s : Shift) (bit : Bool) (rest : ℕ) : Shift :=
  let data := shiftIn s.data bit
  if rest = 24 then { s with data, rawHumidity := data }
  else if rest = 8 then { s with data := 0, rawTemperature := data }
  else { s with data }

def Shift.feed (s : Shift) : List Bool → Shift
  | [] => s
  | bit :: bits => (s.push bit bits.length).feed bits

/-- The two edges of a bit. -/
theorem readEdges_bit {rest low high : ℕ} {edges : List ℕ} (hrest : rest < 40) (hlow : OnTime low)
    (hhigh : OnTime high) (s : Shift) :
    readEdges (2 * (rest + 1)) (low :: high :: edges) s =
      readEdges (2 * rest) edges (s.push (decide (30 < UInt8.ofNat high)) rest) := by
  have hn : 2 * (rest + 1) = 2 * rest + 1 + 1 := by ring
  have heven : ¬((0 : ℤ) ≤ 79 - (2 * rest + 1 : ℕ) ∧ (79 - (2 * rest + 1 : ℕ) : ℤ) % 2 = 1) := by omega
  have hodd : (0 : ℤ) ≤ 79 - (2 * rest : ℕ) ∧ (79 - (2 * rest : ℕ) : ℤ) % 2 = 1 := by omega
  have h31 : ¬(79 - (2 * rest + 1 : ℕ) : ℤ) = 31 := by omega
  have h63 : ¬(79 - (2 * rest + 1 : ℕ) : ℤ) = 63 := by omega
  have hhumidity : ((79 - (2 * rest : ℕ) : ℤ) = 31) = (rest = 24) := by
    apply propext
    omega
  have htemperature : ((79 - (2 * rest : ℕ) : ℤ) = 63) = (rest = 8) := by
    apply propext
    omega
  rw [hn, readEdges]
  simp only [if_neg hlow, if_neg heven, if_neg h31, if_neg h63]
  rw [readEdges]
  simp only [if_neg hhigh, if_pos hodd, hhumidity, htemperature, Shift.push, shiftIn,
    decide_eq_true_eq]
  split
  · rfl
  · split <;> rfl

theorem readEdges_of_carries {bits : List Bool} {edges : List ℕ} (h : Carries bits edges)
    (hbits : bits.length ≤ 40) (later : List ℕ) (s : Shift) :
    readEdges (2 * bits.length) (edges ++ later) s = some (s.feed bits) := by
  induction h generalizing s with
  | nil => rfl
  | cons hlow hhigh h ih =>
      rw [List.length_cons] at hbits
      rw [List.length_cons, List.cons_append, List.cons_append,
        readEdges_bit (by omega) hlow hhigh, ih (by omega)]
      rfl

/-- An edge of the start bit changes nothing. -/
theorem readEdges_early {n edge : ℕ} (hn : 80 ≤ n) (hedge : OnTime edge) (edges : List ℕ) (s : Shift) :
    readEdges (n + 1) (edge :: edges) s = readEdges n edges s := by
  have hearly : ¬((0 : ℤ) ≤ 79 - (n : ℕ) ∧ (79 - (n : ℕ) : ℤ) % 2 = 1) := by omega
  have h31 : ¬(79 - (n : ℕ) : ℤ) = 31 := by omega
  have h63 : ¬(79 - (n : ℕ) : ℤ) = 63 := by omega
  rw [readEdges]
  simp only [if_neg hedge, if_neg hearly, if_neg h31, if_neg h63]

theorem readEdges_start {a b c : ℕ} (ha : OnTime a) (hb : OnTime b) (hc : OnTime c)
    (edges : List ℕ) (s : Shift) :
    readEdges 83 (a :: b :: c :: edges) s = readEdges 80 edges s :=
  calc readEdges 83 (a :: b :: c :: edges) s
      = readEdges 82 (b :: c :: edges) s := readEdges_early (by decide) ha _ s
    _ = readEdges 81 (c :: edges) s := readEdges_early (by decide) hb _ s
    _ = readEdges 80 edges s := readEdges_early le_rfl hc _ s

/-! ## Words -/

/-- Bits that end no word only move through the register. -/
theorem feed_append (s : Shift) (xs ys : List Bool)
    (h : ∀ rest, ys.length ≤ rest → rest < ys.length + xs.length → rest ≠ 24 ∧ rest ≠ 8) :
    s.feed (xs ++ ys) = { s with data := xs.foldl shiftIn s.data }.feed ys := by
  induction xs generalizing s with
  | nil => rfl
  | cons bit xs ih =>
      have hrest := h (xs ++ ys).length (by simp) (by simp; omega)
      rw [List.cons_append, Shift.feed, Shift.push, if_neg hrest.1, if_neg hrest.2, ih]
      · rfl
      · intro rest hlow hhigh
        exact h rest hlow (hhigh.trans (by simp))

/-- A whole word moves through the register, and its last bit copies it. -/
theorem feed_word (s : Shift) {word rest : List Bool} (hword : word.length = 16)
    (h : rest.length = 24 ∨ rest.length = 8) :
    s.feed (word ++ rest) =
      if rest.length = 24 then
        { s with data := word.foldl shiftIn s.data
                 rawHumidity := word.foldl shiftIn s.data }.feed rest
      else
        { s with data := 0, rawTemperature := word.foldl shiftIn s.data }.feed rest := by
  obtain ⟨first, last, rfl⟩ : ∃ first last, word = first ++ [last] :=
    ⟨_, _, (List.dropLast_append_getLast (by rintro rfl; cases hword)).symm⟩
  rw [List.length_append, List.length_singleton] at hword
  rw [List.append_assoc, feed_append _ _ _ (by simp; omega), List.singleton_append, Shift.feed,
    Shift.push, List.foldl_append]
  rcases h with h | h <;> simp [h]

/-- What forty bits leave: two words and a byte. -/
theorem feed_answer {humidity temperature check : List Bool} (hh : humidity.length = 16)
    (ht : temperature.length = 16) (hc : check.length = 8) :
    ∃ s : Shift, ({} : Shift).feed (humidity ++ (temperature ++ check)) = s ∧
      s.rawHumidity.toNat = value humidity ∧ s.rawTemperature.toNat = value temperature ∧
        s.data.toNat = value check := by
  have hcheck : ∀ s : Shift, s.feed check = { s with data := check.foldl shiftIn s.data } := by
    intro s
    have hlast := feed_append s check [] (by
      intro rest _ hrest
      rw [List.length_nil] at hrest
      omega)
    rwa [List.append_nil] at hlast
  refine ⟨_, rfl, ?_⟩
  rw [feed_word _ hh (by simp [ht, hc]), if_pos (by simp [ht, hc]), feed_word _ ht (by simp [hc]),
    if_neg (by simp [hc]), hcheck]
  have hhumidity := value_lt humidity
  have htemperature := value_lt temperature
  have hvalue := value_lt check
  have hzero : (0 : UInt16).toNat = 0 := rfl
  simp only [toNat_foldl_shiftIn, hh, ht, hc, hzero] at hhumidity htemperature hvalue ⊢
  exact ⟨by omega, by omega, by omega⟩

/-! ## Answers -/

end DHTesp

/-- The bits of a valid answer. -/
def Frame.bits (f : Frame) : List Bool :=
  ofNat 16 f.rawHumidity.toNat ++ (ofNat 16 f.rawTemperature.toNat ++ ofNat 8 f.data.toNat)

namespace DHTesp

theorem toNat_byteSum (rawHumidity rawTemperature : UInt16) :
    (byteSum rawHumidity rawTemperature).toNat =
      (rawHumidity.toNat / 256 + rawHumidity.toNat % 256 +
        (rawTemperature.toNat / 256 + rawTemperature.toNat % 256)) % 256 := by
  have hhigh : ∀ x : UInt16, (x >>> 8).toUInt8.toNat = x.toNat / 256 := by
    intro x
    have hx := x.toNat_lt
    have hshift : (x >>> 8).toNat = x.toNat / 256 := by
      simp [UInt16.toNat_shiftRight, Nat.shiftRight_eq_div_pow]
    rw [UInt16.toNat_toUInt8, hshift]
    omega
  simp only [byteSum, UInt8.toNat_add, UInt16.toNat_toUInt8, hhigh]
  omega

/-- What an answer of forty bits is taken for. -/
theorem sample_signal {humidity temperature check : List Bool} (hh : humidity.length = 16)
    (ht : temperature.length = 16) (hc : check.length = 8) {edges : List ℕ}
    (h : Signal (humidity ++ (temperature ++ check)) edges) :
    (sumOfBytes (humidity ++ temperature) % 256 = value check → ∃ f, sample edges = .frame f ∧
      f.rawHumidity.toNat = value humidity ∧ f.rawTemperature.toNat = value temperature) ∧
    (sumOfBytes (humidity ++ temperature) % 256 ≠ value check → sample edges = .checksum) := by
  obtain ⟨s, hs, hhumidity, htemperature, hcheck⟩ := feed_answer hh ht hc
  obtain ⟨later, ha, hb, hstart, hcarries⟩ := h
  have hlength : (humidity ++ (temperature ++ check)).length = 40 := by simp [hh, ht, hc]
  have hedges := readEdges_of_carries hcarries hlength.le later {}
  rw [hlength, hs] at hedges
  have hsum : (byteSum s.rawHumidity s.rawTemperature).toUInt16 = s.data ↔
      sumOfBytes (humidity ++ temperature) % 256 = value check := by
    rw [← UInt16.toNat_inj, UInt8.toNat_toUInt16, toNat_byteSum, hhumidity, htemperature, hcheck,
      sumOfBytes_append _ (by rw [ht]; decide), sumOfBytes_word hh, sumOfBytes_word ht]
  have hread := (readEdges_start ha hb hstart _ {}).trans hedges
  rw [sample, hread]
  refine ⟨fun hvalid => ?_, fun hinvalid => dif_neg fun hvalid => hinvalid (hsum.mp hvalid)⟩
  exact ⟨⟨_, _, _, hsum.mpr hvalid⟩, dif_pos (hsum.mpr hvalid), hhumidity, htemperature⟩

theorem length_bits (f : Frame) : f.bits.length = 40 := by
  simp [Frame.bits]

/-- The bits of a frame add up. -/
theorem sumOfBytes_frame (f : Frame) :
    sumOfBytes (ofNat 16 f.rawHumidity.toNat ++ ofNat 16 f.rawTemperature.toNat) % 256 =
      value (ofNat 8 f.data.toNat) ∧ f.data.toNat < 256 := by
  have hvalid := congrArg UInt16.toNat f.valid
  rw [UInt8.toNat_toUInt16, toNat_byteSum] at hvalid
  have hh := f.rawHumidity.toNat_lt
  have ht := f.rawTemperature.toNat_lt
  rw [sumOfBytes_append _ (by simp), sumOfBytes_word (by simp), sumOfBytes_word (by simp), value_ofNat,
    value_ofNat, value_ofNat, Nat.mod_eq_of_lt hh, Nat.mod_eq_of_lt ht]
  omega

/-- Every valid answer is read as its frame. -/
theorem sample_of_signal {f : Frame} {edges : List ℕ} (h : Signal f.bits edges) :
    sample edges = .frame f := by
  obtain ⟨hframe, -⟩ := sample_signal (by simp) (by simp) (by simp) h
  obtain ⟨hsum, -⟩ := sumOfBytes_frame f
  obtain ⟨g, hg, hhumidity, htemperature⟩ := hframe hsum
  have hh := f.rawHumidity.toNat_lt
  have ht := f.rawTemperature.toNat_lt
  rw [value_ofNat, Nat.mod_eq_of_lt hh, UInt16.toNat_inj] at hhumidity
  rw [value_ofNat, Nat.mod_eq_of_lt ht, UInt16.toNat_inj] at htemperature
  have hdata : g.data = f.data := by rw [← g.valid, ← f.valid, hhumidity, htemperature]
  rw [hg]
  cases g
  cases f
  simp_all

/-- An answer whose bytes do not add up. -/
theorem sample_of_sum_ne {words check : List Bool} (hw : words.length = 32) (hc : check.length = 8)
    {edges : List ℕ} (h : Signal (words ++ check) edges)
    (hne : sumOfBytes words % 256 ≠ value check) : sample edges = .checksum := by
  have hsplit : words ++ check = words.take 16 ++ (words.drop 16 ++ check) := by
    rw [← List.append_assoc, List.take_append_drop]
  rw [hsplit] at h
  apply (sample_signal (by simp [hw]) (by simp [hw]) hc h).2
  rwa [List.take_append_drop]

/-- A sampling times out exactly when one of the 83 edges is missing or late. -/
theorem readEdges_eq_none_iff (n : ℕ) (edges : List ℕ) (s : Shift) :
    readEdges n edges s = none ↔ edges.length < n ∨ ∃ edge ∈ edges.take n, ¬OnTime edge := by
  induction n generalizing edges s with
  | zero => simp [readEdges]
  | succ n ih =>
      cases edges with
      | nil => simp [readEdges]
      | cons edge edges =>
          rw [readEdges]
          by_cases hedge : OnTime edge
          · simp only [if_neg hedge, List.length_cons, List.take_succ_cons, List.mem_cons,
              exists_eq_or_imp, not_true, hedge, false_or, Nat.add_lt_add_iff_right]
            split
            · exact ih _ _
            · split <;> exact ih _ _
          · have hlate : 90 < UInt8.ofNat edge := not_not.mp hedge
            simp [if_pos hlate, hedge]

theorem sample_eq_timeout_iff (edges : List ℕ) : sample edges = .timeout ↔
    edges.length < 83 ∨ ∃ edge ∈ edges.take 83, ¬OnTime edge := by
  rw [← readEdges_eq_none_iff 83 edges {}, sample]
  cases readEdges 83 edges {} with
  | none => simp
  | some s =>
      simp only [reduceCtorEq, iff_false]
      split <;> simp

/-- Edges in time carry bits, two for each. -/
theorem exists_carries (n : ℕ) {edges : List ℕ} (hlength : edges.length = 2 * n)
    (h : ∀ edge ∈ edges, OnTime edge) : ∃ bits, bits.length = n ∧ Carries bits edges := by
  induction n generalizing edges with
  | zero =>
      obtain rfl := List.length_eq_zero_iff.mp hlength
      exact ⟨[], rfl, .nil⟩
  | succ n ih =>
      match edges, hlength with
      | low :: high :: edges, hlength =>
          simp only [List.mem_cons, forall_eq_or_imp] at h
          obtain ⟨hlow, hhigh, hrest⟩ := h
          obtain ⟨bits, hbits, hcarries⟩ := ih (by simp at hlength; omega) hrest
          exact ⟨_, congrArg (· + 1) hbits, .cons hlow hhigh hcarries⟩

/-- An answer that does not time out has forty bits. -/
theorem exists_signal {edges : List ℕ} (h : sample edges ≠ .timeout) :
    ∃ bits, bits.length = 40 ∧ Signal bits edges := by
  rw [Ne, sample_eq_timeout_iff, not_or, not_lt] at h
  obtain ⟨hlength, htime⟩ := h
  push Not at htime
  match edges, hlength with
  | a :: b :: c :: edges, hlength =>
      have hmem : ∀ edge ∈ (a :: b :: c :: edges.take 80), OnTime edge := fun edge hedge => htime edge hedge
      simp only [List.mem_cons, forall_eq_or_imp] at hmem
      obtain ⟨ha, hb, hc, hrest⟩ := hmem
      have heighty : (edges.take 80).length = 2 * 40 := by
        simp at hlength ⊢
        omega
      obtain ⟨bits, hbits, hcarries⟩ := exists_carries 40 heighty hrest
      refine ⟨bits, hbits, ?_⟩
      have hsignal := Signal.mk (edges.drop 80) ha hb hc hcarries
      rwa [List.take_append_drop] at hsignal

theorem Signal.bits_eq {f : Frame} {bits : List Bool} {edges : List ℕ} (hbits : bits.length = 40)
    (h : Signal bits edges) (hf : sample edges = .frame f) : f.bits = bits := by
  obtain ⟨humidity, temperature, check, rfl, hh, ht, hc⟩ : ∃ humidity temperature check,
      bits = humidity ++ (temperature ++ check) ∧ humidity.length = 16 ∧ temperature.length = 16 ∧
        check.length = 8 := by
    refine ⟨bits.take 16, (bits.drop 16).take 16, (bits.drop 16).drop 16, ?_, by simp [hbits]⟩
    rw [List.take_append_drop, List.take_append_drop]
  obtain ⟨hframe, hchecksum⟩ := sample_signal hh ht hc h
  by_cases hsum : sumOfBytes (humidity ++ temperature) % 256 = value check
  · obtain ⟨g, hg, hhumidity, htemperature⟩ := hframe hsum
    obtain rfl : f = g := by
      rw [hf] at hg
      exact Sampling.frame.inj hg
    have hdata : f.data.toNat = value check := by
      rw [← f.valid, UInt8.toNat_toUInt16, toNat_byteSum, hhumidity, htemperature, ← hsum,
        sumOfBytes_append _ (by rw [ht]; decide), sumOfBytes_word hh, sumOfBytes_word ht]
    rw [Frame.bits, hhumidity, htemperature, hdata, ← hh, ofNat_value, hh, ← ht, ofNat_value, ← hc,
      ofNat_value]
  · rw [hchecksum hsum] at hf
    cases hf

/-- The edges of a sensor that keeps to its data sheet. -/
def nominal (bits : List Bool) : List ℕ :=
  [20, 80, 80] ++ bits.flatMap fun bit => [50, if bit then 70 else 26]

theorem signal_nominal (bits : List Bool) : Signal bits (nominal bits) := by
  have hcarries : Carries bits (bits.flatMap fun bit => [50, if bit then 70 else 26]) := by
    induction bits with
    | nil => exact .nil
    | cons bit bits ih =>
        cases bit with
        | false =>
            have hlow : OnTime 50 := by decide
            have hhigh : OnTime 26 := by decide
            exact .cons hlow hhigh ih
        | true =>
            have hlow : OnTime 50 := by decide
            have hhigh : OnTime 70 := by decide
            exact .cons hlow hhigh ih
  have hsignal := Signal.mk (a := 20) (b := 80) (c := 80) [] (by decide) (by decide) (by decide) hcarries
  rwa [List.append_nil] at hsignal

end DHTesp

end Arduino
