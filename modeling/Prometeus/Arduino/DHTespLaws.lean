import Mathlib.Logic.Relation
import Prometeus.Arduino.DHTesp

/-! # What the calls of DHTesp leave

A call either samples the sensor or answers from the fields. Two readings come from one
sampling as long as the calls stay within 999 milliseconds of it: the retry after a timeout and a
second reading then answer from the fields.
-/

namespace Arduino

open Script Sketch

/-- What a DHT11 answers after a sampling: a NaN, or the value in its frame. -/
def Sampling.temperature : Sampling → Single
  | .frame f => some f.temperature11
  | _ => none

def Sampling.humidity : Sampling → Single
  | .frame f => some f.humidity11
  | _ => none

namespace DHTesp

/-! ## One call -/

/-- A call that answers from the fields. -/
def skip (instant : ℕ) (d : DHTesp) : DHTesp := { d with polls := d.polls ++ [⟨instant, false⟩] }

/-- A call that samples the sensor. -/
def take (instant : ℕ) (sampling : Sampling) (d : DHTesp) : DHTesp :=
  store sampling { d with
    lastReadTime := UInt32.ofNat instant, temperature := none, humidity := none
    polls := d.polls ++ [⟨instant, true⟩] }

/-- One call of `readSensor`. -/
inductive Polled (b b' : Board DHTesp) : Prop
  | skipped (instant : ℕ) (hlow : b.clock ≤ instant) (hhigh : instant ≤ b'.clock)
      (hsoon : b.mem.tooSoon (UInt32.ofNat instant) = true) (hmem : b'.mem = b.mem.skip instant)
  | sampled (instant : ℕ) (sampling : Sampling) (hlow : b.clock ≤ instant)
      (hhigh : instant ≤ b'.clock) (hsoon : b.mem.tooSoon (UInt32.ofNat instant) = false)
      (hmem : b'.mem = b.mem.take instant sampling)

theorem Polled.clock {b b' : Board DHTesp} (h : Polled b b') : b.clock ≤ b'.clock := by
  cases h with
  | skipped instant hlow hhigh => exact hlow.trans hhigh
  | sampled instant sampling hlow hhigh => exact hlow.trans hhigh

variable {b b' : Board DHTesp}

theorem wp_readSensor : wp readSensor (fun _ => Polled b) (fun _ => True) b := by
  rw [readSensor, wp_millis_bind]
  refine ⟨trivial, fun elapsed => ?_⟩
  rw [wp_read_bind, wp_ite]
  have hlow : b.clock ≤ b.clock + elapsed := Nat.le_add_right _ _
  refine ⟨fun hsoon => ?_, fun hsoon => ?_⟩
  · rw [wp_modify]
    exact .skipped _ hlow le_rfl hsoon rfl
  · rw [Bool.not_eq_true] at hsoon
    rw [wp_modify_bind, wp_delay_bind]
    refine ⟨trivial, fun waited => ?_⟩
    rw [wp_call_bind]
    refine ⟨trivial, fun answer => ?_⟩
    rw [wp_modify]
    exact .sampled _ (sample answer.edges) hlow (by dsimp only; omega) hsoon rfl

/-- A reading with its retry. -/
def PolledTwice (b b' : Board DHTesp) : Prop :=
  ∃ middle, Polled b middle ∧ (b' = middle ∨ Polled middle b')

theorem wp_readTwice : wp readTwice (fun _ => PolledTwice b) (fun _ => True) b := by
  rw [readTwice]
  refine wp_seq wp_readSensor (fun _ _ => trivial) ?_
  intro _ b₁ hpolled
  rw [wp_load_bind, wp_ite]
  refine ⟨fun _ => ?_, fun _ => wp_pure.mpr ⟨b₁, hpolled, Or.inl rfl⟩⟩
  exact wp_mono wp_readSensor (fun _ b₂ h => ⟨b₁, hpolled, Or.inr h⟩) (fun _ _ => trivial)

theorem wp_getTemperature : wp getTemperature
    (fun value b' => PolledTwice b b' ∧ value = b'.mem.temperature) (fun _ => True) b := by
  rw [getTemperature]
  refine wp_seq wp_readTwice (fun _ _ => trivial) ?_
  intro _ b₁ hpolled
  rw [wp_load_bind, wp_pure]
  exact ⟨hpolled, rfl⟩

theorem wp_getHumidity : wp getHumidity
    (fun value b' => PolledTwice b b' ∧ value = b'.mem.humidity) (fun _ => True) b := by
  rw [getHumidity]
  refine wp_seq wp_readTwice (fun _ _ => trivial) ?_
  intro _ b₁ hpolled
  rw [wp_load_bind, wp_pure]
  exact ⟨hpolled, rfl⟩

/-- Storing a sampling leaves the other fields alone. -/
theorem store_eq (s : Sampling) (d : DHTesp) : ∃ temperature humidity error,
    store s d = { d with temperature, humidity, error, samplings := d.samplings ++ [s] } := by
  cases s with
  | timeout => exact ⟨d.temperature, d.humidity, .timeout, rfl⟩
  | checksum => exact ⟨d.temperature, d.humidity, .checksum, rfl⟩
  | frame f =>
      unfold store
      dsimp only
      split
      · exact ⟨_, _, _, rfl⟩
      · exact ⟨_, _, _, rfl⟩

section Store

variable (s : Sampling) (d : DHTesp)

@[simp] theorem store_polls : (store s d).polls = d.polls := by
  obtain ⟨_, _, _, h⟩ := store_eq s d
  rw [h]

@[simp] theorem store_samplings : (store s d).samplings = d.samplings ++ [s] := by
  obtain ⟨_, _, _, h⟩ := store_eq s d
  rw [h]

@[simp] theorem store_lastReadTime : (store s d).lastReadTime = d.lastReadTime := by
  obtain ⟨_, _, _, h⟩ := store_eq s d
  rw [h]

@[simp] theorem store_model : (store s d).model = d.model := by
  obtain ⟨_, _, _, h⟩ := store_eq s d
  rw [h]

end Store

/-- Readings less than a second after a sampling do not poll the sensor again. -/
theorem tooSoon_of_lt {d : DHTesp} {last instant : ℕ} (hmodel : d.model = .dht11)
    (hlast : d.lastReadTime = UInt32.ofNat last) (hlow : last ≤ instant)
    (hhigh : instant < last + 999) : d.tooSoon (UInt32.ofNat instant) = true := by
  rw [tooSoon, hmodel, if_pos rfl, hlast, decide_eq_true_iff, UInt32.lt_iff_toNat_lt,
    toNat_millis_sub_of_lt hlow (by omega)]
  change instant - last < 999
  omega

/-- A second after a sampling and before the clock comes round, the sensor is polled. -/
theorem tooSoon_of_le {d : DHTesp} {last instant : ℕ} (hmodel : d.model = .dht11)
    (hlast : d.lastReadTime = UInt32.ofNat last) (hlow : last + 999 ≤ instant)
    (hhigh : instant < last + 2 ^ 32) : d.tooSoon (UInt32.ofNat instant) = false := by
  rw [tooSoon, hmodel, if_pos rfl, hlast, decide_eq_false_iff_not, UInt32.lt_iff_toNat_lt,
    toNat_millis_sub_of_lt (by omega) hhigh]
  change ¬ instant - last < 999
  omega

/-- After a reset the sensor is polled from the first second on. -/
theorem tooSoon_of_reset {d : DHTesp} {reset instant : ℕ} (hmodel : d.model = .dht11)
    (hlast : d.lastReadTime = UInt32.ofNat reset - 3000) (hlow : reset ≤ instant)
    (hhigh : instant + 3000 < reset + 2 ^ 32) : d.tooSoon (UInt32.ofNat instant) = false := by
  have hsub : UInt32.ofNat instant - d.lastReadTime =
      UInt32.ofNat (instant + 3000) - UInt32.ofNat reset := by
    rw [hlast, UInt32.ofNat_add, show UInt32.ofNat 3000 = 3000 from rfl]
    grind
  rw [tooSoon, hmodel, if_pos rfl, hsub, decide_eq_false_iff_not, UInt32.lt_iff_toNat_lt,
    toNat_millis_sub_of_lt (by omega) hhigh]
  change ¬ instant + 3000 - reset < 999
  omega

/-- The library as `setup` leaves it. -/
def resetAt (instant : ℕ) (d : DHTesp) : DHTesp :=
  { d with model := .dht11, lastReadTime := UInt32.ofNat instant - 3000 }

theorem wp_resetTimer : wp resetTimer (fun _ b' =>
    b'.mem = { b.mem with lastReadTime := UInt32.ofNat b'.clock - 3000 }) (fun _ => True) b := by
  rw [resetTimer, wp_millis_bind]
  refine ⟨trivial, fun elapsed => ?_⟩
  rw [wp_modify]

theorem wp_setup :
    wp (setup .dht11) (fun _ b' => b'.mem = b.mem.resetAt b'.clock) (fun _ => True) b := by
  rw [setup, wp_modify_bind]
  refine wp_seq wp_resetTimer (fun _ _ => trivial) ?_
  exact fun _ b' hb' => wp_pure.mpr hb'

/-! ## Decoded values -/

theorem take_readings {d : DHTesp} (hmodel : d.model = .dht11) (instant : ℕ) (s : Sampling) :
    (d.take instant s).temperature = s.temperature ∧ (d.take instant s).humidity = s.humidity := by
  cases s with
  | timeout => exact ⟨rfl, rfl⟩
  | checksum => exact ⟨rfl, rfl⟩
  | frame f => simp [take, store, hmodel, Sampling.temperature, Sampling.humidity]

/-- The readings in the fields were decoded from valid answers of a DHT11. -/
structure Decoded (d : DHTesp) : Prop where
  model : d.model = .dht11
  temperature : ∀ x, d.temperature = some x → ∃ f : Frame, x = f.temperature11
  humidity : ∀ x, d.humidity = some x → ∃ f : Frame, x = f.humidity11

theorem Decoded.take {d : DHTesp} (h : Decoded d) (instant : ℕ) (s : Sampling) :
    Decoded (d.take instant s) := by
  obtain ⟨htemperature, hhumidity⟩ := take_readings h.model instant s
  refine ⟨by rw [DHTesp.take, store_model, h.model], fun x hx => ?_, fun x hx => ?_⟩
  · rw [htemperature] at hx
    cases s with
    | timeout => cases hx
    | checksum => cases hx
    | frame f => exact ⟨f, (Option.some.inj hx).symm⟩
  · rw [hhumidity] at hx
    cases s with
    | timeout => cases hx
    | checksum => cases hx
    | frame f => exact ⟨f, (Option.some.inj hx).symm⟩

theorem Decoded.polled {b b' : Board DHTesp} (h : Decoded b.mem) (hpolled : Polled b b') :
    Decoded b'.mem := by
  cases hpolled with
  | skipped instant _ _ _ hmem =>
      rw [hmem]
      exact ⟨h.model, h.temperature, h.humidity⟩
  | sampled instant sampling _ _ _ hmem =>
      rw [hmem]
      exact h.take instant sampling

/-! ## Calls after a sampling -/

/-- Any number of calls of `readSensor`. -/
abbrev Calls : Board DHTesp → Board DHTesp → Prop := Relation.ReflTransGen Polled

theorem PolledTwice.first {b b' : Board DHTesp} (h : PolledTwice b b') :
    ∃ middle, Polled b middle ∧ Calls middle b' := by
  obtain ⟨middle, hfirst, rfl | hsecond⟩ := h
  · exact ⟨b', hfirst, .refl⟩
  · exact ⟨middle, hfirst, .single hsecond⟩

theorem PolledTwice.calls {b b' : Board DHTesp} (h : PolledTwice b b') : Calls b b' := by
  obtain ⟨middle, hfirst, hrest⟩ := h.first
  exact (Relation.ReflTransGen.single hfirst).trans hrest

/-- The fields are those of `d`; only calls without a sampling have been added. -/
def Answers (d d' : DHTesp) : Prop :=
  ∃ polls, d' = { d with polls := d.polls ++ polls } ∧ ∀ poll ∈ polls, poll.sampled = false

theorem Answers.refl (d : DHTesp) : Answers d d := ⟨[], by simp, by simp⟩

theorem Answers.skip {d d' : DHTesp} (h : Answers d d') (instant : ℕ) :
    Answers d (d'.skip instant) := by
  obtain ⟨polls, rfl, hpolls⟩ := h
  refine ⟨polls ++ [⟨instant, false⟩], by simp [DHTesp.skip], ?_⟩
  intro poll hmem
  rcases List.mem_append.mp hmem with hold | hnew
  · exact hpolls poll hold
  · rw [List.mem_singleton.mp hnew]

theorem Polled.polls_grow {b b' : Board DHTesp} (h : Polled b b') :
    b.mem.polls <+: b'.mem.polls := by
  cases h with
  | skipped instant _ _ _ hmem => exact ⟨[⟨instant, false⟩], by rw [hmem]; rfl⟩
  | sampled instant sampling _ _ _ hmem =>
      exact ⟨[⟨instant, true⟩], by rw [hmem, take, store_polls]⟩

theorem Calls.polls_grow {b b' : Board DHTesp} (h : Calls b b') :
    b.mem.polls <+: b'.mem.polls := by
  induction h with
  | refl => exact List.prefix_refl _
  | tail _ hlast ih => exact ih.trans hlast.polls_grow

theorem Calls.clock {b b' : Board DHTesp} (h : Calls b b') : b.clock ≤ b'.clock := by
  induction h with
  | refl => exact le_rfl
  | tail _ hlast ih => exact ih.trans hlast.clock

theorem Calls.decoded {b b' : Board DHTesp} (h : Calls b b') (hdecoded : Decoded b.mem) :
    Decoded b'.mem := by
  induction h with
  | refl => exact hdecoded
  | tail _ hlast ih => exact ih.polled hlast

/-- Within 999 milliseconds of the last sampling no call makes another. -/
theorem Calls.answers {b b' : Board DHTesp} {last : ℕ} (h : Calls b b')
    (hmodel : b.mem.model = .dht11) (hlast : b.mem.lastReadTime = UInt32.ofNat last)
    (hstart : last ≤ b.clock) (hnear : ∀ poll ∈ b'.mem.polls, poll.instant < last + 999) :
    Answers b.mem b'.mem := by
  induction h with
  | refl => exact Answers.refl _
  | @tail middle final hcalls hpolled ih =>
      have hgrown := hpolled.polls_grow
      have hrest := ih fun poll hmem => hnear poll (hgrown.subset hmem)
      have hclock := Calls.clock hcalls
      cases hpolled with
      | skipped instant _ _ _ hmem =>
          rw [hmem]
          exact hrest.skip instant
      | sampled instant sampling hlow _ hsoon hmem =>
          -- such a call would be too soon after the last sampling
          obtain ⟨polls, hmiddle, -⟩ := hrest
          have hinstant : instant < last + 999 := by
            apply hnear ⟨instant, true⟩
            rw [hmem, take, store_polls]
            simp
          have hfields : middle.mem.model = .dht11 ∧
              middle.mem.lastReadTime = UInt32.ofNat last := by
            rw [hmiddle]
            exact ⟨hmodel, hlast⟩
          rw [tooSoon_of_lt hfields.1 hfields.2 (hstart.trans (hclock.trans hlow)) hinstant] at hsoon
          cases hsoon

/-! ## Two readings from one sampling -/

/-- Since its lists were cleared the library has sampled once, with its first call. -/
structure SampledOnce (instant : ℕ) (sampling : Sampling) (d : DHTesp) : Prop where
  polls : ∃ rest, d.polls = ⟨instant, true⟩ :: rest ∧ ∀ poll ∈ rest, poll.sampled = false
  samplings : d.samplings = [sampling]
  lastReadTime : d.lastReadTime = UInt32.ofNat instant
  readings : d.temperature = sampling.temperature ∧ d.humidity = sampling.humidity

theorem SampledOnce.answers {instant : ℕ} {sampling : Sampling} {d d' : DHTesp}
    (h : SampledOnce instant sampling d) (hanswers : Answers d d') :
    SampledOnce instant sampling d' := by
  obtain ⟨polls, rfl, hpolls⟩ := hanswers
  obtain ⟨rest, hrest, hunsampled⟩ := h.polls
  refine ⟨⟨rest ++ polls, by simp [hrest], fun poll hmem => ?_⟩, h.samplings, h.lastReadTime,
    h.readings⟩
  rcases List.mem_append.mp hmem with hold | hnew
  · exact hunsampled poll hold
  · exact hpolls poll hnew

/-- The first call after a pause samples the sensor; none of the calls in the 999 milliseconds
after it does so again. -/
theorem sampled_once {b b₁ b₂ b₃ : Board DHTesp} (hpolls : b.mem.polls = [])
    (hsamplings : b.mem.samplings = []) (hmodel : b.mem.model = .dht11) (hfirst : Polled b b₁)
    (hrest : Calls b₁ b₂) (hlater : Calls b₂ b₃)
    (hfresh : ∀ poll rest, b.clock ≤ poll.instant → b₃.mem.polls = poll :: rest →
      b.mem.tooSoon (UInt32.ofNat poll.instant) = false ∧
        ∀ p ∈ rest, p.instant < poll.instant + 999) :
    ∃ instant sampling, b.clock ≤ instant ∧ instant ≤ b₃.clock ∧
      SampledOnce instant sampling b₂.mem ∧ SampledOnce instant sampling b₃.mem := by
  have hall : Calls b₁ b₃ := hrest.trans hlater
  obtain ⟨rest, hgrown⟩ := hall.polls_grow
  cases hfirst with
  | skipped instant hlow hhigh hsoon hmem =>
      rw [hmem, skip, hpolls] at hgrown
      rw [(hfresh ⟨instant, false⟩ rest hlow hgrown.symm).1] at hsoon
      cases hsoon
  | sampled instant sampling hlow hhigh hsoon hmem =>
      have hmodel₁ : b₁.mem.model = .dht11 := by rw [hmem, take, store_model, hmodel]
      have hpolls₁ : b₁.mem.polls = [⟨instant, true⟩] := by
        rw [hmem, take, store_polls, hpolls, List.nil_append]
      have hsampled : SampledOnce instant sampling b₁.mem := by
        refine ⟨⟨[], hpolls₁, by simp⟩, ?_, ?_, ?_⟩
        · rw [hmem, take, store_samplings, hsamplings, List.nil_append]
        · rw [hmem, take, store_lastReadTime]
        · rw [hmem]
          exact take_readings hmodel instant sampling
      rw [hpolls₁] at hgrown
      have hnear : ∀ poll ∈ b₃.mem.polls, poll.instant < instant + 999 := by
        intro poll hpoll
        rw [← hgrown] at hpoll
        rcases List.mem_cons.mp hpoll with rfl | hmem'
        · exact Nat.lt_add_of_pos_right (by decide)
        · exact (hfresh ⟨instant, true⟩ rest hlow hgrown.symm).2 poll hmem'
      have hnear₂ : ∀ poll ∈ b₂.mem.polls, poll.instant < instant + 999 :=
        fun poll hpoll => hnear poll ((Calls.polls_grow hlater).subset hpoll)
      have hlast := hsampled.lastReadTime
      refine ⟨instant, sampling, hlow, hhigh.trans hall.clock, ?_, ?_⟩
      · exact hsampled.answers (hrest.answers hmodel₁ hlast hhigh hnear₂)
      · exact hsampled.answers (hall.answers hmodel₁ hlast hhigh hnear)

end DHTesp

/-! ## The decoding of a frame

A DHT11 value is put together in double precision and then stored in a float. The second rounding
gives what a single one gives: scaled to the spacing of the floats, tenths are fifths, and
stay away from the points where rounding turns.
-/

open Rounding

/-- Tenths lie within two fifths of the spacing from a multiple of it. -/
theorem exists_near_ulp (n : ℕ) {z : ℚ} {k : ℕ} (hulp : ulp 24 z = 1 / 2 ^ (k + 1)) :
    ∃ m : ℤ, |(n : ℚ) / 10 - m * ulp 24 z| ≤ 2 / 5 * ulp 24 z := by
  obtain ⟨m, hlow, hhigh⟩ : ∃ m : ℤ, (n : ℤ) * 2 ^ k - 2 ≤ 5 * m ∧ 5 * m ≤ n * 2 ^ k + 2 :=
    ⟨(n * 2 ^ k + 2) / 5, by omega, by omega⟩
  have hlow' : (n : ℚ) * 2 ^ k - 2 ≤ 5 * m := by exact_mod_cast hlow
  have hhigh' : 5 * (m : ℚ) ≤ n * 2 ^ k + 2 := by exact_mod_cast hhigh
  have hscaled : (n : ℚ) / 10 - m * ulp 24 z = (n * 2 ^ k - 5 * m) / 5 * ulp 24 z := by
    rw [hulp, pow_succ]
    field_simp
    ring
  refine ⟨m, ?_⟩
  rw [hscaled, abs_mul, abs_of_pos (ulp_pos 24 z)]
  apply mul_le_mul_of_nonneg_right _ (ulp_pos 24 z).le
  rw [abs_le]
  constructor <;> linarith

/-- Tenths so close to a power of two are that power. -/
theorem tenths_eq_zpow {n : ℕ} {e : ℤ} (he : -4 ≤ e) (h : |(n : ℚ) / 10 - 2 ^ e| ≤ 1 / 2 ^ 44) :
    (n : ℚ) / 10 = 2 ^ e := by
  obtain ⟨d, hd⟩ : ∃ d : ℕ, e = d - 4 := ⟨(e + 4).toNat, by omega⟩
  have hpow : (2 : ℚ) ^ e = 2 ^ d / 16 := by
    rw [hd, zpow_sub₀ (by norm_num), zpow_natCast]
    norm_num
  rw [hpow] at h ⊢
  have hint : |((8 * n - 5 * 2 ^ d : ℤ) : ℚ)| < 1 := by
    have hscaled : ((8 * n - 5 * 2 ^ d : ℤ) : ℚ) = 80 * ((n : ℚ) / 10 - 2 ^ d / 16) := by
      push_cast
      ring
    rw [hscaled, abs_mul]
    norm_num at h ⊢
    linarith
  have hzero : (8 * n - 5 * 2 ^ d : ℤ) = 0 := Int.abs_lt_one_iff.mp (by exact_mod_cast hint)
  have hcast : (8 * n : ℚ) = 5 * 2 ^ d := by exact_mod_cast (sub_eq_zero.mp hzero)
  linarith

theorem log_bounds {x : ℚ} (hlow : 1 / 32 ≤ x) (hhigh : x < 512) :
    -5 ≤ Int.log 2 |x| ∧ Int.log 2 |x| < 9 := by
  have hpos : 0 < x := by linarith
  rw [abs_of_pos hpos]
  constructor
  · apply (Int.zpow_le_iff_le_log (by norm_num) hpos).mp
    norm_num
    linarith
  · apply (Int.lt_zpow_iff_log_lt (by norm_num) hpos).mp
    norm_num
    linarith

theorem ulp_eq {x : ℚ} (hlow : 1 / 32 ≤ x) (hhigh : x < 512) :
    ∃ k : ℕ, k ≤ 27 ∧ ulp 24 x = 1 / 2 ^ (k + 1) := by
  obtain ⟨hlog, hlog'⟩ := log_bounds hlow hhigh
  obtain ⟨k, hk⟩ : ∃ k : ℕ, Int.log 2 |x| - ((24 : ℕ) - 1) = -((k + 1 : ℕ) : ℤ) :=
    ⟨(22 - Int.log 2 |x|).toNat, by push_cast; omega⟩
  refine ⟨k, by push_cast at hk; omega, ?_⟩
  rw [ulp, hk, zpow_neg, zpow_natCast, one_div]

theorem le_ulp {x : ℚ} (hlow : 1 / 32 ≤ x) (hhigh : x < 512) : 1 / 2 ^ 28 ≤ ulp 24 x := by
  obtain ⟨k, hk, hulp⟩ := ulp_eq hlow hhigh
  rw [hulp]
  apply one_div_le_one_div_of_le (by positivity)
  exact pow_le_pow_right₀ (by norm_num) (by omega)

/-- On one spacing, what is near tenths rounds as the tenths do. -/
theorem binary32_eq_of_ulp_eq {n : ℕ} {z : ℚ} (hlow : 1 / 32 ≤ z) (hhigh : z < 512)
    (hz : |z - n / 10| ≤ 1 / 2 ^ 44) (hulp : ulp 24 (n / 10) = ulp 24 z) :
    binary32 z = binary32 (n / 10) := by
  obtain ⟨k, -, hk⟩ := ulp_eq hlow hhigh
  obtain ⟨m, hm⟩ := exists_near_ulp n hk
  have hle := le_ulp hlow hhigh
  norm_num at hle hz
  have hround : binary32 z = m * ulp 24 z := by
    apply roundTo_eq_mul_ulp
    calc |z - m * ulp 24 z| ≤ |z - n / 10| + |(n : ℚ) / 10 - m * ulp 24 z| := abs_sub_le _ _ _
      _ < ulp 24 z / 2 := by linarith
  have htenths : binary32 (n / 10) = m * ulp 24 (n / 10) := by
    apply roundTo_eq_mul_ulp
    rw [hulp]
    linarith
  rw [hround, htenths, hulp]

/-- Numbers on the two sides of a power of two, so close to each other, round to that power. -/
theorem binary32_eq_of_log_ne {n : ℕ} {z : ℚ} (hlow : 1 / 32 ≤ z) (hhigh : z < 512) (hn : 0 < n)
    (hz : |z - n / 10| ≤ 1 / 2 ^ 44) (hlog : Int.log 2 |(n : ℚ) / 10| ≠ Int.log 2 |z|) :
    binary32 z = binary32 (n / 10) := by
  have hn1 : (1 : ℚ) ≤ n := by exact_mod_cast hn
  have hzpos : 0 < z := by linarith
  have hypos : (0 : ℚ) < n / 10 := by positivity
  rw [abs_of_pos hypos, abs_of_pos hzpos] at hlog
  obtain ⟨hnear, hnear'⟩ := abs_le.mp hz
  have hlogy : -4 ≤ Int.log 2 ((n : ℚ) / 10) := by
    apply (Int.zpow_le_iff_le_log (by norm_num) hypos).mp
    norm_num
    linarith
  -- the power of two between the two numbers
  obtain ⟨e, he, hge, hpower⟩ : ∃ e : ℤ, -4 ≤ e ∧ Int.log 2 z ≤ e ∧
      |(n : ℚ) / 10 - 2 ^ e| ≤ 1 / 2 ^ 44 := by
    rcases lt_or_gt_of_ne hlog with hlt | hgt
    · have hbelow := Int.zpow_log_le_self (b := 2) (by norm_num) hzpos
      have habove : (n : ℚ) / 10 < ((2 : ℕ) : ℚ) ^ Int.log 2 z :=
        (Int.lt_zpow_iff_log_lt (by norm_num) hypos).mpr hlt
      push_cast at hbelow habove
      refine ⟨Int.log 2 z, by omega, le_rfl, ?_⟩
      rw [abs_le]
      constructor <;> linarith
    · have hbelow := Int.zpow_log_le_self (b := 2) (by norm_num) hypos
      have habove : z < ((2 : ℕ) : ℚ) ^ Int.log 2 ((n : ℚ) / 10) :=
        (Int.lt_zpow_iff_log_lt (by norm_num) hzpos).mpr hgt
      push_cast at hbelow habove
      refine ⟨Int.log 2 ((n : ℚ) / 10), hlogy, hgt.le, ?_⟩
      rw [abs_le]
      constructor <;> linarith
  have hy := tenths_eq_zpow he hpower
  have hexact : binary32 (2 ^ e) = 2 ^ e := roundTo_of_representable (representable_zpow (by norm_num) e)
  -- the power is a multiple of the spacing around `z`
  obtain ⟨d, hd⟩ : ∃ d : ℕ, e = d + (Int.log 2 |z| - ((24 : ℕ) - 1)) := by
    rw [abs_of_pos hzpos]
    exact ⟨(e - (Int.log 2 z - ((24 : ℕ) - 1))).toNat, by push_cast; omega⟩
  have hmul : (2 : ℚ) ^ e = ((2 ^ d : ℤ) : ℚ) * ulp 24 z := by
    rw [ulp]
    push_cast
    rw [← zpow_natCast, ← zpow_add₀ (by norm_num)]
    exact congrArg _ hd
  have hround : binary32 z = ((2 ^ d : ℤ) : ℚ) * ulp 24 z := by
    apply roundTo_eq_mul_ulp
    have hle := le_ulp hlow hhigh
    rw [← hmul, ← hy]
    norm_num at hle hz
    linarith
  rw [hround, ← hmul, hy, hexact]

/-- What is near tenths rounds as the tenths do. -/
theorem binary32_eq_of_near {n : ℕ} {z : ℚ} (hn : 0 < n) (hsmall : n < 5000)
    (hz : |z - n / 10| ≤ 1 / 2 ^ 44) : binary32 z = binary32 (n / 10) := by
  have hn1 : (1 : ℚ) ≤ n := by exact_mod_cast hn
  have hn5000 : (n : ℚ) < 5000 := by exact_mod_cast hsmall
  obtain ⟨hnear, hnear'⟩ := abs_le.mp hz
  norm_num at hnear hnear'
  have hlow : 1 / 32 ≤ z := by linarith
  have hhigh : z < 512 := by linarith
  by_cases hlog : Int.log 2 |(n : ℚ) / 10| = Int.log 2 |z|
  · exact binary32_eq_of_ulp_eq hlow hhigh hz (by rw [ulp, ulp, hlog])
  · exact binary32_eq_of_log_ne hlow hhigh hn hz hlog

/-- A decoded byte pair is the float nearest to its tenths. -/
theorem tenths_eq {hi lo : ℕ} (hhi : hi < 256) (hlo : lo < 256) :
    tenths hi lo = binary32 ((10 * hi + lo : ℕ) / 10) := by
  rcases Nat.eq_zero_or_pos (10 * hi + lo) with hzero | hpos
  · obtain ⟨rfl, rfl⟩ : hi = 0 ∧ lo = 0 := by omega
    simp [tenths, binary32, binary64]
  · apply binary32_eq_of_near hpos (by omega)
    have hhi' : (hi : ℚ) ≤ 255 := by exact_mod_cast Nat.le_of_lt_succ hhi
    have hlo' : (lo : ℚ) ≤ 255 := by exact_mod_cast Nat.le_of_lt_succ hlo
    have hhi0 : (0 : ℚ) ≤ hi := hi.cast_nonneg
    have hlo0 : (0 : ℚ) ≤ lo := lo.cast_nonneg
    have htenth : |binary64 (1 / 10) - 1 / 10| ≤ 2 ^ (-4 - 52 : ℤ) / 2 :=
      abs_binary64_sub_le (-4) (b := 1 / 8) (by norm_num) (by norm_num)
    generalize binary64 (1 / 10) = c at htenth ⊢
    obtain ⟨hc, hc'⟩ := abs_le.mp htenth
    norm_num at hc hc'
    have hscaled : |(lo : ℚ) * c - lo / 10| ≤ 255 * (2 ^ (-4 - 52 : ℤ) / 2) := by
      have hfactor : (lo : ℚ) * c - lo / 10 = lo * (c - 1 / 10) := by ring
      rw [hfactor, abs_mul, abs_of_nonneg hlo0]
      exact mul_le_mul hlo' htenth (abs_nonneg _) (by norm_num)
    obtain ⟨hs, hs'⟩ := abs_le.mp hscaled
    norm_num at hs hs'
    have hproduct : |binary64 (lo * c) - lo * c| ≤ 2 ^ (4 - 52 : ℤ) / 2 :=
      abs_binary64_sub_le 4 (b := 32) (by rw [abs_lt]; constructor <;> linarith) (by norm_num)
    generalize binary64 (lo * c) = p at hproduct ⊢
    obtain ⟨hp, hp'⟩ := abs_le.mp hproduct
    norm_num at hp hp'
    have hsum : |binary64 (hi + p) - (hi + p)| ≤ 2 ^ (8 - 52 : ℤ) / 2 :=
      abs_binary64_sub_le 8 (b := 512) (by rw [abs_lt]; constructor <;> linarith) (by norm_num)
    obtain ⟨hq, hq'⟩ := abs_le.mp hsum
    norm_num at hq hq'
    push_cast
    rw [abs_le]
    norm_num
    constructor <;> linarith

namespace Frame

variable (f : Frame)

/-- The tenths that the humidity bytes count. -/
def humidityTenths : ℕ := 10 * (f.rawHumidity >>> 8).toNat + (f.rawHumidity &&& 0x00FF).toNat

/-- The tenths that the temperature bytes count, without the sign. -/
def temperatureTenths : ℕ := 10 * (f.rawTemperature >>> 8).toNat + (f.rawTemperature &&& 0x007F).toNat

/-- Whether the temperature bytes say that it is below zero. -/
def belowZero : Bool := f.rawTemperature &&& 0x0080 ≠ 0

theorem toNat_shiftRight_lt (x : UInt16) : (x >>> 8).toNat < 256 := by
  have hx := x.toNat_lt
  have hshift : (x >>> 8).toNat = x.toNat / 256 := by
    simp [UInt16.toNat_shiftRight, Nat.shiftRight_eq_div_pow]
  omega

theorem toNat_and_le (x y : UInt16) : (x &&& y).toNat ≤ y.toNat := by
  rw [UInt16.toNat_and]
  exact Nat.and_le_right

theorem humidityTenths_le : f.humidityTenths ≤ 2805 := by
  have hhi := toNat_shiftRight_lt f.rawHumidity
  have hlo := toNat_and_le f.rawHumidity 0x00FF
  have hmask : (0x00FF : UInt16).toNat = 255 := rfl
  rw [humidityTenths]
  omega

theorem temperatureTenths_le : f.temperatureTenths ≤ 2677 := by
  have hhi := toNat_shiftRight_lt f.rawTemperature
  have hlo := toNat_and_le f.rawTemperature 0x007F
  have hmask : (0x007F : UInt16).toNat = 127 := rfl
  rw [temperatureTenths]
  omega

theorem humidity11_eq : f.humidity11 = binary32 (f.humidityTenths / 10) := by
  apply tenths_eq (toNat_shiftRight_lt _)
  exact (toNat_and_le f.rawHumidity 0x00FF).trans_lt (by decide)

theorem temperature11_eq :
    f.temperature11 = (if f.belowZero then -1 else 1) * binary32 (f.temperatureTenths / 10) := by
  have hmagnitude : tenths (f.rawTemperature >>> 8).toNat (f.rawTemperature &&& 0x007F).toNat =
      binary32 (f.temperatureTenths / 10) := by
    apply tenths_eq (toNat_shiftRight_lt _)
    exact (toNat_and_le f.rawTemperature 0x007F).trans_lt (by decide)
  rw [temperature11, hmagnitude]
  by_cases hsign : f.rawTemperature &&& 0x0080 = 0
  · simp [belowZero, hsign]
  · simp [belowZero, hsign]

end Frame

end Arduino
