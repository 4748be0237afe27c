import Mathlib.Data.List.Chain
import Mathlib.Data.List.Induction
import Prometeus.Arduino.DHTespLaws

/-! # The pace of the samplings

The sensor has to rest between two samplings. `readSensor` decides by two clock readings whether it may
sample again; otherwise the fields of the last sampling have to do.
-/

namespace Arduino

open Script Sketch

/-- The values of a sampling, NaN when it failed. -/
def Sampling.temperatureOf (model : DhtModel) : Sampling → Single
  | .frame f => some (if model = .dht11 then f.temperature11 else f.temperature22)
  | _ => none

def Sampling.humidityOf (model : DhtModel) : Sampling → Single
  | .frame f => some (if model = .dht11 then f.humidity11 else f.humidity22)
  | _ => none

namespace DHTesp

/-- How long the sensor rests, in milliseconds. -/
def rest (d : DHTesp) : ℕ := if d.model = .dht11 then 999 else 1999

/-- The instants of the samplings. -/
def sampledAt (polls : List Poll) : List ℕ := (polls.filter (·.sampled)).map Poll.instant

/-- A call after a sampling at `last` samples exactly when the sensor has rested, as far as a clock of 32 bits
can tell. -/
def Due (rest last : ℕ) (poll : Poll) : Prop :=
  last ≤ poll.instant ∧ (poll.sampled = true ↔ rest ≤ (poll.instant - last) % 2 ^ 32)

/-- Every call but those before the first sampling is due in this sense. -/
def Rated (rest : ℕ) (polls : List Poll) : Prop :=
  ∀ before poll after, polls = before ++ poll :: after → ∀ last ∈ (sampledAt before).getLast?,
    Due rest last poll

theorem sampledAt_snoc (polls : List Poll) (poll : Poll) :
    sampledAt (polls ++ [poll]) =
      if poll.sampled then sampledAt polls ++ [poll.instant] else sampledAt polls := by
  cases h : poll.sampled with
  | true => simp [sampledAt, h]
  | false => simp [sampledAt, h]

theorem Rated.snoc {rest : ℕ} {polls : List Poll} (h : Rated rest polls) {poll : Poll}
    (hdue : ∀ last ∈ (sampledAt polls).getLast?, Due rest last poll) : Rated rest (polls ++ [poll]) := by
  intro before poll' after hpolls
  rcases List.eq_nil_or_concat after with rfl | ⟨after', final, rfl⟩
  · obtain ⟨rfl, hpoll⟩ := List.append_inj' hpolls rfl
    obtain rfl := List.singleton_inj.mp hpoll
    exact hdue
  · rw [List.concat_eq_append, ← List.cons_append, ← List.append_assoc] at hpolls
    obtain ⟨rfl, -⟩ := List.append_inj' hpolls rfl
    exact h before poll' after' rfl

/-- The sensor is never sampled before it has rested. -/
theorem Rated.spaced {rest : ℕ} {polls : List Poll} (h : Rated rest polls) :
    (sampledAt polls).IsChain fun s s' => s + rest ≤ s' := by
  induction polls using List.reverseRecOn with
  | nil => exact .nil
  | append_singleton polls poll ih =>
      have hinit : Rated rest polls := by
        intro before poll' after hpolls
        exact h before poll' (after ++ [poll]) (by rw [hpolls]; simp)
      rw [sampledAt_snoc]
      split
      next hsampled =>
        rw [List.isChain_append]
        refine ⟨ih hinit, .singleton _, fun last hlast next hnext => ?_⟩
        obtain rfl : poll.instant = next := by simpa using hnext
        obtain ⟨hpast, hdue⟩ := h polls poll [] rfl last hlast
        have hrested := (hdue.mp hsampled).trans (Nat.mod_le _ _)
        omega
      next => exact ih hinit

/-- What holds before and after each call. -/
structure Paced (b : Board DHTesp) : Prop where
  past : ∀ poll ∈ b.mem.polls, poll.instant ≤ b.clock
  last : ∀ last ∈ (sampledAt b.mem.polls).getLast?, b.mem.lastReadTime = UInt32.ofNat last
  rated : Rated b.mem.rest b.mem.polls
  readings : ∀ s ∈ b.mem.samplings.getLast?,
    b.mem.temperature = s.temperatureOf b.mem.model ∧ b.mem.humidity = s.humidityOf b.mem.model

variable {b b' : Board DHTesp}

theorem Paced.past_of_last (h : Paced b) {last : ℕ} (hlast : last ∈ (sampledAt b.mem.polls).getLast?) :
    last ≤ b.clock := by
  obtain ⟨poll, hpoll, rfl⟩ := List.mem_map.mp (List.mem_of_getLast? hlast)
  exact h.past poll (List.mem_filter.mp hpoll).1

/-- `tooSoon`, by the instants themselves. -/
theorem tooSoon_eq_false_iff {d : DHTesp} {last instant : ℕ} (hlast : d.lastReadTime = UInt32.ofNat last)
    (hpast : last ≤ instant) :
    d.tooSoon (UInt32.ofNat instant) = false ↔ d.rest ≤ (instant - last) % 2 ^ 32 := by
  rw [tooSoon, hlast, decide_eq_false_iff_not, UInt32.lt_iff_toNat_lt, toNat_millis_sub hpast, not_lt, rest]
  split <;> rfl

theorem Paced.due (h : Paced b) {instant : ℕ} (hinstant : b.clock ≤ instant) (last : ℕ)
    (hlast : last ∈ (sampledAt b.mem.polls).getLast?) :
    Due b.mem.rest last ⟨instant, !b.mem.tooSoon (UInt32.ofNat instant)⟩ := by
  have hpast := (h.past_of_last hlast).trans hinstant
  refine ⟨hpast, ?_⟩
  rw [Bool.not_eq_true']
  exact tooSoon_eq_false_iff (h.last last hlast) hpast

theorem Paced.past_snoc (h : Paced b) {clock : ℕ} {poll : Poll} (hlow : b.clock ≤ poll.instant)
    (hhigh : poll.instant ≤ clock) : ∀ poll' ∈ b.mem.polls ++ [poll], poll'.instant ≤ clock := by
  intro poll' hpoll
  rcases List.mem_append.mp hpoll with hold | hnew
  · exact (h.past poll' hold).trans (hlow.trans hhigh)
  · rw [List.mem_singleton.mp hnew]
    exact hhigh

theorem take_values (instant : ℕ) (s : Sampling) (d : DHTesp) :
    (d.take instant s).temperature = s.temperatureOf d.model ∧
      (d.take instant s).humidity = s.humidityOf d.model := by
  cases s with
  | timeout => exact ⟨rfl, rfl⟩
  | checksum => exact ⟨rfl, rfl⟩
  | frame f =>
      by_cases hmodel : d.model = .dht11
      · simp [take, store, hmodel, Sampling.temperatureOf, Sampling.humidityOf]
      · simp [take, store, hmodel, Sampling.temperatureOf, Sampling.humidityOf]

theorem Paced.polled (h : Paced b) (hpolled : Polled b b') : Paced b' := by
  cases hpolled with
  | skipped instant hlow hhigh hsoon hmem =>
      have hdue := h.due hlow
      rw [hsoon] at hdue
      constructor
      · rw [hmem]
        exact h.past_snoc hlow hhigh
      · rw [hmem, skip, sampledAt_snoc]
        exact h.last
      · rw [hmem]
        exact h.rated.snoc hdue
      · rw [hmem]
        exact h.readings
  | sampled instant sampling hlow hhigh hsoon hmem =>
      have hdue := h.due hlow
      rw [hsoon] at hdue
      have hpolls : b'.mem.polls = b.mem.polls ++ [⟨instant, true⟩] := by rw [hmem, take, store_polls]
      have hmodel : b'.mem.model = b.mem.model := by rw [hmem, take, store_model]
      constructor
      · rw [hpolls]
        exact h.past_snoc hlow hhigh
      · intro last hlast
        rw [hpolls, sampledAt_snoc, if_pos rfl, List.getLast?_append_of_ne_nil _ (List.cons_ne_nil _ _)] at hlast
        obtain rfl := Option.some.inj hlast
        rw [hmem, take, store_lastReadTime]
        rfl
      · rw [hpolls, rest, hmodel]
        exact h.rated.snoc hdue
      · intro s hs
        rw [hmodel]
        rw [hmem, take, store_samplings, List.getLast?_concat] at hs
        obtain rfl := Option.some.inj hs
        rw [hmem]
        exact take_values instant sampling b.mem

theorem Paced.later (h : Paced b) {clock : ℕ} (hclock : b.clock ≤ clock) : Paced ⟨clock, b.mem⟩ :=
  ⟨fun poll hpoll => (h.past poll hpoll).trans hclock, h.last, h.rated, h.readings⟩

theorem Paced.polledTwice (h : Paced b) (hpolled : PolledTwice b b') : Paced b' := by
  obtain ⟨middle, hfirst, rfl | hsecond⟩ := hpolled
  · exact h.polled hfirst
  · exact (h.polled hfirst).polled hsecond

/-! ## Runs -/

/-- What a sketch does with the library. -/
inductive Use
  | temperature
  | humidity
  | wait (ms : ℕ)
deriving DecidableEq, Repr

def perform : List Use → Sketch DHTesp Unit
  | [] => pure ()
  | .temperature :: uses => do
      let _ ← getTemperature
      perform uses
  | .humidity :: uses => do
      let _ ← getHumidity
      perform uses
  | .wait ms :: uses => do
      delay ms
      perform uses

theorem wp_perform (uses : List Use) (h : Paced b) :
    wp (perform uses) (fun _ => Paced) (fun _ => True) b := by
  induction uses generalizing b with
  | nil => exact wp_pure.mpr h
  | cons use uses ih =>
      cases use with
      | temperature =>
          refine wp_seq wp_getTemperature (fun _ _ => trivial) ?_
          exact fun _ b₁ hb₁ => ih (h.polledTwice hb₁.1)
      | humidity =>
          refine wp_seq wp_getHumidity (fun _ _ => trivial) ?_
          exact fun _ b₁ hb₁ => ih (h.polledTwice hb₁.1)
      | wait ms =>
          rw [perform, wp_delay_bind]
          refine ⟨trivial, fun elapsed => ih (h.later ?_)⟩
          rw [Nat.add_assoc]
          exact Nat.le_add_right _ _

/-- The library after `setup()` for a DHT11 at power-on. -/
def fresh : Board DHTesp where
  clock := 0
  mem := resetAt 0 {}

def freshUses : List Use := [.temperature, .humidity, .wait 1000, .humidity]

end DHTesp

end Arduino
