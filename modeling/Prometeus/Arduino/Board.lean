import Prometeus.Foundation.Script

/-! # The board a sketch runs on

A sketch is a program over its own memory and the clock of the board. Whatever it asks of its
surroundings (a clock reading, a byte, the state of a link) is one answer of the script, and time passes
only while it waits for one.
-/

namespace Arduino

open Script

/-- What the surroundings decide at one call into the core or a library. A call reads the
fields that concern it. -/
structure Answer where
  /-- Milliseconds that pass before the call is answered. -/
  elapsed : ℕ := 0
  /-- The TCP link of the client drops before the call. -/
  drops : Bool := false
  /-- A connection is accepted, a write takes its whole packet, a service is ready. -/
  ok : Bool := true
  /-- A number the call returns or depends on. -/
  number : ℕ := 0
  /-- Bytes that arrive on the link. -/
  bytes : List UInt8 := []
  /-- How long each edge of the sensor's answer took, in microseconds. -/
  edges : List ℕ := []
deriving Repr

/-- Answers of untroubled surroundings. -/
def calm (count : ℕ) : List Answer := List.replicate count {}

structure Board (μ : Type) where
  /-- Milliseconds since power-on; never wraps, unlike `millis`. -/
  clock : ℕ
  mem : μ

abbrev Sketch (μ : Type) := Script Answer (Board μ)

variable {μ ν α : Type}

namespace Sketch

/-- One call into the surroundings. -/
def call : Sketch μ Answer := do
  let answer ← next
  update fun b => { b with clock := b.clock + answer.elapsed }
  pure answer

/-- The sketch's memory. -/
def load : Sketch μ μ := do
  let b ← read
  pure b.mem

def modify (f : μ → μ) : Sketch μ Unit := update fun b => { b with mem := f b.mem }

/-- `millis()`: the clock modulo `2 ^ 32`. -/
def millis : Sketch μ UInt32 := do
  let _ ← call
  let b ← read
  pure (UInt32.ofNat b.clock)

/-- `delay(ms)`: at least `ms` milliseconds pass. -/
def delay (ms : ℕ) : Sketch μ Unit := do
  let _ ← call
  update fun b => { b with clock := b.clock + ms }

/-- Ask again and again, with a pause in between, until the answer is yes. -/
def await (pause : ℕ) : Sketch μ Unit :=
  whileDo
    (do
      let status ← call
      pure (!status.ok))
    (delay pause)

/-- Run code that works on one part of the memory. -/
def within (get : μ → ν) (put : ν → μ → μ) (m : Sketch ν α) : Sketch μ α :=
  focus (fun b => ⟨b.clock, get b.mem⟩) (fun part b => ⟨part.clock, put part.mem b.mem⟩) m

variable {b : Board μ} {C : Board μ → Prop}

@[simp] theorem wp_call_bind {Q : α → Board μ → Prop} {f : Answer → Sketch μ α} :
    wp (call >>= f) Q C b ↔ C b ∧ ∀ answer, wp (f answer) Q C ⟨b.clock + answer.elapsed, b.mem⟩ := by
  simp [call]

@[simp] theorem wp_load_bind {Q : α → Board μ → Prop} {f : μ → Sketch μ α} :
    wp (load >>= f) Q C b ↔ wp (f b.mem) Q C b := by
  simp [load]

@[simp] theorem wp_modify {Q : Unit → Board μ → Prop} {g : μ → μ} :
    wp (modify g) Q C b ↔ Q () ⟨b.clock, g b.mem⟩ := by
  simp [modify]

@[simp] theorem wp_modify_bind {Q : α → Board μ → Prop} {g : μ → μ} {f : Unit → Sketch μ α} :
    wp (modify g >>= f) Q C b ↔ wp (f ()) Q C ⟨b.clock, g b.mem⟩ := by
  simp [modify]

@[simp] theorem wp_millis_bind {Q : α → Board μ → Prop} {f : UInt32 → Sketch μ α} :
    wp (millis >>= f) Q C b ↔
      C b ∧ ∀ elapsed, wp (f (UInt32.ofNat (b.clock + elapsed))) Q C ⟨b.clock + elapsed, b.mem⟩ := by
  constructor
  · intro h
    simp only [millis, bind_assoc, wp_call_bind, wp_read_bind, pure_bind] at h
    exact ⟨h.1, fun elapsed => h.2 { elapsed }⟩
  · rintro ⟨hcut, hread⟩
    simp only [millis, bind_assoc, wp_call_bind, wp_read_bind, pure_bind]
    exact ⟨hcut, fun answer => hread answer.elapsed⟩

@[simp] theorem wp_delay_bind {Q : α → Board μ → Prop} {ms : ℕ} {f : Unit → Sketch μ α} :
    wp (delay ms >>= f) Q C b ↔
      C b ∧ ∀ elapsed, wp (f ()) Q C ⟨b.clock + elapsed + ms, b.mem⟩ := by
  constructor
  · intro h
    simp only [delay, bind_assoc, wp_call_bind, wp_update_bind] at h
    exact ⟨h.1, fun elapsed => h.2 { elapsed }⟩
  · rintro ⟨hcut, hlate⟩
    simp only [delay, bind_assoc, wp_call_bind, wp_update_bind]
    exact ⟨hcut, fun answer => hlate answer.elapsed⟩

@[simp] theorem wp_delay {Q : Unit → Board μ → Prop} {ms : ℕ} :
    wp (delay ms) Q C b ↔ C b ∧ ∀ elapsed, Q () ⟨b.clock + elapsed + ms, b.mem⟩ := by
  have h : wp (delay ms >>= pure) Q C b ↔ _ := wp_delay_bind
  simpa only [bind_pure, wp_pure] using h

/-- Waiting only lets time pass. -/
theorem wp_await {P : Board μ → Prop} {pause : ℕ} (h : ∀ clock, b.clock ≤ clock → P ⟨clock, b.mem⟩) :
    wp (await pause) (fun _ => P) P b := by
  have hpass : ∀ t : Board μ, b.clock ≤ t.clock ∧ t.mem = b.mem → P t := by
    rintro ⟨clock, mem⟩ ⟨hclock, rfl⟩
    exact h clock hclock
  apply wp_whileDo (fun t => b.clock ≤ t.clock ∧ t.mem = b.mem)
  · exact ⟨le_rfl, rfl⟩
  · exact hpass
  rintro ⟨clock, mem⟩ ⟨hclock, rfl⟩
  dsimp only at hclock
  rw [wp_call_bind]
  refine ⟨h clock hclock, fun status => ?_⟩
  have hlater : b.clock ≤ clock + status.elapsed := by omega
  rw [wp_pure]
  cases status.ok with
  | false =>
      rw [Bool.not_false, if_pos rfl, wp_delay]
      exact ⟨h _ hlater, fun waited => ⟨by dsimp only; omega, rfl⟩⟩
  | true =>
      rw [Bool.not_true, if_neg Bool.false_ne_true]
      exact h _ hlater

theorem wp_within {get : μ → ν} {put : ν → μ → μ} {m : Sketch ν α} {Q : α → Board μ → Prop}
    (h : wp m (fun a part => Q a ⟨part.clock, put part.mem b.mem⟩)
      (fun part => C ⟨part.clock, put part.mem b.mem⟩) ⟨b.clock, get b.mem⟩) :
    wp (within get put m) Q C b :=
  wp_focus h

theorem asks_call : Asks (call : Sketch μ Answer) := by
  intro b answers hresult
  cases answers with
  | nil => exact absurd rfl hresult
  | cons answer rest => exact Nat.lt_succ_self _

end Sketch

/-- The difference of two clock readings is the time between them, modulo `2 ^ 32`, also
across any number of wrap-arounds. -/
theorem toNat_millis_sub {earlier later : ℕ} (h : earlier ≤ later) :
    (UInt32.ofNat later - UInt32.ofNat earlier).toNat = (later - earlier) % 2 ^ 32 := by
  rw [UInt32.toNat_sub]
  simp only [UInt32.toNat_ofNat']
  omega

/-- Readings less than `2 ^ 32` milliseconds apart differ by the time between them. -/
theorem toNat_millis_sub_of_lt {earlier later : ℕ} (h : earlier ≤ later)
    (hnear : later < earlier + 2 ^ 32) :
    (UInt32.ofNat later - UInt32.ofNat earlier).toNat = later - earlier := by
  rw [toNat_millis_sub h, Nat.mod_eq_of_lt (by omega)]

end Arduino
