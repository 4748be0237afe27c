import Prometeus.Arduino.PubSubClient
import Prometeus.Foundation.Built

/-! # How sketches use a part of their memory

A sketch keeps its libraries as parts of its memory. Where it works on one of them through the functions of
the library only, what these functions keep of the part, the whole sketch keeps.
-/

namespace Arduino

open Script Sketch Mqtt

variable {μ ν α : Type}

/-- What a sketch does in one step, as seen from one part of its memory. -/
inductive Apart (get : μ → ν) (put : ν → μ → μ) (Part : (α : Type) → Sketch ν α → Prop) :
    (α : Type) → Sketch μ α → Prop
  | part {α : Type} {m : Sketch ν α} (hm : Part α m) : Apart get put Part α (within get put m)
  | aside {ξ α : Type} {get' : μ → ξ} {put' : ξ → μ → μ} (hput : ∀ x s, get (put' x s) = get s)
      (m : Sketch ξ α) : Apart get put Part α (within get' put' m)
  | modify {f : μ → μ} (hf : ∀ s, get (f s) = get s) : Apart get put Part Unit (modify f)
  | call : Apart get put Part Answer call
  | read : Apart get put Part (Board μ) read
  | delay (ms : ℕ) : Apart get put Part Unit (delay ms)

/-- A part of the memory, on the clock of the sketch. -/
def partOf (get : μ → ν) (b : Board μ) : Board ν := ⟨b.clock, get b.mem⟩

variable {get : μ → ν} {put : ν → μ → μ} {Part : (α : Type) → Sketch ν α → Prop}

theorem wp_apart {I J : Board ν → Prop} (hget : ∀ x s, get (put x s) = x) (hcut : ∀ b, I b → J b)
    (hclock : ∀ (b : Board ν) (clock : ℕ), I b → I ⟨clock, b.mem⟩)
    (hpart : ∀ (α : Type) (m : Sketch ν α), Part α m → ∀ b, I b → wp m (fun _ => I) J b)
    (m : Sketch μ α) (h : Apart get put Part α m) (b : Board μ) (hb : I (partOf get b)) :
    wp m (fun _ t => I (partOf get t)) (fun t => J (partOf get t)) b := by
  -- All steps but those on the part itself leave the part as it is.
  have hlater : ∀ (mem : μ) (clock : ℕ), get mem = get b.mem → I (partOf get ⟨clock, mem⟩) := by
    intro mem clock hmem
    rw [partOf, hmem]
    exact hclock _ clock hb
  cases h with
  | part hm =>
      apply wp_within
      refine wp_mono (hpart _ _ hm _ hb) ?_ ?_
      · intro _ part hkept
        rwa [partOf, hget]
      · intro part hkept
        rwa [partOf, hget]
  | aside hput m =>
      apply wp_within
      refine wp_mono (wp_true m _) ?_ ?_
      · exact fun _ part _ => hlater _ _ (hput part.mem b.mem)
      · exact fun part _ => hcut _ (hlater _ _ (hput part.mem b.mem))
  | modify hf =>
      rw [wp_modify]
      exact hlater _ _ (hf b.mem)
  | call =>
      rw [← bind_pure call, wp_call_bind]
      exact ⟨hcut _ hb, fun answer => wp_pure.mpr (hlater _ _ rfl)⟩
  | read =>
      rw [← bind_pure read, wp_read_bind, wp_pure]
      exact hb
  | delay ms =>
      rw [wp_delay]
      exact ⟨hcut _ hb, fun elapsed => hlater _ _ rfl⟩

/-- The programs that keep `I`, and in their middle `J`. -/
def Keeping (I J : Board ν → Prop) (α : Type) (m : Sketch ν α) : Prop :=
  ∀ b, I b → wp m (fun _ => I) J b

/-- The frame rule of a sketch that is built from such steps. -/
theorem wp_built_apart {I J : Board ν → Prop} {m : Sketch μ α}
    (h : Built (Apart get put (Keeping I J)) m) (hget : ∀ x s, get (put x s) = x) (hcut : ∀ b, I b → J b)
    (hclock : ∀ (b : Board ν) (clock : ℕ), I b → I ⟨clock, b.mem⟩) {b : Board μ}
    (hb : I (partOf get b)) :
    wp m (fun _ t => I (partOf get t)) (fun t => J (partOf get t)) b :=
  h.keeps (fun _ => hcut _) (fun _ m hm => wp_apart hget hcut hclock (fun _ _ h => h) m hm) hb

theorem built_load : Built (Apart get put Part) load :=
  .andThen (.part .read) fun b => .done b.mem

theorem built_millis : Built (Apart get put Part) millis :=
  .andThen (.part .call) fun _ => .andThen (.part .read) fun b => .done (UInt32.ofNat b.clock)

theorem built_await (pause : ℕ) : Built (Apart get put Part) (await pause) :=
  .whileDo (.andThen (.part .call) fun status => .done (!status.ok)) (.part (.delay pause))

/-! ## The MQTT client -/

namespace PubSubClient

variable {δ : Type}

/-- What a sketch calls while it works with the client, and the topics it may subscribe to. -/
inductive Operation (topics : Bytes → Prop) :
    (α : Type) → Sketch (PubSubClient δ) α → Prop
  | call : Operation topics Answer call
  | delay (ms : ℕ) : Operation topics Unit (delay ms)
  | connected : Operation topics Bool connected
  | connect (id : Bytes) : Operation topics Bool (connect id)
  | publish (topic payload : Bytes) (retained : Bool) : Operation topics Bool (publish topic payload retained)
  | subscribe {topic : Bytes} (htopic : topics topic) (qos : UInt8) :
      Operation topics Bool (subscribe topic qos)
  | loop : Operation topics Bool loop

end PubSubClient

end Arduino
