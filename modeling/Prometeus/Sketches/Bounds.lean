import Prometeus.Arduino.Bounds
import Prometeus.Sketches.PacketOrder

/-! # The buffers of the two sketches

The greenhouse sketch installs no callback, so nothing that a broker sends makes its clients write behind
their buffers. In the LED sketch the topics of the delivered packets do, where they claim to be too long.
-/

namespace Sketches

open Arduino Script Sketch Mqtt PubSubClient

variable {δ : Type}

theorem spilling_ensureConnected {clientId : Sketch (PubSubClient δ) Bytes} {topic payload : Bytes}
    {pause : ℕ} (hid : Spilling Bytes clientId) :
    Spilling Unit (ensureConnected (reconnectWith clientId topic payload pause)) := by
  have hconnected : Built Spilling (connected : Sketch (PubSubClient δ) Bool) :=
    .part (spilling_of_operation .connected)
  have htopic : inTopic.length ≠ 247 := by decide
  apply spilling_of_built
  refine .andThen hconnected fun up => .ite ?_ (.done ())
  refine .andThen (.whileDo (.andThen hconnected fun up => .done (!up)) ?_) fun _ => .part spilling_resume
  refine .andThen (.part hid) fun id => ?_
  refine .andThen (.part (spilling_of_operation (.connect id))) fun ok => .ite ?_ ?_
  · refine .andThen (.part (spilling_of_operation (.publish topic payload false))) fun _ => ?_
    exact .andThen (.part (spilling_of_operation (.subscribe htopic 0))) fun _ => .done ()
  · exact .part (spilling_of_operation (.delay pause))

namespace MqttEsp8266

/-- In every state of every run, the cells behind the buffer are what the topics of the delivered packets
have made of them; packets with room for their topic leave them alone. -/
theorem Run.cells_behind (r : Run) :
    (∀ i, mqttMaxPacketSize ≤ i → r.client.buffer i = spilled r.client.log r.buffer i) ∧
      ((∀ delivery ∈ r.deliveries, Roomy delivery.packet) →
        ∀ i, mqttMaxPacketSize ≤ i → r.client.buffer i = r.buffer i) := by
  have hid : Spilling Bytes clientId := by
    apply spilling_of_built
    exact .andThen (.part (spilling_of_operation .call)) fun _ => .done _
  have hcells : ∀ t : Board Globals, t.mem.client.log = [] → t.mem.client.buffer = r.buffer →
      Inside (spilled t.mem.client.log r.buffer) t.mem.client.buffer := by
    intro t hlog hbuffer
    rw [hlog, hbuffer]
    exact Inside.refl _
  have hrun : wp (run r.iterations) (fun _ t => Inside (spilled t.mem.client.log r.buffer) t.mem.client.buffer)
      (fun t => Inside (spilled t.mem.client.log r.buffer) t.mem.client.buffer)
      ⟨r.clock, Globals.init r.buffer r.led⟩ := by
    rw [run]
    refine wp_seq wp_setup (fun t ht => hcells t (by rw [ht]; rfl) (by rw [ht]; rfl)) ?_
    intro _ b₁ hb₁
    have hlog : (clientOf b₁).mem.log = [] := by
      rw [clientOf, hb₁]
      rfl
    have hbuffer : (clientOf b₁).mem.buffer = r.buffer := by
      rw [clientOf, hb₁]
      rfl
    -- The log of the client is empty after `setup`, so the events since then are the whole log.
    have hspilled : ∀ t : Board Globals, Spills (clientOf b₁) (clientOf t) →
        Inside (spilled t.mem.client.log r.buffer) t.mem.client.buffer := by
      intro t ht
      obtain ⟨events, hevents, -, hinside⟩ := ht.cells
      rw [hlog, List.nil_append] at hevents
      rw [hbuffer, ← hevents] at hinside
      exact hinside
    have hloops := wp_iterate_loop (fun _ h => h)
      (fun _ clock h => h.trans (stays_clock clock).spills)
      ((spilling_ensureConnected hid).keeping (clientOf b₁))
      ((spilling_of_operation .loop).keeping (clientOf b₁))
      (fun topic payload => (spilling_of_operation (.publish topic payload false)).keeping (clientOf b₁))
      (Stays.refl (clientOf b₁)).spills r.iterations
    exact wp_mono hloops (fun _ t ht => hspilled t ht) (fun t ht => hspilled t ht)
  have hinside : Inside (spilled r.client.log r.buffer) r.client.buffer := state_of_wp hrun r.answers
  exact ⟨hinside, fun hroomy => (inside_spilled hroomy r.buffer).trans hinside⟩

end MqttEsp8266

namespace Invernadero

/-- A client without a callback. -/
theorem inside_of_spills {b b' : Board (PubSubClient Unit)} (hcallback : b.mem.callback = none)
    (h : Spills b b') : Inside b.mem.buffer b'.mem.buffer := by
  obtain ⟨events, -, hnone, hinside⟩ := h.cells
  rwa [spilled_of_undelivered (hnone hcallback)] at hinside

/-- In every state of every run, whatever the brokers send, nothing behind the two buffers has changed. -/
theorem Run.stays_inside (r : Run) :
    (∀ i, mqttMaxPacketSize ≤ i → r.state.mem.clientLocal.buffer i = r.bufferLocal i) ∧
      ∀ i, mqttMaxPacketSize ≤ i → r.state.mem.client.buffer i = r.buffer i := by
  let start : Board Globals := ⟨r.clock, Globals.init r.buffer r.bufferLocal⟩
  let external : Board (PubSubClient Unit) := ⟨r.clock, (Globals.init r.buffer r.bufferLocal).client⟩
  have hid : Spilling Bytes (pure (cstr "ESP8266Client-Invernadero") : Sketch (PubSubClient Unit) Bytes) :=
    fun c => wp_pure.mpr (Stays.refl c).spills
  have hlocal := wp_run_local (b := start) (fun _ h => h)
    (fun _ clock h => h.trans (stays_clock clock).spills)
    ((spilling_ensureConnected hid).keeping (localOf start))
    ((spilling_of_operation .loop).keeping (localOf start))
    (fun payload => (spilling_of_operation (.publish localTopic payload true)).keeping (localOf start))
    (Stays.refl (localOf start)).spills r.iterations
  have hclient := wp_run_client (b := start) (fun _ h => h)
    (fun _ clock h => h.trans (stays_clock clock).spills)
    (fun topic payload => (spilling_of_operation (.publish topic payload true)).keeping external)
    (Stays.refl external).spills r.iterations
  exact ⟨inside_of_spills (b := localOf start) rfl (state_of_wp hlocal r.answers),
    inside_of_spills (b := external) rfl (state_of_wp hclient r.answers)⟩

end Invernadero

end Sketches
