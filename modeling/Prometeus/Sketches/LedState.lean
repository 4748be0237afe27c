import Prometeus.Sketches.MqttEsp8266

/-! # The LED and the last message

The callback tests the first byte of the payload without looking at its length. For a nonempty
payload that is the message's own byte; for the empty one it is whatever the packet buffer
holds behind the topic.
-/

namespace Sketches.MqttEsp8266

open Arduino Script Sketch Mqtt PubSubClient

/-! ## The callback -/

theorem printPayload_run (length : ℕ) (h : Handed Level) :
    printPayload length h = ((), { h with reads := h.reads ++ List.range length }) := by
  induction length generalizing h with
  | zero =>
      rw [List.range_zero, List.append_nil]
      rfl
  | succ length ih =>
      change (Handed.byte length >>= fun _ => pure ()) (printPayload length h).2 = _
      rw [ih, List.range_succ, ← List.append_assoc]
      rfl

/-- The callback reads the whole payload, and its first position once more. -/
theorem callback_run (topic : Bytes) (length : ℕ) (h : Handed Level) :
    (callback topic length h).2 = { h with
      reads := h.reads ++ List.range length ++ [0]
      dev := if h.payload 0 = 0x31 then .low else .high } := by
  change ((Handed.byte 0 >>= fun first => if first = 0x31 then digitalWrite .low
    else digitalWrite .high) (printPayload length h).2).2 = _
  rw [printPayload_run]
  change ((if h.payload 0 = 0x31 then digitalWrite .low else digitalWrite .high : StateM (Handed Level)
    Unit) _).2 = _
  split
  · rfl
  · rfl

/-- What a message asks of the LED. -/
def wanted (payload : Bytes) : Level := if payload.head? = some 0x31 then .low else .high

/-- A call of the callback for the packet in a buffer. -/
def Called (d : Delivery Level) : Prop :=
  ∃ buf llen len dev, PacketAt buf llen len ∧ d = callFor callback buf llen len dev

/-- What the callback reads of a message, and when the LED shows it. -/
theorem Called.publish {d : Delivery Level} (h : Called d) {retained : Bool}
    {topic payload : Bytes} (hpacket : d.packet = Mqtt.publish retained topic payload) :
    d.reads = List.range payload.length ++ [0] ∧ (payload ≠ [] → d.dev = wanted payload) := by
  obtain ⟨buf, llen, len, dev, hat, rfl⟩ := h
  obtain ⟨view, topic', hbytes, hcall⟩ := callFor_publish hat hpacket
  rw [hcall, callback_run]
  refine ⟨rfl, fun hne => ?_⟩
  cases payload with
  | nil => exact absurd rfl hne
  | cons first rest =>
      rw [List.length_cons, Memory.slice_cons, List.cons.injEq] at hbytes
      rw [wanted, List.head?_cons, ← hbytes.1]
      simp

/-! ## Runs -/

/-- A run of the sketch: what power-on finds, how often `loop()` is called, and what the
surroundings answer. -/
structure Run where
  buffer : Memory UInt8
  led : Level
  clock : ℕ
  iterations : ℕ
  answers : List Answer

namespace Run

/-- The client in the state that a run reaches. -/
def client (r : Run) : PubSubClient Level :=
  ((run r.iterations).run ⟨r.clock, Globals.init r.buffer r.led⟩ r.answers).state.mem.client

def deliveries (r : Run) : List (Delivery Level) := PubSubClient.deliveries r.client.log

def level (r : Run) : Level := r.client.dev

/-- The LED follows the messages of a run: the callback reads only the payload, the message
decides the level, and the level stays until the next message. -/
structure Follows (r : Run) : Prop where
  reads : ∀ d ∈ r.deliveries, ∀ retained payload,
    d.packet = Mqtt.publish retained inTopic payload → ∀ i ∈ d.reads, i < payload.length
  level : ∀ d ∈ r.deliveries, ∀ retained payload,
    d.packet = Mqtt.publish retained inTopic payload → d.dev = wanted payload
  stays : r.level = (r.deliveries.getLast?.map Delivery.dev).getD r.led

/-- No message of the run is empty. -/
def NonEmpty (r : Run) : Prop :=
  ∀ d ∈ r.deliveries, ∀ retained payload,
    d.packet = Mqtt.publish retained inTopic payload → payload ≠ []

/-- The last message of the run. -/
def EndsWith (r : Run) (payload : Bytes) : Prop :=
  ∃ d retained, r.deliveries.getLast? = some d ∧ d.packet = Mqtt.publish retained inTopic payload

end Run

/-- What holds of the client in every state of a run. -/
structure Obeys (led : Level) (b : Board (PubSubClient Level)) : Prop where
  callback : b.mem.callback = some callback
  called : ∀ d, .delivered d ∈ b.mem.log → Called d
  dev : b.mem.dev = devAfter led b.mem.log

theorem Obeys.ran {led : Level} {b b' : Board (PubSubClient Level)} {events : List (Event Level)}
    (h : Obeys led b) (hran : Ran events b b')
    (hevents : ∀ d, .delivered d ∈ events → Called d) : Obeys led b' := by
  refine ⟨hran.callback.trans h.callback, fun d hd => ?_, ?_⟩
  · rw [hran.log] at hd
    rcases List.mem_append.mp hd with hold | hnew
    · exact h.called d hold
    · exact hevents d hnew
  · rw [hran.dev, hran.log, devAfter_append, h.dev]

theorem Obeys.step {led : Level} {topic payload : Bytes} {b b' : Board (PubSubClient Level)}
    (h : Obeys led b) (hstep : ClientStep topic payload b b') : Obeys led b' := by
  cases hstep with
  | rejoins hrejoins =>
      obtain ⟨events, hran, hevents⟩ := hrejoins
      refine h.ran hran fun d hd => ?_
      rcases hevents _ hd with hopen | ⟨_, hconnect⟩ | hpublish | ⟨_, hsubscribe⟩ | hresume
      · cases hopen
      · cases hconnect
      · cases hpublish
      · cases hsubscribe
      · cases hresume
  | serves hserves =>
      obtain ⟨⟨events, hran, hevents⟩, -⟩ := hserves
      refine h.ran hran fun d hd => ?_
      obtain ⟨f, buf, llen, len, dev, hf, hat, hd⟩ := hevents _ hd
      rw [h.callback] at hf
      obtain rfl := Option.some.inj hf
      exact ⟨buf, llen, len, dev, hat, hd⟩
  | publishes retained topic' payload' hran =>
      refine h.ran hran fun d hd => ?_
      cases List.mem_singleton.mp hd

theorem Obeys.works {led : Level} {topic payload : Bytes} {b b' : Board (PubSubClient Level)}
    (h : Obeys led b) (hworks : Works topic payload b b') : Obeys led b' := by
  induction hworks with
  | refl => exact h
  | tail _ hstep ih => exact ih.step hstep

/-- Every call of the callback in a run was for a packet in the buffer, and the LED is as the last
one left it. -/
theorem Run.called (r : Run) : (∀ d ∈ r.deliveries, Called d) ∧
    r.level = (r.deliveries.getLast?.map Delivery.dev).getD r.led := by
  rcases run_halfway r.buffer r.led r.clock r.iterations r.answers with hinit | ⟨later, -, hworks⟩
  · have hclient : r.client = (Globals.init r.buffer r.led).client := by rw [Run.client, hinit]
    rw [Run.deliveries, Run.level, hclient]
    refine ⟨fun d hd => ?_, rfl⟩
    cases hd
  · have hobeys : Obeys r.led (started r.buffer r.led later) := by
      refine ⟨rfl, fun d hd => ?_, rfl⟩
      cases hd
    have hend := hobeys.works hworks
    refine ⟨fun d hd => hend.called d (mem_deliveries.mp hd), ?_⟩
    rw [Run.deliveries, ← devAfter_eq]
    exact hend.dev

/-- The LED follows the messages of a run exactly when none of them is empty, and then it only
depends on the last message. -/
theorem Run.follows_iff_nonEmpty (r r' : Run) : (r.Follows ↔ r.NonEmpty) ∧
    (r.NonEmpty → r'.NonEmpty → ∀ payload, r.EndsWith payload → r'.EndsWith payload →
      r.level = r'.level) := by
  have hlevel : ∀ s : Run, s.NonEmpty → ∀ payload, s.EndsWith payload →
      s.level = wanted payload := by
    rintro s hne payload ⟨d, retained, hlast, hpacket⟩
    have hmem : d ∈ s.deliveries := List.mem_of_getLast? hlast
    rw [s.called.2, hlast]
    exact ((s.called.1 d hmem).publish hpacket).2 (hne d hmem retained payload hpacket)
  refine ⟨⟨fun hfollows => ?_, fun hne => ?_⟩, ?_⟩
  · intro d hmem retained payload hpacket hnil
    have hread := hfollows.reads d hmem retained payload hpacket 0 (by
      rw [((r.called.1 d hmem).publish hpacket).1]
      simp)
    simp [hnil] at hread
  · refine ⟨fun d hmem retained payload hpacket i hi => ?_, fun d hmem retained payload hpacket => ?_,
      r.called.2⟩
    · have hpos := List.length_pos_of_ne_nil (hne d hmem retained payload hpacket)
      rw [((r.called.1 d hmem).publish hpacket).1, List.mem_append, List.mem_range,
        List.mem_singleton] at hi
      omega
    · exact ((r.called.1 d hmem).publish hpacket).2 (hne d hmem retained payload hpacket)
  · intro hne hne' payload hend hend'
    rw [hlevel r hne payload hend, hlevel r' hne' payload hend']

/-! ## The stale byte -/

/-- The network comes up, the broker accepts the session, and then the packets arrive one in each
iteration. -/
def session (packets : List Bytes) : List Answer :=
  calm 11 ++ [{ bytes := [0x20, 0x02, 0x00, 0x00] }] ++ calm 15 ++
    packets.flatMap fun packet => calm 3 ++ [{ bytes := packet }] ++ calm (2 * packet.length + 1)

/-- `1`, and then the empty message. -/
def staleRun : Run where
  buffer _ := 0
  led := .high
  clock := 0
  iterations := 2
  answers := session [Mqtt.publish false inTopic [0x31], Mqtt.publish false inTopic []]

/-- The empty message alone. -/
def freshRun : Run where
  buffer _ := 0
  led := .high
  clock := 0
  iterations := 1
  answers := session [Mqtt.publish false inTopic []]

theorem staleRun_deliveries : staleRun.deliveries =
    [⟨Mqtt.publish false inTopic [0x31], 1, [0, 0], .low⟩,
      ⟨Mqtt.publish false inTopic [], 0, [0], .low⟩] := by
  decide +kernel

theorem freshRun_deliveries : freshRun.deliveries =
    [⟨Mqtt.publish false inTopic [], 0, [0], .high⟩] := by
  decide +kernel

/-- The empty message is read beyond its end; what is left over from the message before keeps the
LED on, so the LED differs between two runs that end with the same message. -/
theorem staleRun_not_follows : ¬ staleRun.Follows ∧ ¬ freshRun.Follows ∧
    staleRun.EndsWith [] ∧ freshRun.EndsWith [] ∧
    staleRun.level = .low ∧ freshRun.level = .high := by
  refine ⟨fun h => ?_, fun h => ?_, ?_, ?_, ?_, ?_⟩
  · have hlevel := h.level ⟨Mqtt.publish false inTopic [], 0, [0], .low⟩
      (by rw [staleRun_deliveries]; simp) false [] rfl
    exact absurd hlevel (by decide)
  · have hread := h.reads ⟨Mqtt.publish false inTopic [], 0, [0], .high⟩
      (by rw [freshRun_deliveries]; simp) false [] rfl 0 (by simp)
    exact absurd hread (by simp)
  · exact ⟨_, false, by rw [staleRun_deliveries]; rfl, rfl⟩
  · exact ⟨_, false, by rw [freshRun_deliveries]; rfl, rfl⟩
  · rw [staleRun.called.2, staleRun_deliveries]
    rfl
  · rw [freshRun.called.2, freshRun_deliveries]
    rfl

end Sketches.MqttEsp8266
