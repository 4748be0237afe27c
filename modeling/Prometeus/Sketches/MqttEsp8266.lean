import Prometeus.Foundation.Decimal
import Prometeus.Sketches.Reconnect

/-! # The LED sketch

`mqtt_esp8266-file.ino` switches the LED of the board by messages on `inTopic`
and publishes a counter on `outTopic` every two seconds.
-/

namespace Sketches.MqttEsp8266

open Arduino Script Sketch Mqtt PubSubClient Decimal

/-- The pin of the LED, which is active low. -/
inductive Level
  | low
  | high
deriving DecidableEq, Repr

structure Globals where
  client : PubSubClient Level
  lastMsg : UInt32 := 0
  value : Int32 := 0

/-- Power-on, with whatever `malloc` left in the packet buffer and whatever level the pin has. -/
def Globals.init (buffer : Memory UInt8) (led : Level) : Globals :=
  { client := { buffer, dev := led } }

def onClient {α : Type} (m : Sketch (PubSubClient Level) α) : Sketch Globals α :=
  within Globals.client (fun client g => { g with client }) m

def setupWifi : Sketch Globals Unit := do
  delay 10
  await 500

/-- The payload is printed character by character. -/
def printPayload : ℕ → StateM (Handed Level) Unit
  | 0 => pure ()
  | length + 1 => do
      printPayload length
      let _ ← Handed.byte length

def digitalWrite (level : Level) : StateM (Handed Level) Unit := fun h => ((), { h with dev := level })

def callback : Callback Level := fun _ length => do
  printPayload length
  -- switch on the LED if a 1 was received as first character
  if (← Handed.byte 0) = 0x31 then
    digitalWrite .low
  else
    digitalWrite .high

/-- A random client identifier. -/
def clientId : Sketch (PubSubClient Level) Bytes := do
  let answer ← call
  pure (cstr "ESP8266Client-SOO" ++ ascii (Nat.toDigits 16 (answer.number % 0xffff)))

def announcedTopic : Bytes := cstr "fei/cc1/temperatura"

def announcement : Bytes := cstr "temperatura"

def reconnect : Sketch (PubSubClient Level) Unit :=
  reconnectWith clientId announcedTopic announcement 5000

def setup : Sketch Globals Unit := do
  setupWifi
  modify fun g => { g with client := { g.client with callback := some callback } }

def msgBufferSize : ℕ := 50

/-- `snprintf(msg, MSG_BUFFER_SIZE, "hello world #%ld", value)` -/
def helloMsg (value : Int32) : Bytes :=
  (cstr "hello world #" ++ ascii (intText value.toInt)).take (msgBufferSize - 1)

def publishCounter (now : UInt32) : Sketch Globals Unit := do
  modify fun g => { g with lastMsg := now, value := g.value + 1 }
  let g ← load
  let _ ← onClient (publish (cstr "outTopic") (helloMsg g.value))

def loop : Sketch Globals Unit := do
  onClient (ensureConnected reconnect)
  let _ ← onClient PubSubClient.loop
  let now ← millis
  let g ← load
  if 2000 < now - g.lastMsg then
    publishCounter now

/-- `setup()` and then `n` times `loop()`. -/
def run (n : ℕ) : Sketch Globals Unit := do
  setup
  iterate loop n

/-! ## The session invariant -/

variable {b : Board Globals}

/-- The client of the sketch, on the sketch's clock. -/
def clientOf (b : Board Globals) : Board (PubSubClient Level) := ⟨b.clock, b.mem.client⟩

theorem wp_onClient {α : Type} {m : Sketch (PubSubClient Level) α} {Q : α → Board Globals → Prop}
    {C : Board Globals → Prop}
    (h : wp m (fun a c => Q a ⟨c.clock, { b.mem with client := c.mem }⟩)
      (fun c => C ⟨c.clock, { b.mem with client := c.mem }⟩) (clientOf b)) :
    wp (onClient m) Q C b :=
  wp_within h

theorem quiet_clientId (c : Board (PubSubClient Level)) :
    wp clientId (fun _ => Quiet c) (Quiet c) c := by
  rw [clientId, wp_call_bind]
  exact ⟨Quiet.refl c, fun answer => wp_pure.mpr (quiet_millis answer.elapsed)⟩

theorem length_helloMsg_le (value : Int32) : (helloMsg value).length ≤ mqttMaxPacketSize := by
  rw [helloMsg, List.length_take]
  exact (min_le_left _ _).trans (by decide)

/-- `setup` waits for the network and installs the callback. -/
theorem wp_setup :
    wp setup (fun _ t => t.mem = { b.mem with
      client := { b.mem.client with callback := some callback } }) (fun t => t.mem = b.mem) b := by
  rw [setup, setupWifi, bind_assoc, wp_delay_bind]
  refine ⟨rfl, fun elapsed => ?_⟩
  refine wp_seq (wp_await (P := fun t => t.mem = b.mem) fun _ _ => rfl) (fun _ ht => ht) ?_
  intro _ t ht
  rw [wp_modify, ht]

/-- The session is safe, and the client has worked since `start`. -/
def Sound (start : Board (PubSubClient Level)) (b : Board Globals) : Prop :=
  Safe (clientOf b) ∧ Works announcedTopic announcement start (clientOf b)

/-- What remains of it in the middle of an operation. -/
def Halfway (start : Board (PubSubClient Level)) (b : Board Globals) : Prop :=
  Guarded (clientOf b).mem.log ∧ Works announcedTopic announcement start (clientOf b)

theorem wp_onClient_sound {α : Type} {m : Sketch (PubSubClient Level) α}
    {start : Board (PubSubClient Level)}
    (h : wp m (fun _ t => Safe t ∧ Works announcedTopic announcement start t)
      (fun t => Guarded t.mem.log ∧ Works announcedTopic announcement start t) (clientOf b)) :
    wp (onClient m) (fun _ => Sound start) (Halfway start) b :=
  wp_onClient h

/-- What `loop` does with the client, and that it keeps the session safe. -/
theorem wp_loop_sound {start : Board (PubSubClient Level)} (h : Sound start b) :
    wp loop (fun _ => Sound start) (Halfway start) b := by
  rw [loop]
  refine wp_seq (wp_onClient_sound (wp_ensure_works quiet_clientId (by decide) h.1 h.2))
    (fun _ ht => ht) ?_
  intro _ b₁ hsound
  refine wp_seq (wp_onClient_sound (wp_loop_works hsound.1 hsound.2)) (fun _ ht => ht) ?_
  intro _ b₂ hsound
  rw [wp_millis_bind]
  refine ⟨⟨hsound.1.guarded, hsound.2⟩, fun elapsed => ?_⟩
  have hquiet : Quiet (clientOf b₂) (clientOf ⟨b₂.clock + elapsed, b₂.mem⟩) := quiet_millis elapsed
  have hsafe := hsound.1.quiet hquiet
  have hworks := hsound.2.quiet hquiet.1
  rw [wp_load_bind, wp_ite]
  refine ⟨fun _ => ?_, fun _ => wp_pure.mpr ⟨hsafe, hworks⟩⟩
  rw [publishCounter, wp_modify_bind, wp_load_bind]
  refine wp_seq (wp_onClient_sound (wp_publish_works (length_helloMsg_le _) hsafe hworks))
    (fun _ ht => ht) ?_
  intro _ b₃ hb₃
  exact wp_pure.mpr hb₃

/-- The client as `setup` leaves it. -/
def started (buffer : Memory UInt8) (led : Level) (clock : ℕ) : Board (PubSubClient Level) :=
  ⟨clock, { buffer, dev := led, callback := some callback }⟩

theorem wp_run {buffer : Memory UInt8} {led : Level} {clock : ℕ} (n : ℕ) :
    wp (run n) (fun _ t => ∃ later, Sound (started buffer led later) t)
      (fun t => t.mem = Globals.init buffer led ∨ ∃ later, Halfway (started buffer led later) t)
      ⟨clock, Globals.init buffer led⟩ := by
  rw [run]
  refine wp_seq wp_setup (fun _ ht => Or.inl ht) ?_
  intro _ b₁ hb₁
  have hstart : Sound (started buffer led b₁.clock) b₁ := by
    have hclient : clientOf b₁ = started buffer led b₁.clock := by
      rw [clientOf, hb₁]
      rfl
    rw [Sound, hclient]
    refine ⟨⟨guarded_nil, fun hlive => ?_⟩, Relation.ReflTransGen.refl⟩
    exact absurd hlive.1 Bool.false_ne_true
  refine wp_mono (wp_iterate _ hstart (fun _ ht => wp_loop_sound ht) n) ?_ ?_
  · exact fun _ t ht => ⟨b₁.clock, ht⟩
  · exact fun t ht => Or.inr ⟨b₁.clock, ht⟩

/-- In every state of every run, either `setup` has not installed the callback, or the client has
worked since then, never relying on a session without its subscription. -/
theorem run_halfway (buffer : Memory UInt8) (led : Level) (clock n : ℕ) (answers : List Answer) :
    let t := ((run n).run ⟨clock, Globals.init buffer led⟩ answers).state
    t.mem = Globals.init buffer led ∨ ∃ later, Halfway (started buffer led later) t := by
  refine state_of_wp (P := fun t => t.mem = Globals.init buffer led ∨
    ∃ later, Halfway (started buffer led later) t) (wp_mono (wp_run n) ?_ fun _ h => h) answers
  rintro - t ⟨later, hsafe, hworks⟩
  exact Or.inr ⟨later, hsafe.guarded, hworks⟩

end Sketches.MqttEsp8266
