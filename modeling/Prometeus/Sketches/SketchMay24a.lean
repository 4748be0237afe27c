import Prometeus.Arduino.Connect
import Prometeus.Sketches.Invernadero

/-! # The sketch for MikroDash

`sketch_may24a.ino` logs in to its broker with a user and a token for a password. The token is
longer than what the packet buffer of the client has left for it, so `connect` fails every time and
the sketch never leaves its reconnecting loop.
-/

namespace Sketches.SketchMay24a

open Arduino Script Sketch Mqtt PubSubClient

structure Globals where
  dht : DHTesp := {}
  client : PubSubClient Unit

def Globals.init (buffer : Memory UInt8) : Globals := { client := { buffer, dev := () } }

variable {α : Type}

def onDht (m : Sketch DHTesp α) : Sketch Globals α :=
  within Globals.dht (fun dht g => { g with dht }) m

def onClient (m : Sketch (PubSubClient Unit) α) : Sketch Globals α :=
  within Globals.client (fun client g => { g with client }) m

def topicTemp : Bytes := cstr "646e39ec5c093741fd3a7efd/temperatura"

def topicHum : Bytes := cstr "646e39ec5c093741fd3a7efd/humedad"

def usernameMQTT : Bytes := cstr "esp32_1685037382188"

def passwordMQTT : Bytes :=
  cstr "eyJhbGciOiJIUzI1NiIsInR5cCI6IkpXVCJ9." ++
    cstr "eyJhY2wiOiI0IiwiZXhwIjoxNjg3NTY0NzI0LCJpYXQiOjE2ODUwMzc1MjQsInVz" ++
    cstr "ZXJfaWQiOiI2NDZlMzllYzVjMDkzNzQxZmQzYTdlZmQiLCJ1c2VybmFtZSI6IiJ9." ++
    cstr "xdic9C_79LPyOkTMh8WnADbgJiIjQTaVhKZ8oYPfaTs"

def clientId : Bytes := cstr "MikroDashWiFiClient-"

def qosLevel : UInt8 := 1

def reconnect : Sketch (PubSubClient Unit) Unit :=
  whileDo
    (do
      let up ← connected
      pure (!up))
    (do
      if ← connectAs clientId usernameMQTT passwordMQTT then
        let _ ← subscribe topicTemp qosLevel
      else
        delay 5000)

def setupWifi : Sketch Globals Unit := do
  delay 10
  await 500

def setup : Sketch Globals Unit := do
  onDht (DHTesp.setup .dht11)
  setupWifi

/-- `String::concat(float)` -/
def concat : Single → List Char
  | some x => Invernadero.twoDecimals x
  | none => "nan".toList

/-- What is published when one of the readings is NaN. -/
def publishReadings (temperature humidity : Single) : Sketch Globals Unit := do
  let g ← load
  delay g.dht.getMinimumSamplingPeriod
  let _ ← onClient (publish topicTemp
    (ascii (Invernadero.message "Temperatura" (concat temperature))) true)
  let _ ← onClient (publish topicHum
    (ascii (Invernadero.message "Humedad" (concat humidity))) true)
  delay 100

def loop : Sketch Globals Unit := do
  onClient (ensureConnected reconnect)
  let _ ← onClient PubSubClient.loop
  let temperature : Single := some 24
  let humidity : Single := some 5
  if humidity = none ∨ temperature = none then
    publishReadings temperature humidity

/-- `setup()` and then `n` times `loop()`. -/
def run (n : ℕ) : Sketch Globals Unit := do
  setup
  iterate loop n

/-! ## The token -/

/-- The CONNECT of the sketch would take thirteen bytes more than the buffer has. -/
theorem not_fits : ¬Fits (request clientId (some usernameMQTT) (some passwordMQTT) none true) := by
  decide +kernel

/-! ## The client that never connects -/

/-- Connections have been opened, but nothing more has been done with them. -/
def Unused (log : List (Event Unit)) : Prop := ∀ event ∈ log, event = .opened

/-- Nothing has been sent, and there is no session. -/
structure Mute (b : Board (PubSubClient Unit)) : Prop where
  unused : Unused b.mem.log
  state : b.mem.state ≠ mqttConnected

section

variable {b b' : Board (PubSubClient Unit)}

theorem Mute.quiet (h : Mute b) (hquiet : Quiet b b') : Mute b' := by
  refine ⟨fun event hevent => h.unused event ?_, fun hstate => h.state (hquiet.2.state hstate)⟩
  rwa [hquiet.1.log, List.append_nil] at hevent

theorem wp_connected_mute (h : Mute b) :
    wp connected (fun up b' => up = false ∧ Mute b') Mute b := by
  refine wp_mono wp_connected ?_ fun _ hquiet => h.quiet hquiet
  rintro up b' ⟨hquiet, hup⟩
  refine ⟨?_, h.quiet hquiet⟩
  cases up with
  | false => rfl
  | true => exact absurd (hquiet.2.live hup).2 h.state

theorem Mute.requests {c : Connect} (h : Mute b) (hfits : ¬Fits c) (hrequests : Requests c b b') :
    Unused b'.mem.log := by
  obtain ⟨opened, sent, hran, hopened, rfl | ⟨hfit, -⟩⟩ := hrequests
  · intro event hevent
    rw [hran.log, List.append_nil] at hevent
    rcases List.mem_append.mp hevent with hold | hnew
    · exact h.unused event hold
    · rcases hopened with rfl | rfl
      · cases hnew
      · exact List.mem_singleton.mp hnew
  · exact absurd hfit hfits

/-- The loop is never left. -/
theorem wp_reconnect (h : Mute b) :
    wp reconnect (fun _ _ => False) (fun b' => Unused b'.mem.log) b := by
  rw [reconnect]
  apply wp_whileDo Mute h (fun _ ht => ht.unused)
  intro t ht
  refine wp_seq (wp_connected_mute ht) (fun _ hu => hu.unused) ?_
  rintro up u ⟨rfl, hu⟩
  rw [wp_pure, Bool.not_false, if_pos rfl, connectAs]
  refine wp_seq (wp_connectWith _ _ _ _ _) (fun _ hv => hu.requests not_fits hv) ?_
  rintro ok v ⟨hrequests, hok, hfailed⟩
  cases ok with
  | true =>
      rcases hok rfl with hlive | hfits
      · exact absurd hlive.2 hu.state
      · exact absurd hfits not_fits
  | false =>
      have hunused := hu.requests not_fits hrequests
      have hstate := hfailed rfl
      rw [if_neg Bool.false_ne_true, wp_delay]
      exact ⟨hunused, fun _ => ⟨hunused, hstate⟩⟩

end

/-! ## The run -/

variable {b : Board Globals}

/-- The client of the sketch, on the sketch's clock. -/
def clientOf (b : Board Globals) : Board (PubSubClient Unit) := ⟨b.clock, b.mem.client⟩

theorem wp_loop (h : Mute (clientOf b)) :
    wp loop (fun _ _ => False) (fun t => Unused t.mem.client.log) b := by
  have hensure : wp (ensureConnected reconnect) (fun _ _ => False) (fun c => Unused c.mem.log)
      (clientOf b) := by
    rw [ensureConnected]
    refine wp_seq (wp_connected_mute h) (fun _ hc => hc.unused) ?_
    rintro up c ⟨rfl, hc⟩
    rw [Bool.not_false, if_pos rfl]
    exact wp_reconnect hc
  have hclient : wp (onClient (ensureConnected reconnect)) (fun _ _ => False)
      (fun t => Unused t.mem.client.log) b :=
    wp_within hensure
  rw [loop]
  exact wp_seq hclient (fun _ ht => ht) fun _ _ himpossible => himpossible.elim

/-- `setup` leaves the client alone. -/
theorem wp_setup :
    wp setup (fun _ t => t.mem.client = b.mem.client) (fun t => t.mem.client = b.mem.client) b := by
  have hdht : wp (onDht (DHTesp.setup .dht11)) (fun _ t => t.mem.client = b.mem.client)
      (fun t => t.mem.client = b.mem.client) b :=
    wp_within (wp_mono (wp_true _ _) (fun _ _ _ => rfl) fun _ _ => rfl)
  rw [setup]
  refine wp_seq hdht (fun _ ht => ht) ?_
  intro _ b₁ hb₁
  rw [setupWifi, wp_delay_bind]
  exact ⟨hb₁, fun _ => wp_await fun _ _ => hb₁⟩

/-- A run of the sketch: what power-on finds, how often `loop()` is called, and what the
surroundings answer. -/
structure Run where
  buffer : Memory UInt8
  clock : ℕ
  iterations : ℕ
  answers : List Answer

def Run.outcome (r : Run) : Outcome Answer (Board Globals) Unit :=
  (run r.iterations).run ⟨r.clock, Globals.init r.buffer⟩ r.answers

/-- In no run is a packet ever sent, and the first call of `loop()` never returns. -/
theorem Run.never_connects (r : Run) : Unused r.outcome.state.mem.client.log ∧
    (r.outcome.result ≠ none → r.iterations = 0) := by
  have hnil : ∀ t : Board Globals, t.mem.client = (Globals.init r.buffer).client →
      Mute (clientOf t) := by
    intro t ht
    have hclient : clientOf t = ⟨t.clock, (Globals.init r.buffer).client⟩ := by rw [clientOf, ht]
    rw [hclient]
    have hstate : mqttDisconnected ≠ mqttConnected := by decide
    exact ⟨fun event hevent => (List.not_mem_nil hevent).elim, hstate⟩
  have hrun : wp (run r.iterations)
      (fun _ t => Mute (clientOf t) ∧ r.iterations = 0) (fun t => Unused t.mem.client.log)
      ⟨r.clock, Globals.init r.buffer⟩ := by
    rw [run]
    refine wp_seq wp_setup (fun t ht => (hnil t ht).unused) ?_
    intro _ t ht
    induction r.iterations with
    | zero => exact wp_pure.mpr ⟨hnil t ht, rfl⟩
    | succ n ih =>
        refine wp_seq ih (fun _ h => h) ?_
        rintro _ u ⟨hmute, -⟩
        exact wp_mono (wp_loop hmute) (fun _ _ himpossible => himpossible.elim) fun _ h => h
  have houtcome := hrun r.answers
  rw [← outcome] at houtcome
  cases hresult : r.outcome.result with
  | none =>
      rw [hresult] at houtcome
      exact ⟨houtcome, fun h => absurd rfl h⟩
  | some _ =>
      rw [hresult] at houtcome
      exact ⟨houtcome.1.unused, fun _ => houtcome.2⟩

end Sketches.SketchMay24a
