import Prometeus.Arduino.ArduinoJson
import Prometeus.Sketches.Reconnect

/-! # The greenhouse sketch

`proyectofuncionando.ino` reads the UV, temperature, humidity and water sensors and publishes every
reading twice: one message a quantity for the external broker, and one JSON object on the local
topic `/temperatura`. What an iteration sampled and published is kept as its history.
-/

namespace Sketches.Invernadero

open Arduino Script Sketch Mqtt PubSubClient Rounding

/-- The readings that an iteration publishes. -/
structure Report where
  temperatura : ℚ
  humedad : ℚ
  valorSensor : ℚ
  voltajeUV : ℚ
  distancia : ℕ
deriving DecidableEq, Repr

/-- The calls of the sensor library in an iteration, the samplings they made, and
what was published, if anything. -/
structure Iteration where
  polls : List Poll
  samplings : List Sampling
  report : Option Report
deriving DecidableEq, Repr

structure Globals where
  dht : DHTesp := {}
  client : PubSubClient Unit
  clientLocal : PubSubClient Unit
  valorSensor : ℚ := 0
  voltajeUV : ℚ := 0
  setupAt : ℕ := 0
  report : Option Report := none
  history : List Iteration := []

def Globals.init (buffer bufferLocal : Memory UInt8) : Globals where
  client := { buffer, dev := () }
  clientLocal := { buffer := bufferLocal, dev := () }

variable {α : Type}

def onDht (m : Sketch DHTesp α) : Sketch Globals α :=
  within Globals.dht (fun dht g => { g with dht }) m

def onClient (m : Sketch (PubSubClient Unit) α) : Sketch Globals α :=
  within Globals.client (fun client g => { g with client }) m

def onLocal (m : Sketch (PubSubClient Unit) α) : Sketch Globals α :=
  within Globals.clientLocal (fun clientLocal g => { g with clientLocal }) m

def setupWifi : Sketch Globals Unit := do
  delay 1000
  await 1000

def setup : Sketch Globals Unit := do
  onDht (DHTesp.setup .dht11)
  let b ← read
  modify fun g => { g with setupAt := b.clock }
  setupWifi

def localTopic : Bytes := cstr "/temperatura"

def announcement : Bytes := cstr "temperatura"

def reconnectLocal : Sketch (PubSubClient Unit) Unit :=
  reconnectWith (pure (cstr "ESP8266Client-Invernadero")) localTopic announcement 8000

/-! ## Readings -/

/-- `ValorSensor / 1024 * 5.0` -/
def voltaje (valorSensor : ℚ) : ℚ := binary32 (binary64 (binary32 (valorSensor / 1024) * 5))

/-- `ValorSensor = random(300, 400)`, and its voltage. -/
def readUv : Sketch Globals Unit := do
  let answer ← call
  let valorSensor : ℚ := (300 + answer.number % 100 : ℕ)
  modify fun g => { g with valorSensor, voltajeUV := voltaje valorSensor }

/-- The default timeout of `pulseIn`, in microseconds. -/
def pulseTimeout : ℕ := 1000000

def pulseIn : Sketch Globals ℕ := do
  let answer ← call
  pure (answer.number % (pulseTimeout + 1))

/-! ## Messages -/

/-- `String::concat(float)`: two decimals. -/
def twoDecimals (x : ℚ) : List Char :=
  Decimal.text (decide (x < 0)) ⌊|x| * 100 + 1 / 2⌋.toNat 2

/-- The `sprintf` template of the external messages. -/
def message (name : String) (value : List Char) : List Char :=
  "\x7b\"from\":\"device\",\"message\":\"".toList ++ name.toList ++
    "\",\"save\":true,\"value\": ".toList ++ value ++ "\x7d".toList

namespace Report

/-- Topic and text of the five messages for the external broker. -/
def messages (r : Report) : List (Bytes × List Char) :=
  [(cstr "646e39ec5c093741fd3a7efd/temperatura", message "Temperatura" (twoDecimals r.temperatura)),
    (cstr "646e39ec5c093741fd3a7efd/humedad", message "Humedad" (twoDecimals r.humedad)),
    (cstr "646e39ec5c093741fd3a7efd/radiacion", message "Radiacion" (twoDecimals r.valorSensor)),
    (cstr "646e39ec5c093741fd3a7efd/medicion", message "Voltaje" (twoDecimals r.voltajeUV)),
    (cstr "646e39ec5c093741fd3a7efd/agua", message "Distancia" (Decimal.intText r.distancia))]

/-- The members of `JSONencoder`, in the order in which they are set. -/
def members (r : Report) : List (List Char × JsonVariant) :=
  [("temperatura".toList, .float (some r.temperatura)),
    ("humedad".toList, .float (some r.humedad)),
    ("voltajeradiacion".toList, .float (some r.valorSensor)),
    ("valorradiacion".toList, .float (some r.voltajeUV)),
    ("agua".toList, .integer r.distancia)]

def jsonMessageBufferSize : ℕ := 100

/-- What `printTo` leaves in `JSONmessageBuffer`. -/
def jsonMessage (r : Report) : List Char := printTo r.members jsonMessageBufferSize

end Report

/-- Publish the messages one after the other, whether or not the broker takes them. -/
def publishMessages : List (Bytes × List Char) → Sketch Globals Unit
  | [] => pure ()
  | (topic, msg) :: rest => do
      let _ ← onClient (publish topic (ascii msg) true)
      publishMessages rest

def publishReport (r : Report) : Sketch Globals Unit := do
  modify fun g => { g with report := some r }
  publishMessages r.messages
  let _ ← onLocal (publish localTopic (ascii r.jsonMessage) true)
  delay 5000

/-! ## The loop -/

/-- What the present iteration has done so far. -/
def Globals.current (g : Globals) : Iteration := ⟨g.dht.polls, g.dht.samplings, g.report⟩

def endIteration : Sketch Globals Unit :=
  modify fun g => { g with
    dht := { g.dht with polls := [], samplings := [] }
    report := none
    history := g.history ++ [g.current] }

/-- The sensors of the second half of `loop()`: temperature, humidity and the echo time. -/
def readSensors : Sketch Globals (Single × Single × ℕ) := do
  let g ← load
  delay g.dht.getMinimumSamplingPeriod
  let temperatura ← onDht DHTesp.getTemperature
  let humedad ← onDht DHTesp.getHumidity
  let t ← pulseIn
  pure (temperatura, humedad, t)

/-- What is done with the readings: an iteration with a NaN publishes nothing. -/
def publishReadings : Single × Single × ℕ → Sketch Globals Unit
  | (some temperatura, some humedad, t) => do
      let g ← load
      publishReport ⟨temperatura, humedad, g.valorSensor, g.voltajeUV, t / 59⟩
  | _ => pure ()

def loop : Sketch Globals Unit := do
  readUv
  onLocal (ensureConnected reconnectLocal)
  let _ ← onLocal PubSubClient.loop
  let readings ← readSensors
  publishReadings readings
  endIteration

/-- `setup()` and then `n` times `loop()`. -/
def run (n : ℕ) : Sketch Globals Unit := do
  setup
  iterate loop n

end Sketches.Invernadero
