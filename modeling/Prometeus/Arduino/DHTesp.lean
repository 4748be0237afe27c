import Prometeus.Arduino.Board
import Prometeus.Foundation.Rounding

/-! # DHTesp

The library of the temperature and humidity sensor. It samples the sensor at most once in a second
(two for a DHT22) and answers from its fields in between. Which calls sampled, and what
the samplings gave, is kept beside the fields and read by no operation.
-/

namespace Arduino

open Script Sketch Rounding

/-- A `float`; none is NaN. Negative zero is zero. -/
abbrev Single := Option ℚ

inductive DhtModel
  | autoDetect
  | dht11
  | dht22
deriving DecidableEq, Repr

inductive DhtError
  | none
  | timeout
  | checksum
deriving DecidableEq, Repr

/-- The byte sum that an answer of the sensor ends with. -/
def byteSum (rawHumidity rawTemperature : UInt16) : UInt8 :=
  rawHumidity.toUInt8 + (rawHumidity >>> 8).toUInt8 + rawTemperature.toUInt8 +
    (rawTemperature >>> 8).toUInt8

/-- The forty bits of an answer of the sensor that passes its checksum. -/
structure Frame where
  rawHumidity : UInt16
  rawTemperature : UInt16
  data : UInt16
  valid : (byteSum rawHumidity rawTemperature).toUInt16 = data
deriving DecidableEq, Repr

/-- What a sampling gives. -/
inductive Sampling
  | timeout
  | checksum
  | frame (frame : Frame)
deriving DecidableEq, Repr

/-- A call of `readSensor`: when it read the clock, and whether it sampled the sensor. -/
structure Poll where
  instant : ℕ
  sampled : Bool
deriving DecidableEq, Repr

structure DHTesp where
  temperature : Single := some 0
  humidity : Single := some 0
  model : DhtModel := .autoDetect
  error : DhtError := .none
  lastReadTime : UInt32 := 0
  polls : List Poll := []
  samplings : List Sampling := []

/-- `hi + lo * 0.1` in double precision, stored in a float. -/
def tenths (hi lo : ℕ) : ℚ := binary32 (binary64 (hi + binary64 (lo * binary64 (1 / 10))))

/-- `(rawHumidity >> 8) + ((rawHumidity & 0x00FF) * 0.1)` -/
def Frame.humidity11 (f : Frame) : ℚ :=
  tenths (f.rawHumidity >>> 8).toNat (f.rawHumidity &&& 0x00FF).toNat

/-- The same with seven bits of tenths, and the eighth for the sign. -/
def Frame.temperature11 (f : Frame) : ℚ :=
  let magnitude := tenths (f.rawTemperature >>> 8).toNat (f.rawTemperature &&& 0x007F).toNat
  if f.rawTemperature &&& 0x0080 ≠ 0 then -magnitude else magnitude

/-- `rawHumidity * 0.1` -/
def Frame.humidity22 (f : Frame) : ℚ :=
  binary32 (binary64 (f.rawHumidity.toNat * binary64 (1 / 10)))

def Frame.temperature22 (f : Frame) : ℚ :=
  let magnitude : ℤ := (f.rawTemperature &&& 0x7FFF).toNat
  let raw := if f.rawTemperature &&& 0x8000 ≠ 0 then -magnitude else magnitude
  binary32 (binary64 (raw * binary64 (1 / 10)))

namespace DHTesp

/-- The shift register and the two words it has been copied to. -/
structure Shift where
  data : UInt16 := 0
  rawHumidity : UInt16 := 0
  rawTemperature : UInt16 := 0

/-- The loop over the edges `i = 80 - n, …, 79`; an age over 90 microseconds, or an edge that never
comes, is a timeout. Every second edge from `i = 1` on ends a bit, which is one when it lasted
over 30 microseconds. -/
def readEdges : ℕ → List ℕ → Shift → Option Shift
  | 0, _, s => some s
  | _ + 1, [], _ => none
  | n + 1, edge :: edges, s =>
      let i : ℤ := 79 - n
      let age := UInt8.ofNat edge
      if 90 < age then
        none
      else
        let data :=
          if 0 ≤ i ∧ i % 2 = 1 then (s.data <<< 1) ||| (if 30 < age then 1 else 0) else s.data
        if i = 31 then
          readEdges n edges { s with data, rawHumidity := data }
        else if i = 63 then
          readEdges n edges { s with data := 0, rawTemperature := data }
        else
          readEdges n edges { s with data }

/-- The answer of the sensor, checked. -/
def sample (edges : List ℕ) : Sampling :=
  match readEdges 83 edges {} with
  | none => .timeout
  | some s =>
      if valid : (byteSum s.rawHumidity s.rawTemperature).toUInt16 = s.data then
        .frame ⟨s.rawHumidity, s.rawTemperature, s.data, valid⟩
      else
        .checksum

/-- Store what a sampling gave. -/
def store (sampling : Sampling) (d : DHTesp) : DHTesp :=
  let d := { d with samplings := d.samplings ++ [sampling] }
  match sampling with
  | .timeout => { d with error := .timeout }
  | .checksum => { d with error := .checksum }
  | .frame f =>
      if d.model = .dht11 then
        { d with humidity := some f.humidity11, temperature := some f.temperature11, error := .none }
      else
        { d with humidity := some f.humidity22, temperature := some f.temperature22, error := .none }

/-- Whether a reading at `startTime` would poll the sensor too often. -/
def tooSoon (d : DHTesp) (startTime : UInt32) : Bool :=
  startTime - d.lastReadTime < if d.model = .dht11 then 999 else 1999

def readSensor : Sketch DHTesp Unit := do
  let startTime ← millis
  let b ← read
  if b.mem.tooSoon startTime then
    modify fun d => { d with polls := d.polls ++ [⟨b.clock, false⟩] }
  else
    modify fun d => { d with
      lastReadTime := startTime, temperature := none, humidity := none
      polls := d.polls ++ [⟨b.clock, true⟩] }
    delay (if b.mem.model = .dht11 then 18 else 2)
    let answer ← call
    modify (store (sample answer.edges))

/-- Read, and once more after a timeout. -/
def readTwice : Sketch DHTesp Unit := do
  readSensor
  let d ← load
  if d.error = .timeout then
    readSensor

def getHumidity : Sketch DHTesp Single := do
  readTwice
  let d ← load
  pure d.humidity

def getTemperature : Sketch DHTesp Single := do
  readTwice
  let d ← load
  pure d.temperature

def resetTimer : Sketch DHTesp Unit := do
  let now ← millis
  modify fun d => { d with lastReadTime := now - 3000 }

def setup (model : DhtModel) : Sketch DHTesp Unit := do
  modify fun d => { d with model }
  resetTimer
  if model = .autoDetect then
    modify fun d => { d with model := .dht22 }
    readSensor
    modify fun d => if d.error = .timeout then { d with model := .dht11 } else d

def getMinimumSamplingPeriod (d : DHTesp) : ℕ := if d.model = .dht11 then 1000 else 2000

end DHTesp

end Arduino
