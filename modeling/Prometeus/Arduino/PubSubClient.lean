import Mathlib.Logic.Function.Basic
import Prometeus.Arduino.Board
import Prometeus.Foundation.Memory
import Prometeus.Foundation.Mqtt

/-! # PubSubClient

The MQTT client of the sketches. Packets are put together in one buffer, and
inbound packets are read into the same buffer; a callback is handed a pointer
into it. The socket underneath may drop at every call, accepts or refuses
connections, and a write that does not take its whole packet leaves it closed.

`δ` is the memory of the device that the callback works on. What happens on the
link is kept as a log, which no operation reads.
-/

namespace Arduino

open Script Sketch Mqtt

def ascii (text : List Char) : Bytes := text.map fun c => UInt8.ofNat c.toNat

/-- The characters of a C string, without the NUL. -/
def cstr (s : String) : Bytes := ascii s.toList

/-- A TCP connection as its owner sees it. -/
structure Link where
  up : Bool := false
  /-- Bytes that have arrived and are not yet read. -/
  inbox : Bytes := []

/-- The connection after a call: bytes may have arrived, and it may have dropped. -/
def Link.after (link : Link) (answer : Answer) : Link where
  up := link.up && !answer.drops
  inbox := if link.up then link.inbox ++ answer.bytes else link.inbox

/-- What a callback works on: the buffer from the payload on, the positions of it
read so far, and the device. -/
structure Handed (δ : Type) where
  payload : Memory UInt8
  reads : List ℕ := []
  dev : δ

/-- `payload[i]` -/
def Handed.byte {δ : Type} (i : ℕ) : StateM (Handed δ) UInt8 :=
  fun h => (h.payload i, { h with reads := h.reads ++ [i] })

/-- `callback(topic, payload, length)` -/
abbrev Callback (δ : Type) := Bytes → ℕ → StateM (Handed δ) Unit

/-- One call of the callback: the packet it was called for, the length it was
given, the positions it read, and the device afterwards. -/
structure Delivery (δ : Type) where
  packet : Bytes
  length : ℕ
  reads : List ℕ
  dev : δ
deriving DecidableEq

/-- What happens on the link of a client. -/
inductive Event (δ : Type)
  | opened
  | wrote (packet : Bytes)
  | serviced (packet : Bytes)
  | delivered (delivery : Delivery δ)
  /-- The sketch leaves its reconnecting loop. -/
  | resumed
deriving DecidableEq

def mqttConnectionTimeout : ℤ := -4
def mqttConnectionLost : ℤ := -3
def mqttConnectFailed : ℤ := -2
def mqttDisconnected : ℤ := -1
def mqttConnected : ℤ := 0

def mqttMaxPacketSize : ℕ := 256
def mqttKeepAlive : ℕ := 15
def mqttSocketTimeout : ℕ := 15

/-- Room for the fixed header, which is built backwards from here. -/
def mqttMaxHeaderSize : ℕ := 5

structure PubSubClient (δ : Type) where
  link : Link := {}
  state : ℤ := mqttDisconnected
  buffer : Memory UInt8
  nextMsgId : UInt16 := 0
  lastOutActivity : UInt32 := 0
  lastInActivity : UInt32 := 0
  pingOutstanding : Bool := false
  callback : Option (Callback δ) := none
  dev : δ
  log : List (Event δ) := []

namespace PubSubClient

variable {δ : Type}

/-! ## The socket -/

/-- One call on `_client`. -/
def onLink : Sketch (PubSubClient δ) Answer := do
  let answer ← call
  modify fun c => { c with link := c.link.after answer }
  pure answer

def linkConnected : Sketch (PubSubClient δ) Bool := do
  let _ ← onLink
  let c ← load
  pure c.link.up

def linkConnect : Sketch (PubSubClient δ) Bool := do
  let answer ← call
  if answer.ok then
    modify fun c => { c with
      link := { up := true, inbox := answer.bytes }
      log := c.log ++ [.opened] }
  pure answer.ok

def available : Sketch (PubSubClient δ) ℕ := do
  let _ ← onLink
  let c ← load
  pure c.link.inbox.length

/-- The next byte, `(uint8_t)-1` when there is none. -/
def linkRead : Sketch (PubSubClient δ) UInt8 := do
  let c ← load
  modify fun c => { c with link := { c.link with inbox := c.link.inbox.tail } }
  pure (c.link.inbox.headD 255)

/-- How much of a packet is written. A connection that does not take all of it is closed. -/
def linkWrite (packet : Bytes) : Sketch (PubSubClient δ) ℕ := do
  let answer ← onLink
  let c ← load
  if c.link.up && answer.ok then
    modify fun c => { c with log := c.log ++ [.wrote packet] }
    pure packet.length
  else
    modify fun c => { c with link := { c.link with up := false } }
    pure (answer.number % packet.length)

def stop : Sketch (PubSubClient δ) Unit :=
  modify fun c => { c with link := {} }

def setState (state : ℤ) : Sketch (PubSubClient δ) Unit :=
  modify fun c => { c with state }

def onBuffer (f : Memory UInt8 → Memory UInt8) : Sketch (PubSubClient δ) Unit :=
  modify fun c => { c with buffer := f c.buffer }

/-! ## Writing packets -/

/-- `connected()` -/
def connected : Sketch (PubSubClient δ) Bool := do
  let rc ← linkConnected
  let c ← load
  if rc then
    pure (c.state == mqttConnected)
  else
    if c.state = mqttConnected then
      setState mqttConnectionLost
      stop
    pure false

/-- The remaining length of a packet, seven bits a byte. `len` is a 16-bit number, so
three bytes hold it. -/
def lengthDigits : ℕ → ℕ → Bytes
  | 0, _ => []
  | room + 1, len =>
      let digit := len % 128
      let len := len / 128
      if 0 < len then UInt8.ofNat (digit + 128) :: lengthDigits room len
      else [UInt8.ofNat digit]

/-- `writeString(string, buf, pos)`, without the position it returns, `pos + 2 + string.length`. -/
def writeString (string : Bytes) (pos : ℕ) (buf : Memory UInt8) : Memory UInt8 :=
  let buf := Memory.place string (pos + 2) buf
  let buf := Function.update buf pos (UInt8.ofNat (string.length / 256))
  Function.update buf (pos + 1) (UInt8.ofNat string.length)

/-- `buildHeader(header, buf, length)`, without the size it returns, one more than the digits. -/
def buildHeader (header : UInt8) (length : ℕ) (buf : Memory UInt8) : Memory UInt8 :=
  let lenBuf := lengthDigits 3 length
  let buf := Function.update buf (4 - lenBuf.length) header
  Memory.place lenBuf (mqttMaxHeaderSize - lenBuf.length) buf

/-- `write(header, buf, length)` -/
def write (header : UInt8) (length : ℕ) : Sketch (PubSubClient δ) Bool := do
  onBuffer (buildHeader header length)
  let hlen := (lengthDigits 3 length).length + 1
  let c ← load
  let rc ← linkWrite (Memory.slice c.buffer (mqttMaxHeaderSize - hlen) (length + hlen))
  let t ← millis
  modify fun c => { c with lastOutActivity := t }
  pure (rc == hlen + length)

/-- Whether `publish` turns a payload away for its length. -/
def tooLong (topic payload : Bytes) : Bool :=
  mqttMaxPacketSize < mqttMaxHeaderSize + 2 + min topic.length mqttMaxPacketSize + payload.length

/-- `publish(topic, payload, plength, retained)` -/
def publishBytes (topic payload : Bytes) (retained : Bool) : Sketch (PubSubClient δ) Bool := do
  if ← connected then
    if tooLong topic payload then
      pure false
    else
      onBuffer (writeString topic mqttMaxHeaderSize)
      onBuffer (Memory.place payload (mqttMaxHeaderSize + 2 + topic.length))
      write (if retained then 0x31 else 0x30) (2 + topic.length + payload.length)
  else
    pure false

/-- `publish(topic, payload, retained)` of a C string, measured by `strnlen`. -/
def publish (topic payload : Bytes) (retained : Bool := false) : Sketch (PubSubClient δ) Bool :=
  publishBytes topic (payload.take mqttMaxPacketSize) retained

/-- `subscribe(topic, qos)` -/
def subscribe (topic : Bytes) (qos : UInt8 := 0) : Sketch (PubSubClient δ) Bool := do
  if 1 < qos then
    pure false
  else if mqttMaxPacketSize < 9 + min topic.length mqttMaxPacketSize then
    pure false
  else if ← connected then
    modify fun c => { c with
      nextMsgId := if c.nextMsgId + 1 = 0 then 1 else c.nextMsgId + 1 }
    let c ← load
    onBuffer (Memory.place (word c.nextMsgId.toNat) mqttMaxHeaderSize)
    onBuffer (writeString topic (mqttMaxHeaderSize + 2))
    onBuffer fun buf => Function.update buf (mqttMaxHeaderSize + 2 + 2 + topic.length) qos
    write 0x82 (2 + 2 + topic.length + 1)
  else
    pure false

/-! ## Reading packets -/

/-- `readByte(result)`: wait for a byte, but not longer than the socket timeout. -/
def readByte : Sketch (PubSubClient δ) (Option UInt8) := do
  let previousMillis ← millis
  let arrived ← untilSome do
    if 0 < (← available) then
      pure (some true)
    else
      let currentMillis ← millis
      if UInt32.ofNat (mqttSocketTimeout * 1000) ≤ currentMillis - previousMillis then
        pure (some false)
      else
        pure none
  if arrived then
    let byte ← linkRead
    pure (some byte)
  else
    pure none

/-- `readByte(buffer, &len)` -/
def readByteAt (len : ℕ) : Sketch (PubSubClient δ) Bool := do
  match ← readByte with
  | none => pure false
  | some byte =>
      onBuffer fun buf => Function.update buf len byte
      pure true

/-- The digits of the remaining length, from position `5 - room` on. Gives the
position behind them and the length; a fifth digit closes the connection. -/
def readLength : ℕ → ℕ → ℕ → Sketch (PubSubClient δ) (Option (ℕ × ℕ))
  | 0, _, _ => do
      setState mqttDisconnected
      stop
      pure none
  | room + 1, length, multiplier => do
      match ← readByte with
      | none => pure none
      | some digit =>
          let len := 4 - room
          onBuffer fun buf => Function.update buf len digit
          let length := length + (digit &&& 127).toNat * multiplier
          if digit &&& 128 ≠ 0 then
            readLength room length (multiplier * 128)
          else
            pure (some (len + 1, length))

/-- Read `n` more bytes. Those behind the end of the buffer are counted in `idx` only. -/
def readRest : ℕ → ℕ → ℕ → Sketch (PubSubClient δ) (Option (ℕ × ℕ))
  | 0, len, idx => pure (some (len, idx))
  | n + 1, len, idx => do
      match ← readByte with
      | none => pure none
      | some digit =>
          if len < mqttMaxPacketSize then
            onBuffer fun buf => Function.update buf len digit
            readRest n (len + 1) (idx + 1)
          else
            readRest n len (idx + 1)

/-- The bytes read ahead of the rest: the length of the topic of a PUBLISH. -/
def readTopicLength (isPublish : Bool) (len : ℕ) : Sketch (PubSubClient δ) Bool := do
  if isPublish then
    if ← readByteAt len then
      readByteAt (len + 1)
    else
      pure false
  else
    pure true

/-- What `readPacket` does once it knows the remaining length. Zero is returned for a
packet that does not fit, which is then ignored. -/
def readBody (len length : ℕ) : Sketch (PubSubClient δ) ℕ := do
  let c ← load
  let isPublish := c.buffer 0 &&& 0xF0 == publishType
  if ← readTopicLength isPublish len then
    let start := if isPublish then 2 else 0
    match ← readRest (length - start) (len + start) (len + start) with
    | none => pure 0
    | some (len, idx) => pure (if mqttMaxPacketSize < idx then 0 else len)
  else
    pure 0

/-- `readPacket(&lengthLength)`: the number of bytes in the buffer, zero for no packet, and
`lengthLength`, which is set whenever there is one. -/
def readPacket : Sketch (PubSubClient δ) (ℕ × ℕ) := do
  if ← readByteAt 0 then
    match ← readLength 4 0 1 with
    | none => pure (0, 0)
    | some (len, length) =>
        let read ← readBody len length
        pure (read, len - 1)
  else
    pure (0, 0)

/-! ## Connecting -/

/-- The variable header of CONNECT up to the client identifier: protocol name and level,
clean session, keep-alive time. -/
def connectHeader : Bytes :=
  [0x00, 0x04, 0x4D, 0x51, 0x54, 0x54, 0x04, 0x02] ++ word mqttKeepAlive

/-- The second half of `connect(id)`: wait for the answer of the broker. -/
def awaitConnack : Sketch (PubSubClient δ) Bool := do
  let answered ← untilSome do
    if 0 < (← available) then
      pure (some true)
    else
      let t ← millis
      let c ← load
      if UInt32.ofNat (mqttSocketTimeout * 1000) ≤ t - c.lastInActivity then
        pure (some false)
      else
        pure none
  if answered then
    let (len, _) ← readPacket
    let c ← load
    if len = 4 ∧ c.buffer 3 = 0 then
      let t ← millis
      modify fun c => { c with
        lastInActivity := t, pingOutstanding := false, state := mqttConnected }
      pure true
    else
      if len = 4 then
        setState (c.buffer 3).toNat
      stop
      pure false
  else
    setState mqttConnectionTimeout
    stop
    pure false

/-- The open connection, or a new one. -/
def openLink : Sketch (PubSubClient δ) Bool := do
  if ← linkConnected then
    pure true
  else
    linkConnect

/-- Complete the CONNECT packet and write it. -/
def sendConnect (id : Bytes) : Sketch (PubSubClient δ) Unit := do
  let length := mqttMaxHeaderSize + connectHeader.length
  onBuffer (writeString id length)
  let _ ← write connectType (length + 2 + id.length - mqttMaxHeaderSize)
  let t ← millis
  modify fun c => { c with lastInActivity := t, lastOutActivity := t }

/-- `connect(id)`: a clean session, no user and no will. -/
def connect (id : Bytes) : Sketch (PubSubClient δ) Bool := do
  if ← connected then
    pure true
  else
    if ← openLink then
      modify fun c => { c with nextMsgId := 1 }
      onBuffer (Memory.place connectHeader mqttMaxHeaderSize)
      if mqttMaxPacketSize < mqttMaxHeaderSize + connectHeader.length + 2 +
          min id.length mqttMaxPacketSize then
        stop
        pure false
      else
        sendConnect id
        awaitConnack
    else
      setState mqttConnectFailed
      pure false

/-! ## Servicing the link -/

/-- Call the callback for the packet in the buffer. -/
def callBack (callback : Callback δ) (packet topic : Bytes) (payload length : ℕ) :
    Sketch (PubSubClient δ) Unit :=
  modify fun c =>
    let h := (callback topic length ⟨fun i => c.buffer (payload + i), [], c.dev⟩).2
    { c with dev := h.dev, log := c.log ++ [.delivered ⟨packet, length, h.reads, h.dev⟩] }

/-- The length of the topic of the PUBLISH in the buffer. -/
def topicLength (buf : Memory UInt8) (llen : ℕ) : ℕ :=
  (buf (llen + 1)).toNat * 256 + (buf (llen + 2)).toNat

/-- The topic is moved one byte to the front, to make room for its NUL. -/
def topicMoved (buf : Memory UInt8) (llen : ℕ) : Memory UInt8 :=
  let tl := topicLength buf llen
  Function.update (Memory.move buf (llen + 2) (llen + 3) tl) (llen + 2 + tl) 0

/-- The branch of `loop()` for a PUBLISH. -/
def deliver (callback : Callback δ) (llen len : ℕ) (t : UInt32) :
    Sketch (PubSubClient δ) Unit := do
  let c ← load
  let packet := Memory.slice c.buffer 0 len
  let tl := topicLength c.buffer llen
  onBuffer fun buf => topicMoved buf llen
  let c ← load
  let topic := Memory.slice c.buffer (llen + 2) tl
  if c.buffer 0 &&& 0x06 = 0x02 then
    let payload := llen + 3 + tl + 2
    let msgId := Memory.slice c.buffer (llen + 3 + tl) 2
    callBack callback packet topic payload (UInt32.ofNat len - UInt32.ofNat payload).toNat
    onBuffer (Memory.place (0x40 :: 2 :: msgId) 0)
    let _ ← linkWrite (0x40 :: 2 :: msgId)
    modify fun c => { c with lastOutActivity := t }
  else
    let payload := llen + 3 + tl
    callBack callback packet topic payload (UInt32.ofNat len - UInt32.ofNat payload).toNat

/-- Act on the type of the packet in the buffer. -/
def dispatch (llen len : ℕ) (t : UInt32) : Sketch (PubSubClient δ) Unit := do
  let c ← load
  let type := packetType (c.buffer 0)
  if type = publishType then
    match c.callback with
    | none => pure ()
    | some callback => deliver callback llen len t
  else if type = 0xC0 then
    onBuffer (Memory.place [0xD0, 0] 0)
    let _ ← linkWrite [0xD0, 0]
  else if type = 0xD0 then
    modify fun c => { c with pingOutstanding := false }

/-- Process the packet in the buffer. -/
def service (llen len : ℕ) (t : UInt32) : Sketch (PubSubClient δ) Unit := do
  modify fun c => { c with
    lastInActivity := t, log := c.log ++ [.serviced (Memory.slice c.buffer 0 len)] }
  dispatch llen len t

/-- The keep-alive part of `loop()`: false when a ping went unanswered. -/
def keepAlive (t : UInt32) : Sketch (PubSubClient δ) Bool := do
  let c ← load
  let limit := UInt32.ofNat (mqttKeepAlive * 1000)
  if limit < t - c.lastInActivity ∨ limit < t - c.lastOutActivity then
    if c.pingOutstanding then
      setState mqttConnectionTimeout
      stop
      pure false
    else
      onBuffer (Memory.place [0xC0, 0] 0)
      let _ ← linkWrite [0xC0, 0]
      modify fun c => { c with lastOutActivity := t, lastInActivity := t, pingOutstanding := true }
      pure true
  else
    pure true

/-- `loop()` -/
def loop : Sketch (PubSubClient δ) Bool := do
  if ← connected then
    let t ← millis
    if ← keepAlive t then
      if 0 < (← available) then
        let (len, llen) ← readPacket
        if 0 < len then
          service llen len t
          pure true
        else
          -- a packet that was ignored, or `readPacket` has closed the connection
          connected
      else
        pure true
    else
      pure false
  else
    pure false

/-- The sketch marks that it goes on with the client. -/
def resume : Sketch (PubSubClient δ) Unit :=
  modify fun c => { c with log := c.log ++ [.resumed] }

end PubSubClient

end Arduino
