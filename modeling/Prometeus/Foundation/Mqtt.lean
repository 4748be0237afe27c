import Mathlib.Algebra.Ring.Nat
import Mathlib.Data.List.Basic
import Mathlib.Tactic.Common

/-! # MQTT control packets

The parts of the MQTT 3.1.1 wire format that a small client uses: framing by a
fixed header with a variable-length count, length-prefixed texts, and the PUBLISH
(quality of service 0) and SUBSCRIBE packets. Packets are byte lists; every encoder has a
decoder that recovers its arguments.
-/

namespace Mqtt

abbrev Bytes := List UInt8

/-! ## Fields -/

/-- A 16-bit number, most significant byte first. -/
def word (n : ℕ) : Bytes := [UInt8.ofNat (n / 256), UInt8.ofNat n]

/-- A text field: its length, then its bytes. -/
def text (s : Bytes) : Bytes := word s.length ++ s

@[simp] theorem length_word (n : ℕ) : (word n).length = 2 := rfl

@[simp] theorem length_text (s : Bytes) : (text s).length = s.length + 2 := by
  simp [text]
  omega

/-- Read a text field off the front. -/
def readText : Bytes → Option (Bytes × Bytes)
  | high :: low :: rest =>
      let n := high.toNat * 256 + low.toNat
      if n ≤ rest.length then some (rest.take n, rest.drop n) else none
  | _ => none

theorem word_value {n : ℕ} (hn : n < 65536) :
    (UInt8.ofNat (n / 256)).toNat * 256 + (UInt8.ofNat n).toNat = n := by
  simp only [UInt8.toNat_ofNat']
  omega

theorem readText_text {s : Bytes} (hs : s.length < 65536) (rest : Bytes) :
    readText (text s ++ rest) = some (s, rest) := by
  simp only [text, word, readText, List.cons_append, List.nil_append, word_value hs]
  simp

/-! ## The remaining length -/

/-- Seven bits to a byte, least significant first; the top bit says that more follow.
The standard allows four bytes. -/
def encodeLengthIn : ℕ → ℕ → Bytes
  | 0, _ => []
  | room + 1, n =>
      if n < 128 then [UInt8.ofNat n]
      else UInt8.ofNat (n % 128 + 128) :: encodeLengthIn room (n / 128)

def encodeLength (n : ℕ) : Bytes := encodeLengthIn 4 n

def decodeLengthIn : ℕ → Bytes → Option (ℕ × Bytes)
  | 0, _ => none
  | _ + 1, [] => none
  | room + 1, b :: bs =>
      if b.toNat < 128 then some (b.toNat, bs)
      else (decodeLengthIn room bs).map fun (n, rest) => (b.toNat - 128 + 128 * n, rest)

def decodeLength (bs : Bytes) : Option (ℕ × Bytes) := decodeLengthIn 4 bs

theorem decodeLengthIn_encodeLengthIn {room n : ℕ} (hroom : 0 < room) (hn : n < 128 ^ room)
    (rest : Bytes) :
    decodeLengthIn room (encodeLengthIn room n ++ rest) = some (n, rest) := by
  induction room generalizing n with
  | zero => omega
  | succ room ih =>
      unfold encodeLengthIn
      split
      next hsmall =>
        have hbyte : (UInt8.ofNat n).toNat = n := by
          simp only [UInt8.toNat_ofNat']
          omega
        simp [decodeLengthIn, hbyte, hsmall]
      next hlarge =>
        have hbyte : (UInt8.ofNat (n % 128 + 128)).toNat = n % 128 + 128 := by
          simp only [UInt8.toNat_ofNat']
          omega
        have hroom' : 0 < room := by
          rcases Nat.eq_zero_or_pos room with rfl | hpos
          · simp at hn
            omega
          · exact hpos
        have hrest := ih hroom' (n := n / 128) (by rw [Nat.pow_succ] at hn; omega)
        simp only [List.cons_append, decodeLengthIn, hbyte, hrest, Option.map_some]
        rw [if_neg (by omega)]
        congr 2
        omega

theorem decodeLength_encodeLength {n : ℕ} (hn : n < 128 ^ 4) (rest : Bytes) :
    decodeLength (encodeLength n ++ rest) = some (n, rest) :=
  decodeLengthIn_encodeLengthIn (by omega) hn rest

theorem encodeLength_of_lt {n : ℕ} (hn : n < 128) : encodeLength n = [UInt8.ofNat n] := by
  simp [encodeLength, encodeLengthIn, hn]

theorem encodeLength_of_le {n : ℕ} (hlow : 128 ≤ n) (hhigh : n < 16384) :
    encodeLength n = [UInt8.ofNat (n % 128 + 128), UInt8.ofNat (n / 128)] := by
  rw [encodeLength, encodeLengthIn, if_neg (by omega), encodeLengthIn, if_pos (by omega)]

/-! ## Packets -/

/-- A control packet: fixed header, remaining length, body. -/
def frame (header : UInt8) (body : Bytes) : Bytes := header :: (encodeLength body.length ++ body)

/-- Take a whole packet apart. -/
def unframe : Bytes → Option (UInt8 × Bytes)
  | [] => none
  | header :: rest => (decodeLength rest).bind fun (n, body) =>
      if body.length = n then some (header, body) else none

theorem unframe_frame (header : UInt8) {body : Bytes} (hbody : body.length < 128 ^ 4) :
    unframe (frame header body) = some (header, body) := by
  simp [unframe, frame, decodeLength_encodeLength hbody]

/-- The packet type, in the upper half of the header. -/
def packetType (header : UInt8) : UInt8 := header &&& 0xF0

def connectType : UInt8 := 0x10
def publishType : UInt8 := 0x30
def subscribeType : UInt8 := 0x80

/-- PUBLISH with quality of service 0, which carries no packet identifier. -/
def publish (retain : Bool) (topic payload : Bytes) : Bytes :=
  frame (if retain then 0x31 else 0x30) (text topic ++ payload)

def subscribe (id : ℕ) (topic : Bytes) (qos : UInt8) : Bytes :=
  frame 0x82 (word id ++ (text topic ++ [qos]))

/-- Topic and payload of a packet, if it is a PUBLISH of quality of service 0. -/
def published (packet : Bytes) : Option (Bytes × Bytes) :=
  (unframe packet).bind fun (header, body) =>
    if packetType header = publishType then
      if header &&& 0x06 = 0 then readText body else none
    else none

/-- The first topic filter of a packet, if it is a SUBSCRIBE. -/
def subscription (packet : Bytes) : Option Bytes :=
  (unframe packet).bind fun (header, body) =>
    if packetType header = subscribeType then (readText (body.drop 2)).map Prod.fst else none

def isConnect (packet : Bytes) : Bool :=
  match packet with
  | [] => false
  | header :: _ => packetType header = connectType

theorem published_publish {retain : Bool} {topic payload : Bytes} (htopic : topic.length < 65536)
    (hbody : topic.length + 2 + payload.length < 128 ^ 4) :
    published (publish retain topic payload) = some (topic, payload) := by
  have hlength : (text topic ++ payload).length < 128 ^ 4 := by simpa using hbody
  have hframe := unframe_frame (if retain then 0x31 else 0x30) hlength
  have htype : packetType (if retain then 0x31 else 0x30) = publishType := by
    cases retain <;> decide
  have hqos : (if retain then (0x31 : UInt8) else 0x30) &&& 0x06 = 0 := by
    cases retain <;> decide
  simp [published, publish, hframe, htype, hqos, readText_text htopic]

theorem subscription_subscribe {id : ℕ} {topic : Bytes} {qos : UInt8}
    (htopic : topic.length < 65536) :
    subscription (subscribe id topic qos) = some topic := by
  have hlength : (word id ++ (text topic ++ [qos])).length < 128 ^ 4 := by
    simp only [List.length_append, length_word, length_text, List.length_cons, List.length_nil]
    omega
  have hframe := unframe_frame 0x82 hlength
  have htype : packetType 0x82 = subscribeType := by decide
  have hdrop : (word id ++ (text topic ++ [qos])).drop 2 = text topic ++ [qos] := rfl
  simp only [subscription, subscribe, hframe, Option.bind_some, htype, ↓reduceIte, hdrop,
    readText_text htopic, Option.map_some]

theorem unframe_header {header given : UInt8} {rest body : Bytes}
    (h : unframe (header :: rest) = some (given, body)) : given = header := by
  simp only [unframe, Option.bind_eq_some_iff] at h
  obtain ⟨⟨n, inner⟩, _, hinner⟩ := h
  dsimp only at hinner
  split at hinner
  · exact (congrArg Prod.fst (Option.some.inj hinner)).symm
  · cases hinner

/-- Only a PUBLISH header makes a published message. -/
theorem published_eq_none {header : UInt8} {rest : Bytes}
    (htype : packetType header ≠ publishType) : published (header :: rest) = none := by
  unfold published
  cases hframe : unframe (header :: rest) with
  | none => rfl
  | some pair =>
      obtain ⟨given, body⟩ := pair
      rw [← unframe_header hframe] at htype
      simp [htype]

/-- Only a SUBSCRIBE header makes a subscription. -/
theorem subscription_eq_none {header : UInt8} {rest : Bytes}
    (htype : packetType header ≠ subscribeType) : subscription (header :: rest) = none := by
  unfold subscription
  cases hframe : unframe (header :: rest) with
  | none => rfl
  | some pair =>
      obtain ⟨given, body⟩ := pair
      rw [← unframe_header hframe] at htype
      simp [htype]

/-! ## Clean sessions -/

/-- The topics a broker knows for a client with clean sessions: a CONNECT
forgets them, a SUBSCRIBE adds one. -/
def sessionAfter (topics : List Bytes) (packet : Bytes) : List Bytes :=
  if isConnect packet then []
  else match subscription packet with
    | some topic => topic :: topics
    | none => topics

theorem sessionAfter_subscribe (topics : List Bytes) {id : ℕ} {topic : Bytes} {qos : UInt8}
    (htopic : topic.length < 65536) :
    sessionAfter topics (subscribe id topic qos) = topic :: topics := by
  have hconnect : isConnect (subscribe id topic qos) = false := by
    simp only [subscribe, frame, isConnect]
    decide
  rw [sessionAfter, hconnect, subscription_subscribe htopic]
  rfl

/-- A packet that is not a CONNECT forgets nothing. -/
theorem mem_sessionAfter {topics : List Bytes} {topic packet : Bytes}
    (hconnect : isConnect packet = false) (hmem : topic ∈ topics) :
    topic ∈ sessionAfter topics packet := by
  rw [sessionAfter, hconnect, if_neg (by decide)]
  cases subscription packet with
  | none => exact hmem
  | some _ => exact List.mem_cons_of_mem _ hmem

end Mqtt
