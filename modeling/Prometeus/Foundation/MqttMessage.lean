import Prometeus.Foundation.Mqtt

/-! # Inbound messages

A PUBLISH as a server sends it to a client that subscribed with quality of service 0 or 1: with the
second the message carries an identifier, by which the client acknowledges it.
-/

namespace Mqtt

/-- A message; its identifier has two bytes, or none for quality of service 0. -/
structure Message where
  topic : Bytes
  id : Bytes
  payload : Bytes
deriving DecidableEq, Repr

/-- The PUBACK of a message. -/
def pubAck (id : Bytes) : Bytes := 0x40 :: 2 :: id

/-- What a client owes the server for a message. -/
def Message.owed (m : Message) : List Bytes := if m.id = [] then [] else [pubAck m.id]

/-- Take an identifier of quality of service 1 off the front. -/
def readId (body : Bytes) : Option (Bytes × Bytes) :=
  if 2 ≤ body.length then some (body.take 2, body.drop 2) else none

/-- The message that a packet carries, if it is a PUBLISH of quality of service 0 or 1. -/
def message (packet : Bytes) : Option Message :=
  (unframe packet).bind fun (header, body) =>
    if packetType header = publishType then
      if header &&& 0x06 = 0 then
        (readText body).map fun (topic, payload) => ⟨topic, [], payload⟩
      else if header &&& 0x06 = 0x02 then
        (readText body).bind fun (topic, rest) =>
          (readId rest).map fun (id, payload) => ⟨topic, id, payload⟩
      else
        none
    else
      none

theorem word_toNat (high low : UInt8) : word (high.toNat * 256 + low.toNat) = [high, low] := by
  have hhigh : (high.toNat * 256 + low.toNat) / 256 = high.toNat := by
    have hlt := low.toNat_lt
    omega
  have hlow : UInt8.ofNat (high.toNat * 256 + low.toNat) = low := by
    apply UInt8.toNat_inj.mp
    have hlt := low.toNat_lt
    rw [UInt8.toNat_ofNat']
    omega
  rw [word, hhigh, hlow, UInt8.ofNat_toNat]

/-- What was read as a text stands at the front. -/
theorem eq_of_readText {body topic rest : Bytes} (h : readText body = some (topic, rest)) :
    body = text topic ++ rest ∧ topic.length < 65536 := by
  match body, h with
  | high :: low :: tail, h =>
      simp only [readText] at h
      split_ifs at h with hle
      obtain ⟨rfl, rfl⟩ := Prod.mk.inj (Option.some.inj h)
      have hlength : (tail.take (high.toNat * 256 + low.toNat)).length =
          high.toNat * 256 + low.toNat := by
        rw [List.length_take, Nat.min_eq_left hle]
      constructor
      · rw [text, hlength, word_toNat, List.append_assoc, List.take_append_drop]
        rfl
      · have hhigh := high.toNat_lt
        have hlow := low.toNat_lt
        omega

theorem eq_of_readId {body id rest : Bytes} (h : readId body = some (id, rest)) :
    body = id ++ rest ∧ id.length = 2 := by
  rw [readId] at h
  split_ifs at h with hle
  obtain ⟨rfl, rfl⟩ := Prod.mk.inj (Option.some.inj h)
  exact ⟨(List.take_append_drop 2 body).symm, by rw [List.length_take, Nat.min_eq_left hle]⟩

/-- A packet that carries a message is laid out as topic, identifier and payload. -/
theorem body_of_message {header : UInt8} {body : Bytes} {m : Message} (hbody : body.length < 128 ^ 4)
    (h : message (frame header body) = some m) :
    packetType header = publishType ∧ body = text m.topic ++ (m.id ++ m.payload) ∧
      m.topic.length < 65536 ∧ m.id.length = if header &&& 0x06 = 0x02 then 2 else 0 := by
  rw [message, unframe_frame header hbody, Option.bind_some] at h
  dsimp only at h
  split_ifs at h with htype hzero hone
  · obtain ⟨⟨topic, payload⟩, hread, rfl⟩ := Option.map_eq_some_iff.mp h
    obtain ⟨rfl, htopic⟩ := eq_of_readText hread
    have hqos : ¬header &&& 0x06 = 0x02 := by
      rw [hzero]
      decide
    exact ⟨htype, rfl, htopic, (if_neg hqos).symm⟩
  · obtain ⟨⟨topic, rest⟩, hread, hrest⟩ := Option.bind_eq_some_iff.mp h
    obtain ⟨⟨id, payload⟩, hid, rfl⟩ := Option.map_eq_some_iff.mp hrest
    obtain ⟨rfl, htopic⟩ := eq_of_readText hread
    obtain ⟨rfl, hlength⟩ := eq_of_readId hid
    exact ⟨htype, rfl, htopic, by rw [if_pos hone, hlength]⟩

/-- Only a PUBLISH carries a message. -/
theorem message_eq_none {header : UInt8} {body : Bytes} (hbody : body.length < 128 ^ 4)
    (htype : packetType header ≠ publishType) : message (frame header body) = none := by
  rw [message, unframe_frame header hbody, Option.bind_some]
  exact if_neg htype

end Mqtt
