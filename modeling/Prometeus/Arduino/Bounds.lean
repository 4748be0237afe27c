import Prometeus.Arduino.PubSubClientLaws
import Prometeus.Arduino.Usage

/-! # The cells behind the buffer

The client writes into `buffer` by position, and nothing but its own tests keeps it from writing behind the
end, into memory that is not its own. The tests of `connect` and `publish` do; that of `subscribe` misses
one cell, and `loop` trusts the broker with the length of a topic.
-/

namespace Arduino

open Script Sketch Mqtt

namespace PubSubClient

variable {δ : Type} {b b' b'' : Board (PubSubClient δ)}

/-! ## Packets with room for their topic -/

/-- The bytes of the remaining length of a packet. -/
def lengthBytes (packet : Bytes) : ℕ :=
  (packet.tail.takeWhile fun byte => 128 ≤ byte.toNat).length + 1

/-- The length that the topic of a PUBLISH claims. -/
def topicBytes (packet : Bytes) : ℕ :=
  (packet.getD (lengthBytes packet + 1) 0).toNat * 256 + (packet.getD (lengthBytes packet + 2) 0).toNat

/-- Where `loop` puts the NUL of the topic of a PUBLISH. -/
def nulAt (packet : Bytes) : ℕ := lengthBytes packet + 2 + topicBytes packet

/-- The NUL stays in the buffer. -/
def Roomy (packet : Bytes) : Prop := nulAt packet < mqttMaxPacketSize

instance (packet : Bytes) : Decidable (Roomy packet) :=
  inferInstanceAs (Decidable (_ < _))

theorem PacketAt.lengthBytes_slice {buf : Memory UInt8} {llen len : ℕ} (h : PacketAt buf llen len) :
    lengthBytes (Memory.slice buf 0 len) = llen := by
  obtain ⟨digits, rfl⟩ := Nat.exists_eq_add_of_le' h.pos
  obtain ⟨rest, rfl⟩ := Nat.exists_eq_add_of_lt h.lt
  -- The header, the digits with their high bit set, the last digit, and the rest.
  have hsplit : Memory.slice buf 0 (digits + 1 + rest + 1) =
      buf 0 :: (Memory.slice buf 1 digits ++ buf (digits + 1) :: Memory.slice buf (digits + 2) rest) := by
    rw [Memory.slice_cons, show digits + 1 + rest = digits + (rest + 1) by omega, Memory.slice_add,
      Memory.slice_cons, Nat.zero_add, Nat.add_comm 1 digits]
  have hmore : ∀ byte ∈ Memory.slice buf 1 digits, decide (128 ≤ byte.toNat) = true := by
    intro byte hbyte
    obtain ⟨i, hi, rfl⟩ := List.mem_map.mp hbyte
    have hlt := List.mem_range.mp hi
    exact decide_eq_true (h.length.1 (1 + i) (by omega) (by omega))
  have hlast : ¬ 128 ≤ (buf (digits + 1)).toNat := Nat.not_le_of_lt h.length.2
  rw [lengthBytes, hsplit, List.tail_cons, List.takeWhile_append_of_pos hmore,
    List.takeWhile_cons_of_neg (by simpa using hlast), List.append_nil, Memory.length_slice]

theorem getD_slice (buf : Memory UInt8) {n i : ℕ} (hi : i < n) :
    (Memory.slice buf 0 n).getD i 0 = buf i := by
  rw [List.getD_eq_getElem?_getD, Memory.getElem?_slice hi, Option.getD_some, Nat.zero_add]

theorem PacketAt.nulAt_slice {buf : Memory UInt8} {llen len : ℕ} (h : PacketAt buf llen len)
    (hlen : llen + 3 ≤ len) : nulAt (Memory.slice buf 0 len) = llen + 2 + topicLength buf llen := by
  rw [nulAt, topicBytes, h.lengthBytes_slice, getD_slice buf (by omega), getD_slice buf (by omega)]
  rfl

/-! ## Writes inside -/

/-- A memory is as before from the end of the buffer on. -/
def Inside (buf buf' : Memory UInt8) : Prop := ∀ i, mqttMaxPacketSize ≤ i → buf' i = buf i

theorem Inside.refl (buf : Memory UInt8) : Inside buf buf := fun _ _ => rfl

theorem Inside.trans {buf buf' buf'' : Memory UInt8} (h : Inside buf buf') (h' : Inside buf' buf'') :
    Inside buf buf'' :=
  fun i hi => (h' i hi).trans (h i hi)

theorem inside_update (buf : Memory UInt8) {pos : ℕ} (hpos : pos < mqttMaxPacketSize) (byte : UInt8) :
    Inside buf (Function.update buf pos byte) :=
  fun i hi => Function.update_of_ne (by omega) byte buf

theorem inside_place {bytes : Bytes} {pos : ℕ} (hend : pos + bytes.length ≤ mqttMaxPacketSize)
    (buf : Memory UInt8) : Inside buf (Memory.place bytes pos buf) :=
  fun _ hi => Memory.place_of_le bytes buf (hend.trans hi)

theorem inside_writeString {string : Bytes} {pos : ℕ}
    (hend : pos + 2 + string.length ≤ mqttMaxPacketSize) (buf : Memory UInt8) :
    Inside buf (writeString string pos buf) := by
  have hhigh : pos < mqttMaxPacketSize := by omega
  have hlow : pos + 1 < mqttMaxPacketSize := by omega
  rw [writeString]
  apply (inside_place hend buf).trans
  apply (inside_update _ hhigh _).trans
  exact inside_update _ hlow _

theorem inside_buildHeader (header : UInt8) (length : ℕ) (buf : Memory UInt8) :
    Inside buf (buildHeader header length buf) := by
  have hdigits := length_lengthDigits_le 3 length
  have hpos : 4 - (lengthDigits 3 length).length < mqttMaxPacketSize := by
    rw [mqttMaxPacketSize]
    omega
  rw [buildHeader]
  apply (inside_update buf hpos header).trans
  apply inside_place
  rw [mqttMaxHeaderSize, mqttMaxPacketSize]
  omega

/-! ## Topics that reach behind the buffer -/

/-- The cells behind the buffer after the topic of a packet was moved. As far as the topic claims to reach,
they move with it, and its NUL comes last. -/
def overrun (buf : Memory UInt8) (packet : Bytes) : Memory UInt8 := fun i =>
  if i < nulAt packet then buf (i + 1) else if i = nulAt packet then 0 else buf i

/-- The cells behind the buffer after some events. -/
def spilled (events : List (Event δ)) (buf : Memory UInt8) : Memory UInt8 :=
  (deliveries events).foldl (fun buf delivery => overrun buf delivery.packet) buf

theorem Inside.overrun {buf buf' : Memory UInt8} (h : Inside buf buf') (packet : Bytes) :
    Inside (overrun buf packet) (overrun buf' packet) := by
  intro i hi
  rw [PubSubClient.overrun, PubSubClient.overrun, h i hi, h (i + 1) (Nat.le_succ_of_le hi)]

theorem inside_overrun {packet : Bytes} (hroomy : Roomy packet) (buf : Memory UInt8) :
    Inside buf (overrun buf packet) := by
  intro i hi
  have hbehind : nulAt packet < i := lt_of_lt_of_le hroomy hi
  rw [overrun, if_neg (Nat.lt_asymm hbehind), if_neg (Nat.ne_of_gt hbehind)]

theorem deliveries_append (events more : List (Event δ)) :
    deliveries (events ++ more) = deliveries events ++ deliveries more :=
  List.filterMap_append

theorem spilled_append (events more : List (Event δ)) (buf : Memory UInt8) :
    spilled (events ++ more) buf = spilled more (spilled events buf) := by
  rw [spilled, deliveries_append, List.foldl_append]
  rfl

theorem spilled_of_undelivered {events : List (Event δ)} (hevents : deliveries events = [])
    (buf : Memory UInt8) : spilled events buf = buf := by
  rw [spilled, hevents, List.foldl_nil]

theorem Inside.spilled {buf buf' : Memory UInt8} (h : Inside buf buf') (events : List (Event δ)) :
    Inside (spilled events buf) (spilled events buf') := by
  rw [PubSubClient.spilled, PubSubClient.spilled]
  induction deliveries events generalizing buf buf' with
  | nil => exact h
  | cons delivery rest ih => exact ih (h.overrun delivery.packet)

/-- Topics that keep to the buffer leave the cells behind it alone. -/
theorem inside_spilled {events : List (Event δ)}
    (hroomy : ∀ delivery ∈ deliveries events, Roomy delivery.packet) (buf : Memory UInt8) :
    Inside buf (spilled events buf) := by
  rw [spilled]
  generalize deliveries events = made at hroomy ⊢
  induction made generalizing buf with
  | nil => exact Inside.refl buf
  | cons delivery rest ih =>
      obtain ⟨hfirst, hrest⟩ := List.forall_mem_cons.mp hroomy
      exact (inside_overrun hfirst buf).trans (ih _ hrest)

theorem inside_topicMoved {buf : Memory UInt8} {llen len : ℕ} (hpacket : PacketAt buf llen len)
    (hlen : llen + 3 ≤ len) : Inside (overrun buf (Memory.slice buf 0 len)) (topicMoved buf llen) := by
  intro i hi
  have hle := hpacket.le
  rw [overrun, hpacket.nulAt_slice hlen, topicMoved]
  -- A cell of the moved topic, the NUL behind it, or a cell further on.
  rcases lt_trichotomy i (llen + 2 + topicLength buf llen) with hmoved | rfl | hbehind
  · rw [Function.update_of_ne (Nat.ne_of_lt hmoved), Memory.move_of_mem buf (by omega) hmoved, if_pos hmoved]
    congr 1
    omega
  · rw [Function.update_self, if_neg (Nat.lt_irrefl _), if_pos rfl]
  · have hend : llen + 2 + (Memory.slice buf (llen + 3) (topicLength buf llen)).length ≤ i := by
      rw [Memory.length_slice]
      exact le_of_lt hbehind
    rw [Function.update_of_ne (Nat.ne_of_gt hbehind), Memory.move, Memory.place_of_le _ _ hend,
      if_neg (Nat.lt_asymm hbehind), if_neg (Nat.ne_of_gt hbehind)]

/-- Since `b`, nothing was delivered, and the cells behind the buffer are as they were. -/
structure Stays (b b' : Board (PubSubClient δ)) : Prop where
  callback : b'.mem.callback = b.mem.callback
  log : ∃ events, b'.mem.log = b.mem.log ++ events ∧ deliveries events = []
  inside : Inside b.mem.buffer b'.mem.buffer

theorem Stays.trans (h : Stays b b') (h' : Stays b' b'') : Stays b b'' := by
  obtain ⟨events, hlog, hevents⟩ := h.log
  obtain ⟨more, hlog', hmore⟩ := h'.log
  refine ⟨h'.callback.trans h.callback, ⟨events ++ more, ?_, ?_⟩, h.inside.trans h'.inside⟩
  · rw [hlog', hlog, List.append_assoc]
  · rw [deliveries_append, hevents, hmore, List.nil_append]

theorem stays_of_inside (hlog : b'.mem.log = b.mem.log) (hcallback : b'.mem.callback = b.mem.callback)
    (hinside : Inside b.mem.buffer b'.mem.buffer) : Stays b b' :=
  ⟨hcallback, ⟨[], hlog.trans (List.append_nil _).symm, rfl⟩, hinside⟩

/-- A step that leaves the buffer alone. -/
theorem stays_of_eq (hlog : b'.mem.log = b.mem.log) (hcallback : b'.mem.callback = b.mem.callback)
    (hbuffer : b'.mem.buffer = b.mem.buffer) : Stays b b' :=
  stays_of_inside hlog hcallback (hbuffer ▸ Inside.refl _)

/-- A step that logs something other than a delivery. -/
theorem stays_of_event (event : Event δ) (hevent : deliveries [event] = [])
    (hlog : b'.mem.log = b.mem.log ++ [event]) (hcallback : b'.mem.callback = b.mem.callback)
    (hbuffer : b'.mem.buffer = b.mem.buffer) : Stays b b' :=
  ⟨hcallback, ⟨[event], hlog, hevent⟩, hbuffer ▸ Inside.refl _⟩

theorem Stays.refl (b : Board (PubSubClient δ)) : Stays b b := stays_of_eq rfl rfl rfl

theorem stays_after (answer : Answer) :
    Stays b ⟨b.clock + answer.elapsed, { b.mem with link := b.mem.link.after answer }⟩ :=
  stays_of_eq rfl rfl rfl

theorem stays_clock (clock : ℕ) : Stays b ⟨clock, b.mem⟩ := stays_of_eq rfl rfl rfl

theorem stays_onBuffer {buf : Memory UInt8} (h : Inside b.mem.buffer buf) :
    Stays b ⟨b.clock, { b.mem with buffer := buf }⟩ :=
  stays_of_inside rfl rfl h

/-- Since `b`, the cells behind the buffer have changed by moved topics only, and only a client with a
callback moves topics. -/
structure Spills (b b' : Board (PubSubClient δ)) : Prop where
  callback : b'.mem.callback = b.mem.callback
  cells : ∃ events, b'.mem.log = b.mem.log ++ events ∧
    (b.mem.callback = none → deliveries events = []) ∧
    Inside (spilled events b.mem.buffer) b'.mem.buffer

theorem Stays.spills (h : Stays b b') : Spills b b' := by
  obtain ⟨events, hlog, hevents⟩ := h.log
  refine ⟨h.callback, events, hlog, fun _ => hevents, ?_⟩
  rw [spilled_of_undelivered hevents]
  exact h.inside

theorem Spills.trans (h : Spills b b') (h' : Spills b' b'') : Spills b b'' := by
  obtain ⟨events, hlog, hnone, hinside⟩ := h.cells
  obtain ⟨more, hlog', hnone', hinside'⟩ := h'.cells
  refine ⟨h'.callback.trans h.callback, events ++ more, ?_, fun hcallback => ?_, ?_⟩
  · rw [hlog', hlog, List.append_assoc]
  · rw [deliveries_append, hnone hcallback, hnone' (h.callback.trans hcallback), List.nil_append]
  · rw [spilled_append]
    exact (hinside.spilled more).trans hinside'

/-! ## Writing packets -/

theorem wp_connected_stays : wp connected (fun _ => Stays b) (Stays b) b := by
  rw [connected, wp_linkConnected_bind]
  refine ⟨Stays.refl b, fun answer => ?_⟩
  rw [wp_load_bind, wp_ite]
  refine ⟨fun _ => wp_pure.mpr (stays_after answer), fun _ => ?_⟩
  rw [wp_ite]
  refine ⟨fun _ => ?_, fun _ => wp_pure.mpr (stays_after answer)⟩
  rw [setState, stop, wp_modify_bind, wp_modify_bind, wp_pure]
  exact stays_of_eq rfl rfl rfl

theorem wp_linkWrite_stays (packet : Bytes) :
    wp (linkWrite packet) (fun _ => Stays b) (Stays b) b := by
  rw [linkWrite, wp_onLink_bind]
  refine ⟨Stays.refl b, fun answer => ?_⟩
  rw [wp_load_bind, wp_ite]
  refine ⟨fun _ => ?_, fun _ => ?_⟩
  · rw [wp_modify_bind, wp_pure]
    exact stays_of_event (.wrote packet) rfl rfl rfl rfl
  · rw [wp_modify_bind, wp_pure]
    exact stays_of_eq rfl rfl rfl

theorem wp_write_stays (header : UInt8) (length : ℕ) :
    wp (write header length) (fun _ => Stays b) (Stays b) b := by
  have hbuilt := stays_onBuffer (b := b) (inside_buildHeader header length b.mem.buffer)
  rw [write, onBuffer, wp_modify_bind, wp_load_bind]
  refine wp_seq (wp_linkWrite_stays _) (fun _ h => hbuilt.trans h) ?_
  intro written b₁ hwritten
  have hsent := hbuilt.trans hwritten
  rw [wp_millis_bind]
  refine ⟨hsent, fun elapsed => ?_⟩
  rw [wp_modify_bind, wp_pure]
  exact hsent.trans (stays_of_eq rfl rfl rfl)

theorem wp_publishBytes_stays (topic payload : Bytes) (retained : Bool) :
    wp (publishBytes topic payload retained) (fun _ => Stays b) (Stays b) b := by
  rw [publishBytes]
  refine wp_seq wp_connected_stays (fun _ h => h) ?_
  intro rc b₁ hfound
  rw [wp_ite]
  refine ⟨fun _ => ?_, fun _ => wp_pure.mpr hfound⟩
  rw [wp_ite]
  refine ⟨fun _ => wp_pure.mpr hfound, fun hfits => ?_⟩
  rw [Bool.not_eq_true, tooLong_eq_false_iff] at hfits
  have htopic : mqttMaxHeaderSize + 2 + topic.length ≤ mqttMaxPacketSize := by
    rw [mqttMaxHeaderSize]
    omega
  have hpayload : mqttMaxHeaderSize + 2 + topic.length + payload.length ≤ mqttMaxPacketSize := by
    rw [mqttMaxHeaderSize]
    omega
  have hplaced : Stays b₁ ⟨b₁.clock, { b₁.mem with
      buffer := Memory.place payload (mqttMaxHeaderSize + 2 + topic.length)
        (writeString topic mqttMaxHeaderSize b₁.mem.buffer) }⟩ :=
    stays_of_inside rfl rfl
      ((inside_writeString htopic b₁.mem.buffer).trans (inside_place hpayload _))
  rw [onBuffer, onBuffer, wp_modify_bind, wp_modify_bind]
  apply wp_mono (wp_write_stays _ _)
  · exact fun _ _ h => hfound.trans (hplaced.trans h)
  · exact fun _ h => hfound.trans (hplaced.trans h)

/-- The test of `subscribe` admits 247 characters, which put the last byte of the packet behind the buffer. -/
theorem wp_subscribe_stays {topic : Bytes} (htopic : topic.length ≠ 247) (qos : UInt8) :
    wp (subscribe topic qos) (fun _ => Stays b) (Stays b) b := by
  rw [subscribe, wp_ite]
  refine ⟨fun _ => wp_pure.mpr (Stays.refl b), fun _ => ?_⟩
  rw [wp_ite]
  refine ⟨fun _ => wp_pure.mpr (Stays.refl b), fun hlength => ?_⟩
  refine wp_seq wp_connected_stays (fun _ h => h) ?_
  intro rc b₁ hfound
  rw [wp_ite]
  refine ⟨fun _ => ?_, fun _ => wp_pure.mpr hfound⟩
  -- The length test admits one character more than the buffer has room for.
  have hend : mqttMaxHeaderSize + 2 + 2 + topic.length < mqttMaxPacketSize := by
    rw [mqttMaxPacketSize] at hlength
    rw [mqttMaxHeaderSize, mqttMaxPacketSize]
    omega
  rw [wp_modify_bind, wp_load_bind, onBuffer, onBuffer, onBuffer, wp_modify_bind, wp_modify_bind,
    wp_modify_bind]
  dsimp only
  generalize (if b₁.mem.nextMsgId + 1 = 0 then 1 else b₁.mem.nextMsgId + 1) = id
  have hid : Inside b₁.mem.buffer (Memory.place (word id.toNat) mqttMaxHeaderSize b₁.mem.buffer) :=
    inside_place (by rw [length_word]; decide) _
  have hplaced : Stays b₁ ⟨b₁.clock, { b₁.mem with
      nextMsgId := id
      buffer := Function.update (writeString topic (mqttMaxHeaderSize + 2)
        (Memory.place (word id.toNat) mqttMaxHeaderSize b₁.mem.buffer))
        (mqttMaxHeaderSize + 2 + 2 + topic.length) qos }⟩ := by
    refine stays_of_inside rfl rfl ?_
    apply hid.trans
    exact (inside_writeString (le_of_lt hend) _).trans (inside_update _ hend qos)
  apply wp_mono (wp_write_stays _ _)
  · exact fun _ _ h => hfound.trans (hplaced.trans h)
  · exact fun _ h => hfound.trans (hplaced.trans h)

/-- A topic of that length: once the packet is assembled, its last byte stands behind the buffer. -/
theorem wp_subscribe_stray {topic : Bytes} (htopic : topic.length = 247) (qos : UInt8) :
    wp (subscribe topic qos) (fun ok b' => ok = true → b'.mem.buffer mqttMaxPacketSize = qos ∧
      ∀ i, mqttMaxPacketSize < i → b'.mem.buffer i = b.mem.buffer i) (fun _ => True) b := by
  rw [subscribe, wp_ite]
  refine ⟨fun _ => wp_pure.mpr (by simp), fun _ => ?_⟩
  rw [wp_ite]
  refine ⟨fun _ => wp_pure.mpr (by simp), fun _ => ?_⟩
  refine wp_seq wp_connected_stays (fun _ _ => trivial) ?_
  intro rc b₁ hfound
  rw [wp_ite]
  refine ⟨fun _ => ?_, fun _ => wp_pure.mpr fun hok => absurd hok Bool.false_ne_true⟩
  rw [wp_modify_bind, wp_load_bind, onBuffer, onBuffer, onBuffer, wp_modify_bind, wp_modify_bind,
    wp_modify_bind]
  dsimp only
  generalize (if b₁.mem.nextMsgId + 1 = 0 then 1 else b₁.mem.nextMsgId + 1) = id
  have hid : mqttMaxHeaderSize + (word id.toNat).length ≤ mqttMaxPacketSize := by
    rw [length_word]
    decide
  have htext : mqttMaxHeaderSize + 2 + 2 + topic.length ≤ mqttMaxPacketSize := by
    rw [htopic]
    decide
  have hplaced : Inside b.mem.buffer (writeString topic (mqttMaxHeaderSize + 2)
      (Memory.place (word id.toNat) mqttMaxHeaderSize b₁.mem.buffer)) :=
    (hfound.inside.trans (inside_place hid _)).trans (inside_writeString htext _)
  have hend : mqttMaxHeaderSize + 2 + 2 + topic.length = mqttMaxPacketSize := by rw [htopic]; rfl
  rw [hend]
  refine wp_mono (wp_write_stays 0x82 _) ?_ (fun _ _ => trivial)
  intro ok b₂ hwritten _
  constructor
  · have hcell := hwritten.inside mqttMaxPacketSize le_rfl
    dsimp only at hcell
    rwa [Function.update_self] at hcell
  · intro i hi
    rw [hwritten.inside i (le_of_lt hi)]
    exact (Function.update_of_ne (Nat.ne_of_gt hi) _ _).trans (hplaced i (le_of_lt hi))

/-- A subscription stays in the buffer unless its topic has 247 characters; then its last byte is the next
cell. -/
theorem subscribe_stray (topic : Bytes) (qos : UInt8) (b : Board (PubSubClient δ)) (answers : List Answer) :
    (topic.length ≠ 247 → ∀ i, mqttMaxPacketSize ≤ i →
      ((subscribe topic qos).run b answers).state.mem.buffer i = b.mem.buffer i) ∧
    (topic.length = 247 → ((subscribe topic qos).run b answers).result = some true →
      ((subscribe topic qos).run b answers).state.mem.buffer mqttMaxPacketSize = qos ∧
        ∀ i, mqttMaxPacketSize < i →
          ((subscribe topic qos).run b answers).state.mem.buffer i = b.mem.buffer i) := by
  constructor
  · intro htopic
    exact (state_of_wp (wp_subscribe_stays htopic qos) answers).inside
  · intro htopic hresult
    exact post_of_wp (wp_subscribe_stray htopic qos) hresult rfl

/-! ## Reading packets -/

theorem Waits.stays (h : Waits b b') : Stays b b' :=
  stays_of_eq (h.1.1.log.trans (List.append_nil _)) h.1.1.callback h.2

theorem wp_readByte_stays : wp readByte (fun _ => Stays b) (Stays b) b :=
  wp_mono wp_readByte (fun _ _ h => h.stays) (fun _ h => h.stays)

theorem wp_readByteAt_stays {pos : ℕ} (hpos : pos < mqttMaxPacketSize) :
    wp (readByteAt pos) (fun _ => Stays b) (Stays b) b := by
  refine wp_seq wp_readByte_stays (fun _ h => h) ?_
  intro read b₁ hwaits
  cases read with
  | none => exact wp_pure.mpr hwaits
  | some byte =>
      dsimp only
      rw [onBuffer, wp_modify_bind, wp_pure]
      exact hwaits.trans (stays_onBuffer (inside_update _ hpos byte))

theorem wp_readLength_stays (room length multiplier : ℕ) :
    wp (readLength room length multiplier) (fun _ => Stays b) (Stays b) b := by
  induction room generalizing b length multiplier with
  | zero =>
      rw [readLength, setState, stop, wp_modify_bind, wp_modify_bind, wp_pure]
      exact stays_of_eq rfl rfl rfl
  | succ room ih =>
      rw [readLength]
      refine wp_seq wp_readByte_stays (fun _ h => h) ?_
      intro read b₁ hwaits
      cases read with
      | none => exact wp_pure.mpr hwaits
      | some digit =>
          dsimp only
          rw [onBuffer, wp_modify_bind]
          have hpos : 4 - room < mqttMaxPacketSize := by
            rw [mqttMaxPacketSize]
            omega
          have hstored := hwaits.trans (stays_onBuffer (inside_update _ hpos digit))
          rw [wp_ite]
          refine ⟨fun _ => ?_, fun _ => wp_pure.mpr hstored⟩
          exact wp_mono (ih _ _) (fun _ _ h => hstored.trans h) (fun _ h => hstored.trans h)

/-- What does not fit is read, but not stored. -/
theorem wp_readRest_stays (n len idx : ℕ) :
    wp (readRest n len idx) (fun _ => Stays b) (Stays b) b := by
  induction n generalizing b len idx with
  | zero => exact wp_pure.mpr (Stays.refl b)
  | succ n ih =>
      rw [readRest]
      refine wp_seq wp_readByte_stays (fun _ h => h) ?_
      intro read b₁ hwaits
      cases read with
      | none => exact wp_pure.mpr hwaits
      | some digit =>
          dsimp only
          rw [wp_ite]
          refine ⟨fun hroom => ?_, fun _ => ?_⟩
          · rw [onBuffer, wp_modify_bind]
            have hstored := hwaits.trans (stays_onBuffer (inside_update _ hroom digit))
            exact wp_mono (ih _ _) (fun _ _ h => hstored.trans h) (fun _ h => hstored.trans h)
          · exact wp_mono (ih _ _) (fun _ _ h => hwaits.trans h) (fun _ h => hwaits.trans h)

theorem wp_readTopicLength_stays (isPublish : Bool) {len : ℕ} (hlen : len + 1 < mqttMaxPacketSize) :
    wp (readTopicLength isPublish len) (fun _ => Stays b) (Stays b) b := by
  rw [readTopicLength, wp_ite]
  refine ⟨fun _ => ?_, fun _ => wp_pure.mpr (Stays.refl b)⟩
  refine wp_seq (wp_readByteAt_stays (Nat.lt_of_succ_lt hlen)) (fun _ h => h) ?_
  intro ok b₁ hread
  rw [wp_ite]
  refine ⟨fun _ => ?_, fun _ => wp_pure.mpr hread⟩
  exact wp_mono (wp_readByteAt_stays hlen) (fun _ _ h => hread.trans h) (fun _ h => hread.trans h)

/-- A PUBLISH that was read has its two bytes for the length of the topic. -/
theorem wp_readBody_stays {pos : ℕ} (hpos : pos + 1 < mqttMaxPacketSize) (length : ℕ) :
    wp (readBody pos length) (fun len b' => Stays b b' ∧
      (0 < len → packetType (b.mem.buffer 0) = publishType → pos + 2 ≤ len)) (Stays b) b := by
  rw [readBody, wp_load_bind]
  dsimp only
  refine wp_seq (wp_readTopicLength_stays _ hpos) (fun _ h => h) ?_
  intro ok b₁ htopic
  rw [wp_ite]
  refine ⟨fun _ => ?_, fun _ => wp_pure.mpr ⟨htopic, by simp⟩⟩
  refine wp_seq (wp_and (wp_readRest _ _ _) (wp_readRest_stays _ _ _)) (fun _ h => htopic.trans h.2) ?_
  rintro read b₂ ⟨⟨-, hlen⟩, hrest⟩
  have hread := htopic.trans hrest
  cases read with
  | none => exact wp_pure.mpr ⟨hread, by simp⟩
  | some pair =>
      obtain ⟨len, idx⟩ := pair
      dsimp only
      rw [wp_pure]
      refine ⟨hread, fun hpositive htype => ?_⟩
      -- The two bytes are read even when the remaining length is less.
      have hpublish : (b.mem.buffer 0 &&& 0xF0 == publishType) = true := beq_iff_eq.mpr htype
      rw [hpublish, if_pos rfl] at hlen
      by_cases hbig : mqttMaxPacketSize < idx
      · rw [if_pos hbig] at hpositive
        exact absurd hpositive (Nat.lt_irrefl 0)
      · rw [if_neg hbig]
        exact (hlen len idx rfl).1

theorem wp_readPacket_stays :
    wp readPacket (fun read b' => Stays b b' ∧
      (0 < read.1 → packetType (b'.mem.buffer 0) = publishType → read.2 + 3 ≤ read.1)) (Stays b) b := by
  rw [readPacket]
  refine wp_seq (wp_readByteAt_stays (by decide)) (fun _ h => h) ?_
  intro ok b₁ hheader
  rw [wp_ite]
  refine ⟨fun _ => ?_, fun _ => wp_pure.mpr ⟨hheader, by simp⟩⟩
  have hlength := wp_and (wp_readLength (b := b₁) le_rfl 0 1) (wp_readLength_stays (b := b₁) 4 0 1)
  refine wp_seq hlength (fun _ h => hheader.trans h.2) ?_
  rintro found b₂ ⟨⟨-, hdigits⟩, hlength⟩
  have hread := hheader.trans hlength
  cases found with
  | none => exact wp_pure.mpr ⟨hread, by simp⟩
  | some found =>
      obtain ⟨len, length⟩ := found
      obtain ⟨stop, rfl, -, hstop, -⟩ := hdigits len length rfl
      have hroom : stop + 1 + 1 < mqttMaxPacketSize := by
        rw [mqttMaxPacketSize]
        omega
      have hbody := wp_and (wp_readBody (b := b₂) (by omega) length)
        (wp_readBody_stays (b := b₂) hroom length)
      dsimp only
      refine wp_seq hbody (fun _ h => hread.trans h.2) ?_
      rintro read b₃ ⟨⟨hreads, -⟩, hrest, htopic⟩
      rw [wp_pure]
      refine ⟨hread.trans hrest, fun hpositive htype => ?_⟩
      rw [hreads.2 0 (Nat.succ_pos stop)] at htype
      exact htopic hpositive htype

/-! ## Servicing the link -/

theorem wp_deliver_spills {callback : Callback δ} {llen len : ℕ} (t : UInt32)
    (hcallback : b.mem.callback = some callback) (hpacket : PacketAt b.mem.buffer llen len)
    (hlen : llen + 3 ≤ len) : wp (deliver callback llen len t) (fun _ => Spills b) (Spills b) b := by
  -- Between the move and the call nothing is asked, so no run is cut there.
  have hcalls : ∀ (topic : Bytes) (payload length : ℕ),
      wp (callBack callback (Memory.slice b.mem.buffer 0 len) topic payload length)
        (fun _ => Spills b) (Spills b) ⟨b.clock, { b.mem with buffer := topicMoved b.mem.buffer llen }⟩ := by
    intro topic payload length
    rw [callBack, wp_modify]
    refine ⟨rfl, _, rfl, fun hnone => ?_, inside_topicMoved hpacket hlen⟩
    rw [hcallback] at hnone
    cases hnone
  rw [deliver, wp_load_bind]
  dsimp only
  rw [onBuffer, wp_modify_bind, wp_load_bind, wp_ite]
  refine ⟨fun _ => ?_, fun _ => hcalls _ _ _⟩
  refine wp_seq (hcalls _ _ _) (fun _ h => h) ?_
  intro _ b₁ hcalled
  dsimp only
  have hid : 0 + (0x40 :: 2 :: Memory.slice (topicMoved b.mem.buffer llen)
      (llen + 3 + topicLength b.mem.buffer llen) 2).length ≤ mqttMaxPacketSize := by
    rw [List.length_cons, List.length_cons, Memory.length_slice]
    decide
  have hplaced := hcalled.trans (stays_onBuffer (inside_place hid b₁.mem.buffer)).spills
  rw [onBuffer, wp_modify_bind]
  refine wp_seq (wp_linkWrite_stays _) (fun _ h => hplaced.trans h.spills) ?_
  intro _ b₂ hwritten
  rw [wp_modify]
  apply hplaced.trans
  apply Stays.spills
  exact hwritten.trans (stays_of_eq rfl rfl rfl)

theorem wp_dispatch_spills {llen len : ℕ} (t : UInt32) (hpacket : PacketAt b.mem.buffer llen len)
    (hlen : packetType (b.mem.buffer 0) = publishType → llen + 3 ≤ len) :
    wp (dispatch llen len t) (fun _ => Spills b) (Spills b) b := by
  rw [dispatch, wp_load_bind]
  dsimp only
  rw [wp_ite]
  refine ⟨fun htype => ?_, fun _ => ?_⟩
  · cases hcallback : b.mem.callback with
    | none => exact wp_pure.mpr (Stays.refl b).spills
    | some callback => exact wp_deliver_spills t hcallback hpacket (hlen htype)
  rw [wp_ite]
  refine ⟨fun _ => ?_, fun _ => ?_⟩
  · have hend : 0 + [(0xD0 : UInt8), 0].length ≤ mqttMaxPacketSize := by decide
    have hplaced := stays_onBuffer (inside_place hend b.mem.buffer)
    rw [onBuffer, wp_modify_bind]
    refine wp_seq (wp_linkWrite_stays _) (fun _ h => (hplaced.trans h).spills) ?_
    intro _ b₁ hwritten
    exact wp_pure.mpr (hplaced.trans hwritten).spills
  rw [wp_ite]
  refine ⟨fun _ => ?_, fun _ => wp_pure.mpr (Stays.refl b).spills⟩
  rw [wp_modify]
  apply Stays.spills
  exact stays_of_eq rfl rfl rfl

theorem wp_service_spills {llen len : ℕ} (t : UInt32) (hpacket : PacketAt b.mem.buffer llen len)
    (hlen : packetType (b.mem.buffer 0) = publishType → llen + 3 ≤ len) :
    wp (service llen len t) (fun _ => Spills b) (Spills b) b := by
  have hserviced : Stays b ⟨b.clock, { b.mem with
      lastInActivity := t
      log := b.mem.log ++ [.serviced (Memory.slice b.mem.buffer 0 len)] }⟩ :=
    stays_of_event (.serviced (Memory.slice b.mem.buffer 0 len)) rfl rfl rfl rfl
  rw [service, wp_modify_bind]
  exact wp_mono (wp_dispatch_spills t hpacket hlen) (fun _ _ h => hserviced.spills.trans h)
    (fun _ h => hserviced.spills.trans h)

theorem wp_keepAlive_stays (t : UInt32) : wp (keepAlive t) (fun _ => Stays b) (Stays b) b := by
  rw [keepAlive, wp_load_bind, wp_ite]
  refine ⟨fun _ => ?_, fun _ => wp_pure.mpr (Stays.refl b)⟩
  rw [wp_ite]
  refine ⟨fun _ => ?_, fun _ => ?_⟩
  · rw [setState, stop, wp_modify_bind, wp_modify_bind, wp_pure]
    exact stays_of_eq rfl rfl rfl
  · have hend : 0 + [(0xC0 : UInt8), 0].length ≤ mqttMaxPacketSize := by decide
    have hplaced := stays_onBuffer (inside_place hend b.mem.buffer)
    rw [onBuffer, wp_modify_bind]
    refine wp_seq (wp_linkWrite_stays _) (fun _ h => hplaced.trans h) ?_
    intro _ b₁ hwritten
    rw [wp_modify_bind, wp_pure]
    exact (hplaced.trans hwritten).trans (stays_of_eq rfl rfl rfl)

theorem wp_loop_spills : wp loop (fun _ => Spills b) (Spills b) b := by
  rw [loop]
  refine wp_seq wp_connected_stays (fun _ h => h.spills) ?_
  intro rc b₁ hfound
  rw [wp_ite]
  refine ⟨fun _ => ?_, fun _ => wp_pure.mpr hfound.spills⟩
  rw [wp_millis_bind]
  refine ⟨hfound.spills, fun elapsed => ?_⟩
  have hchecked := hfound.trans (stays_clock (b₁.clock + elapsed))
  refine wp_seq (wp_keepAlive_stays _) (fun _ h => (hchecked.trans h).spills) ?_
  intro alive b₂ hkept
  have hkept := hchecked.trans hkept
  rw [wp_ite]
  refine ⟨fun _ => ?_, fun _ => wp_pure.mpr hkept.spills⟩
  rw [wp_available_bind]
  refine ⟨hkept.spills, fun answer => ?_⟩
  have hready := hkept.trans (stays_after answer)
  rw [wp_ite]
  refine ⟨fun _ => ?_, fun _ => wp_pure.mpr hready.spills⟩
  refine wp_seq (wp_and wp_readPacket wp_readPacket_stays) (fun _ h => (hready.trans h.2).spills) ?_
  rintro ⟨len, llen⟩ b₃ ⟨⟨-, hpacket⟩, hread, hlen⟩
  have hread := hready.trans hread
  dsimp only
  rw [wp_ite]
  refine ⟨fun hpositive => ?_, fun _ => ?_⟩
  · have hservice := wp_service_spills (b₁.clock + elapsed).toUInt32 (hpacket hpositive) (hlen hpositive)
    refine wp_seq hservice (fun _ h => hread.spills.trans h) ?_
    intro _ b₄ hserviced
    exact wp_pure.mpr (hread.spills.trans hserviced)
  · exact wp_mono wp_connected_stays (fun _ _ h => (hread.trans h).spills) (fun _ h => (hread.trans h).spills)

/-! ## Connecting -/

theorem wp_openLink_stays : wp openLink (fun _ => Stays b) (Stays b) b := by
  rw [openLink, wp_linkConnected_bind]
  refine ⟨Stays.refl b, fun answer => ?_⟩
  rw [wp_ite]
  refine ⟨fun _ => wp_pure.mpr (stays_after answer), fun _ => ?_⟩
  rw [linkConnect, wp_call_bind]
  refine ⟨stays_after answer, fun reply => ?_⟩
  rw [wp_ite]
  refine ⟨fun _ => ?_, fun _ => wp_pure.mpr (stays_of_eq rfl rfl rfl)⟩
  rw [wp_modify_bind, wp_pure]
  exact stays_of_event .opened rfl rfl rfl rfl

theorem wp_sendConnect_stays {id : Bytes}
    (hid : mqttMaxHeaderSize + connectHeader.length + 2 + id.length ≤ mqttMaxPacketSize) :
    wp (sendConnect id) (fun _ => Stays b) (Stays b) b := by
  have hplaced := stays_onBuffer (inside_writeString hid b.mem.buffer)
  rw [sendConnect, onBuffer, wp_modify_bind]
  refine wp_seq (wp_write_stays _ _) (fun _ h => hplaced.trans h) ?_
  intro _ b₁ hwritten
  have hsent := hplaced.trans hwritten
  rw [wp_millis_bind]
  refine ⟨hsent, fun elapsed => ?_⟩
  rw [wp_modify]
  exact hsent.trans (stays_of_eq rfl rfl rfl)

theorem wp_awaitConnack_stays : wp awaitConnack (fun _ => Stays b) (Stays b) b := by
  rw [awaitConnack]
  refine wp_seq (P := fun _ => Stays b) ?_ (fun _ h => h) ?_
  · apply wp_untilSome (Stays b) (Stays.refl b) (fun _ h => h)
    intro b₁ hwaited
    rw [wp_available_bind]
    refine ⟨hwaited, fun answer => ?_⟩
    have hlooked := hwaited.trans (stays_after answer)
    rw [wp_ite]
    refine ⟨fun _ => wp_pure.mpr hlooked, fun _ => ?_⟩
    rw [wp_millis_bind]
    refine ⟨hlooked, fun elapsed => ?_⟩
    have hlate := hlooked.trans (stays_clock (b₁.clock + answer.elapsed + elapsed))
    rw [wp_load_bind, wp_ite]
    exact ⟨fun _ => wp_pure.mpr hlate, fun _ => wp_pure.mpr hlate⟩
  intro answered b₁ hwaited
  rw [wp_ite]
  refine ⟨fun _ => ?_, fun _ => ?_⟩
  · refine wp_seq wp_readPacket_stays (fun _ h => hwaited.trans h) ?_
    rintro ⟨len, llen⟩ b₂ ⟨hread, -⟩
    have hread := hwaited.trans hread
    dsimp only
    rw [wp_load_bind, wp_ite]
    refine ⟨fun _ => ?_, fun _ => ?_⟩
    · rw [wp_millis_bind]
      refine ⟨hread, fun elapsed => ?_⟩
      rw [wp_modify_bind, wp_pure]
      exact hread.trans (stays_of_eq rfl rfl rfl)
    rw [wp_ite]
    refine ⟨fun _ => ?_, fun _ => ?_⟩
    · rw [setState, stop, wp_modify_bind, wp_modify_bind, wp_pure]
      exact hread.trans (stays_of_eq rfl rfl rfl)
    · rw [stop, wp_modify_bind, wp_pure]
      exact hread.trans (stays_of_eq rfl rfl rfl)
  · rw [setState, stop, wp_modify_bind, wp_modify_bind, wp_pure]
    exact hwaited.trans (stays_of_eq rfl rfl rfl)

theorem wp_connect_stays (id : Bytes) : wp (connect id) (fun _ => Stays b) (Stays b) b := by
  rw [connect]
  refine wp_seq wp_connected_stays (fun _ h => h) ?_
  intro rc b₁ hfound
  rw [wp_ite]
  refine ⟨fun _ => wp_pure.mpr hfound, fun _ => ?_⟩
  refine wp_seq wp_openLink_stays (fun _ h => hfound.trans h) ?_
  intro up b₂ hopened
  have hopened := hfound.trans hopened
  rw [wp_ite]
  refine ⟨fun _ => ?_, fun _ => ?_⟩
  swap
  · rw [setState, wp_modify_bind, wp_pure]
    exact hopened.trans (stays_of_eq rfl rfl rfl)
  have hheader : mqttMaxHeaderSize + connectHeader.length ≤ mqttMaxPacketSize := by decide
  -- The header of the CONNECT is placed before the identifier is measured.
  have hplaced : Stays b ⟨b₂.clock, { b₂.mem with
      nextMsgId := 1
      buffer := Memory.place connectHeader mqttMaxHeaderSize b₂.mem.buffer }⟩ :=
    hopened.trans (stays_of_inside rfl rfl (inside_place hheader b₂.mem.buffer))
  rw [wp_modify_bind, onBuffer, wp_modify_bind, wp_ite]
  refine ⟨fun _ => ?_, fun hlength => ?_⟩
  · rw [stop, wp_modify_bind, wp_pure]
    exact hplaced.trans (stays_of_eq rfl rfl rfl)
  -- the identifier is measured up to the size of the buffer only
  have hid : mqttMaxHeaderSize + connectHeader.length + 2 + id.length ≤ mqttMaxPacketSize := by
    rw [mqttMaxPacketSize] at hlength ⊢
    omega
  refine wp_seq (wp_sendConnect_stays hid) (fun _ h => hplaced.trans h) ?_
  intro _ b₃ hsent
  have hsent := hplaced.trans hsent
  exact wp_mono wp_awaitConnack_stays (fun _ _ h => hsent.trans h) (fun _ h => hsent.trans h)

/-! ## Programs that use the client -/

/-- The programs that change nothing behind the buffer but by moved topics. -/
def Spilling (α : Type) (m : Sketch (PubSubClient δ) α) : Prop :=
  ∀ b, wp m (fun _ => Spills b) (Spills b) b

theorem spilling_of_stays {α : Type} {m : Sketch (PubSubClient δ) α}
    (h : ∀ b, wp m (fun _ => Stays b) (Stays b) b) : Spilling α m :=
  fun b => wp_mono (h b) (fun _ _ h => h.spills) (fun _ h => h.spills)

theorem Spilling.keeping {α : Type} {m : Sketch (PubSubClient δ) α} (h : Spilling α m)
    (start : Board (PubSubClient δ)) : Keeping (Spills start) (Spills start) α m :=
  fun b hb => wp_mono (h b) (fun _ _ hstep => hb.trans hstep) (fun _ hstep => hb.trans hstep)

theorem spilling_of_built {α : Type} {m : Sketch (PubSubClient δ) α} (h : Built Spilling m) :
    Spilling α m :=
  fun b => h.keeps (fun _ h => h) (fun _ _ hm => hm.keeping b) (Stays.refl b).spills

theorem spilling_of_operation {α : Type} {m : Sketch (PubSubClient δ) α}
    (h : Operation (fun topic => topic.length ≠ 247) α m) : Spilling α m := by
  cases h with
  | call =>
      intro b
      rw [← bind_pure call, wp_call_bind]
      exact ⟨(Stays.refl b).spills, fun answer => wp_pure.mpr (stays_clock _).spills⟩
  | delay ms =>
      intro b
      rw [wp_delay]
      exact ⟨(Stays.refl b).spills, fun elapsed => (stays_clock _).spills⟩
  | connected => exact spilling_of_stays fun _ => wp_connected_stays
  | connect id => exact spilling_of_stays fun _ => wp_connect_stays id
  | publish topic payload retained => exact spilling_of_stays fun _ => wp_publishBytes_stays topic _ retained
  | subscribe htopic qos => exact spilling_of_stays fun _ => wp_subscribe_stays htopic qos
  | loop => exact fun _ => wp_loop_spills

theorem spilling_resume : Spilling Unit (resume : Sketch (PubSubClient δ) Unit) := by
  intro b
  rw [resume, wp_modify]
  apply Stays.spills
  exact stays_of_event .resumed rfl rfl rfl rfl

/-- A program that works with the client through its public functions, in any order and as often as it likes,
and does not subscribe to a topic of 247 characters. -/
abbrev Uses {α : Type} (m : Sketch (PubSubClient δ) α) : Prop :=
  Built (Operation fun topic => topic.length ≠ 247) m

theorem Uses.spilling {α : Type} {m : Sketch (PubSubClient δ) α} (h : Uses m) : Spilling α m :=
  fun b => h.keeps (fun _ h => h) (fun _ _ hm => (spilling_of_operation hm).keeping b) (Stays.refl b).spills

/-- However a program uses the client, and wherever its run is cut, the cells behind the buffer are what the
topics of the delivered packets have made of them. They are untouched as long as the topics keep to the
buffer, and for a client without a callback. -/
theorem stray_cells {α : Type} {m : Sketch (PubSubClient δ) α} (h : Uses m) (b : Board (PubSubClient δ))
    (answers : List Answer) :
    ∃ events, (m.run b answers).state.mem.log = b.mem.log ++ events ∧
      (∀ i, mqttMaxPacketSize ≤ i →
        (m.run b answers).state.mem.buffer i = spilled events b.mem.buffer i) ∧
      (b.mem.callback = none ∨ (∀ delivery ∈ deliveries events, Roomy delivery.packet) →
        ∀ i, mqttMaxPacketSize ≤ i → (m.run b answers).state.mem.buffer i = b.mem.buffer i) := by
  obtain ⟨events, hlog, hnone, hinside⟩ := (state_of_wp (h.spilling b) answers).cells
  refine ⟨events, hlog, hinside, ?_⟩
  rintro (hcallback | hroomy)
  · rw [spilled_of_undelivered (hnone hcallback)] at hinside
    exact hinside
  · exact (inside_spilled hroomy b.mem.buffer).trans hinside

/-- A client with a callback, which four bytes of a broker wait for: a PUBLISH whose topic claims 257
bytes. -/
def flooded : Board (PubSubClient Unit) where
  clock := 0
  mem :=
    { link := { up := true, inbox := [0x30, 2, 1, 1] }
      state := mqttConnected
      buffer := fun i => UInt8.ofNat i
      callback := some fun _ _ => pure ()
      dev := () }

theorem stray_cells_flooded :
    (List.range 6).map (fun i => (loop.run flooded (calm 60)).state.mem.buffer (256 + i)) =
      [1, 2, 3, 4, 0, 5] := by
  obtain ⟨events, hlog, hcells, -⟩ := stray_cells (.part .loop) flooded (calm 60)
  have hevents : events = [.serviced [0x30, 2, 1, 1], .delivered ⟨[0x30, 2, 1, 1], 4294967039, [], ()⟩] := by
    rw [show flooded.mem.log = [] from rfl, List.nil_append] at hlog
    rw [← hlog]
    decide +kernel
  have hread : ∀ i ∈ List.range 6, (loop.run flooded (calm 60)).state.mem.buffer (256 + i) =
      spilled events flooded.mem.buffer (256 + i) :=
    fun i _ => hcells (256 + i) (Nat.le_add_right _ i)
  rw [List.map_congr_left hread, hevents]
  decide +kernel

end PubSubClient

end Arduino
