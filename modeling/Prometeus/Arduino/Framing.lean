import Prometeus.Arduino.PubSubClientLaws

/-! # Inbound framing

Packets arrive as one stream of bytes. When a whole packet is at the front of what has arrived,
`loop` takes exactly that packet off the stream, whatever its size and whatever becomes of the link
meanwhile, so that packets are serviced whole, once and in their order.
-/

namespace Arduino

open Script Sketch Mqtt

namespace PubSubClient

variable {δ : Type} {b b₀ : Board (PubSubClient δ)} {left : Bytes}

/-! ## The stream -/

/-- These bytes are read next. -/
def Pending (bytes : Bytes) (b : Board (PubSubClient δ)) : Prop :=
  ∃ later, b.mem.link.inbox = bytes ++ later

theorem Pending.after {bytes : Bytes} (h : Pending bytes b) (answer : Answer) :
    Pending bytes ⟨b.clock + answer.elapsed, { b.mem with link := b.mem.link.after answer }⟩ := by
  obtain ⟨later, hinbox⟩ := h
  rw [Pending]
  dsimp only [Link.after]
  split
  · exact ⟨later ++ answer.bytes, by rw [hinbox, List.append_assoc]⟩
  · exact ⟨later, hinbox⟩

/-- A byte that has arrived is read without waiting. -/
theorem wp_readByte_pending {byte : UInt8} (h : Pending (byte :: left) b) :
    wp readByte (fun read b' => read = some byte ∧ Waits b b' ∧ Pending left b') (Waits b) b := by
  rw [readByte, wp_millis_bind]
  refine ⟨Waits.refl b, fun elapsed => ?_⟩
  refine wp_seq (P := fun arrived b' => arrived = true ∧ Waits b b' ∧ Pending (byte :: left) b')
    (D := Waits b) ?_ (fun _ h => h) ?_
  · apply wp_untilSome fun b' => Waits b b' ∧ Pending (byte :: left) b'
    · exact ⟨waits_millis elapsed, h⟩
    · exact fun _ h => h.1
    rintro b₁ ⟨hwaits, hpending⟩
    rw [wp_available_bind]
    refine ⟨hwaits, fun answer => ?_⟩
    have hlater := hpending.after answer
    have harrived : 0 < (b₁.mem.link.after answer).inbox.length := by
      obtain ⟨later, hinbox⟩ := hlater
      dsimp only at hinbox
      rw [hinbox]
      exact Nat.succ_pos _
    rw [if_pos harrived, wp_pure]
    exact ⟨rfl, hwaits.trans (waits_after answer), hlater⟩
  · rintro arrived b₁ ⟨rfl, hwaits, later, hinbox⟩
    rw [if_pos rfl, linkRead, bind_assoc, wp_load_bind, bind_assoc, wp_modify_bind, pure_bind, wp_pure,
      hinbox]
    exact ⟨rfl, hwaits.trans ⟨⟨⟨le_rfl, by simp, rfl, rfl⟩, id, id⟩, rfl⟩, later, rfl⟩

/-- Since `b₀` nothing was logged; the buffer begins with what was read, and what is left is read
next. -/
structure Reading (b₀ : Board (PubSubClient δ)) (read left : Bytes) (b : Board (PubSubClient δ)) :
    Prop where
  quiet : Quiet b₀ b
  buffer : Memory.slice b.mem.buffer 0 read.length = read
  pending : Pending left b

theorem Reading.waits {read : Bytes} {b' : Board (PubSubClient δ)} (h : Reading b₀ read left b)
    {left' : Bytes} (hwaits : Waits b b') (hpending : Pending left' b') :
    Reading b₀ read left' b' := by
  refine ⟨h.quiet.trans hwaits.1, ?_, hpending⟩
  rw [hwaits.2]
  exact h.buffer

theorem Reading.store {read : Bytes} (h : Reading b₀ read left b) (byte : UInt8) :
    Reading b₀ (read ++ [byte]) left
      ⟨b.clock, { b.mem with buffer := Function.update b.mem.buffer read.length byte }⟩ := by
  refine ⟨h.quiet.trans (quiet_onBuffer fun buf => Function.update buf read.length byte), ?_, h.pending⟩
  dsimp only
  rw [List.length_append, List.length_singleton, Memory.slice_succ, Nat.zero_add,
    Function.update_self]
  congr 1
  conv_rhs => rw [← h.buffer]
  apply Memory.slice_congr
  intro i _ hi
  exact Function.update_of_ne (by omega) _ _

theorem wp_readByteAt_pending {read : Bytes} {byte : UInt8}
    (h : Reading b₀ read (byte :: left) b) :
    wp (readByteAt read.length) (fun ok b' => ok = true ∧ Reading b₀ (read ++ [byte]) left b')
      (Quiet b₀) b := by
  refine wp_seq (wp_readByte_pending h.pending) (fun _ hcut => h.quiet.trans hcut.1) ?_
  rintro _ b₁ ⟨rfl, hwaits, hpending⟩
  dsimp only
  rw [onBuffer, wp_modify_bind, wp_pure]
  exact ⟨rfl, (h.waits hwaits hpending).store byte⟩

/-! ## The remaining length -/

theorem toNat_and_127 (digit : UInt8) : (digit &&& 127).toNat = digit.toNat % 128 := by
  rw [UInt8.toNat_and]
  exact Nat.and_two_pow_sub_one_eq_mod digit.toNat 7

/-- The digits of a length are read back to it. -/
theorem wp_readLength_pending {room n : ℕ} {read : Bytes} (hpos : 0 < room) (hroom : room ≤ 4)
    (hn : n < 128 ^ room) (hread : read.length = 5 - room)
    (h : Reading b₀ read (encodeLengthIn room n ++ left) b) (length multiplier : ℕ) :
    wp (readLength room length multiplier) (fun found b' =>
      found = some (read.length + (encodeLengthIn room n).length, length + n * multiplier) ∧
        Reading b₀ (read ++ encodeLengthIn room n) left b') (Quiet b₀) b := by
  induction room generalizing b read n length multiplier with
  | zero => omega
  | succ room ih =>
      have hat : 4 - room = read.length := by omega
      rw [encodeLengthIn] at h ⊢
      rw [readLength]
      by_cases hsmall : n < 128
      · rw [if_pos hsmall] at h ⊢
        refine wp_seq (wp_readByte_pending h.pending) (fun _ hcut => h.quiet.trans hcut.1) ?_
        rintro _ b₁ ⟨rfl, hwaits, hpending⟩
        have hdigit : (UInt8.ofNat n).toNat = n := by
          rw [UInt8.toNat_ofNat']
          omega
        dsimp only
        rw [onBuffer, wp_modify_bind, hat, if_neg (by rw [and_128_ne_zero_iff, hdigit]; omega), wp_pure,
          toNat_and_127, hdigit, Nat.mod_eq_of_lt hsmall]
        exact ⟨rfl, (h.waits hwaits hpending).store _⟩
      · rw [if_neg hsmall] at h ⊢
        refine wp_seq (wp_readByte_pending h.pending) (fun _ hcut => h.quiet.trans hcut.1) ?_
        rintro _ b₁ ⟨rfl, hwaits, hpending⟩
        have hdigit : (UInt8.ofNat (n % 128 + 128)).toNat = n % 128 + 128 := by
          rw [UInt8.toNat_ofNat']
          omega
        have hroom' : 0 < room := by
          rcases Nat.eq_zero_or_pos room with rfl | hpos
          · rw [Nat.zero_add, pow_one] at hn
            omega
          · exact hpos
        dsimp only
        rw [onBuffer, wp_modify_bind, hat, if_pos (by rw [and_128_ne_zero_iff, hdigit]; omega),
          toNat_and_127, hdigit]
        have hstored := (h.waits hwaits hpending).store (UInt8.ofNat (n % 128 + 128))
        have hrest := ih (n := n / 128) hroom' (by omega)
          (by rw [pow_succ] at hn; omega) (by simp; omega) hstored
          (length + (n % 128 + 128) % 128 * multiplier) (multiplier * 128)
        refine wp_mono hrest ?_ (fun _ hcut => hcut)
        rintro _ b₂ ⟨rfl, hreading⟩
        rw [List.append_assoc] at hreading
        refine ⟨?_, hreading⟩
        rw [List.length_append, List.length_singleton, List.length_cons, Nat.add_mod_right,
          Nat.mod_mod, mul_comm multiplier 128, ← mul_assoc, Nat.add_assoc length, ← add_mul,
          Nat.mod_add_div' n 128]
        congr 2
        omega

/-! ## Whole packets -/

theorem length_encodeLengthIn_le (room n : ℕ) : (encodeLengthIn room n).length ≤ room := by
  induction room generalizing n with
  | zero => exact le_rfl
  | succ room ih =>
      rw [encodeLengthIn]
      split
      · exact Nat.succ_le_succ (Nat.zero_le room)
      · exact Nat.succ_le_succ (ih (n / 128))

/-- The rest of a packet; the buffer keeps of the whole as much as fits. -/
theorem wp_readRest_pending {seen bytes : Bytes}
    (h : Reading b₀ (seen.take mqttMaxPacketSize) (bytes ++ left) b) :
    wp (readRest bytes.length (min seen.length mqttMaxPacketSize) seen.length) (fun found b' =>
      found = some (min (seen ++ bytes).length mqttMaxPacketSize, (seen ++ bytes).length) ∧
        Reading b₀ ((seen ++ bytes).take mqttMaxPacketSize) left b') (Quiet b₀) b := by
  induction bytes generalizing seen b with
  | nil =>
      rw [List.length_nil, readRest, wp_pure, List.append_nil]
      exact ⟨rfl, h⟩
  | cons byte bytes ih =>
      have hseen : seen ++ byte :: bytes = (seen ++ [byte]) ++ bytes := by simp
      rw [hseen, List.length_cons, readRest]
      refine wp_seq (wp_readByte_pending h.pending) (fun _ hcut => h.quiet.trans hcut.1) ?_
      rintro _ b₁ ⟨rfl, hwaits, hpending⟩
      have hread := h.waits hwaits hpending
      dsimp only
      rw [wp_ite]
      refine ⟨fun hroom => ?_, fun hfull => ?_⟩
      · have hlength : min seen.length mqttMaxPacketSize = (seen.take mqttMaxPacketSize).length := by
          rw [List.length_take, Nat.min_comm]
        have hstored := hread.store byte
        rw [← hlength] at hstored
        have htake : seen.take mqttMaxPacketSize ++ [byte] =
            (seen ++ [byte]).take mqttMaxPacketSize := by
          rw [List.take_of_length_le (by omega), List.take_of_length_le (by simp; omega)]
        rw [htake] at hstored
        have hnext := ih hstored
        have hmin : min (seen ++ [byte]).length mqttMaxPacketSize =
            min seen.length mqttMaxPacketSize + 1 := by
          rw [List.length_append, List.length_singleton]
          omega
        rw [hmin, List.length_append, List.length_singleton] at hnext
        rw [onBuffer, wp_modify_bind]
        exact hnext
      · have htake : seen.take mqttMaxPacketSize = (seen ++ [byte]).take mqttMaxPacketSize := by
          rw [List.take_append_of_le_length (by omega)]
        rw [htake] at hread
        have hnext := ih hread
        have hmin : min (seen ++ [byte]).length mqttMaxPacketSize =
            min seen.length mqttMaxPacketSize := by
          rw [List.length_append, List.length_singleton]
          omega
        rw [hmin, List.length_append, List.length_singleton] at hnext
        exact hnext

/-- A packet as a server sends it; a PUBLISH has the length of its topic. -/
structure Inbound (header : UInt8) (body : Bytes) : Prop where
  length : body.length < 128 ^ 4
  topic : packetType header = publishType → 2 ≤ body.length

theorem wp_readTopicLength_pending {read topic : Bytes} {isPublish : Bool}
    (htopic : topic.length = if isPublish then 2 else 0) (h : Reading b₀ read (topic ++ left) b) :
    wp (readTopicLength isPublish read.length) (fun ok b' =>
      ok = true ∧ Reading b₀ (read ++ topic) left b') (Quiet b₀) b := by
  cases isPublish with
  | false =>
      rw [List.length_eq_zero_iff.mp htopic] at h ⊢
      rw [readTopicLength, if_neg Bool.false_ne_true, wp_pure, List.append_nil]
      exact ⟨rfl, h⟩
  | true =>
      obtain ⟨high, low, rfl⟩ := List.length_eq_two.mp htopic
      rw [readTopicLength, if_pos rfl]
      refine wp_seq (wp_readByteAt_pending h) (fun _ hcut => hcut) ?_
      rintro _ b₁ ⟨rfl, hhigh⟩
      rw [if_pos rfl]
      have hlow := wp_readByteAt_pending hhigh
      rw [List.length_append, List.append_assoc] at hlow
      exact hlow

/-- The body of a packet, behind its header and length. -/
theorem wp_readBody_pending {header : UInt8} {body : Bytes} {digits : Bytes}
    (hdigits : digits.length ≤ 4) (hinbound : Inbound header body)
    (h : Reading b₀ (header :: digits) (body ++ left) b) :
    wp (readBody (header :: digits).length body.length) (fun read b' =>
      read = (if (header :: (digits ++ body)).length ≤ mqttMaxPacketSize
        then (header :: (digits ++ body)).length else 0) ∧
      Reading b₀ ((header :: (digits ++ body)).take mqttMaxPacketSize) left b') (Quiet b₀) b := by
  have hheader : b.mem.buffer 0 = header := by
    have hbuffer := h.buffer
    rw [List.length_cons, Memory.slice_cons] at hbuffer
    exact (List.cons.inj hbuffer).1
  rw [readBody, wp_load_bind, hheader]
  dsimp only
  obtain ⟨isPublish, hpublish⟩ : ∃ p, (header &&& 0xF0 == publishType) = p := ⟨_, rfl⟩
  rw [hpublish]
  have hstart : (if isPublish = true then 2 else 0) ≤ body.length := by
    split
    next hp =>
      apply hinbound.topic
      rw [packetType]
      rwa [hp, beq_iff_eq] at hpublish
    · exact Nat.zero_le _
  generalize hskip : (if isPublish = true then 2 else 0) = start at hstart
  have hsplit : body ++ left = body.take start ++ (body.drop start ++ left) := by
    rw [← List.append_assoc, List.take_append_drop]
  rw [hsplit] at h
  have htopic : (body.take start).length = if isPublish then 2 else 0 := by
    rw [hskip, List.length_take, Nat.min_eq_left hstart]
  refine wp_seq (wp_readTopicLength_pending htopic h) (fun _ hcut => hcut) ?_
  rintro _ b₁ ⟨rfl, hread⟩
  rw [if_pos rfl]
  set seen : Bytes := header :: digits ++ body.take start with hseen
  have hlength : seen.length = (header :: digits).length + start := by
    rw [hseen, List.length_append, List.length_take, Nat.min_eq_left hstart]
  have hsmall : seen.length ≤ mqttMaxPacketSize := by
    rw [hlength, ← hskip, List.length_cons, mqttMaxPacketSize]
    split <;> omega
  have hdrop : (body.drop start).length = body.length - start := List.length_drop
  have hall : seen ++ body.drop start = header :: (digits ++ body) := by
    rw [hseen, List.append_assoc, List.take_append_drop, List.cons_append]
  rw [← List.take_of_length_le hsmall] at hread
  have hrest := wp_readRest_pending hread
  rw [Nat.min_eq_left hsmall, hdrop, hlength, hall] at hrest
  refine wp_seq hrest (fun _ hcut => hcut) ?_
  rintro _ b₂ ⟨rfl, hreading⟩
  dsimp only
  rw [wp_pure]
  refine ⟨?_, hreading⟩
  by_cases hfits : (header :: (digits ++ body)).length ≤ mqttMaxPacketSize
  · rw [if_pos hfits, if_neg (Nat.not_lt.mpr hfits), Nat.min_eq_left hfits]
  · rw [if_neg hfits, if_pos (Nat.not_le.mp hfits)]

/-- A packet at the front of the stream is read off it, whatever its size. One that does
not fit into the buffer is reported as none. -/
theorem wp_readPacket_pending {header : UInt8} {body : Bytes} (hinbound : Inbound header body)
    (h : Pending (frame header body ++ left) b) :
    wp readPacket (fun found b' => Quiet b b' ∧ Pending left b' ∧
      found.1 = (if (frame header body).length ≤ mqttMaxPacketSize
        then (frame header body).length else 0) ∧
      found.2 = (encodeLength body.length).length ∧
      ((frame header body).length ≤ mqttMaxPacketSize →
        Memory.slice b'.mem.buffer 0 (frame header body).length = frame header body))
      (Quiet b) b := by
  have hdigits : (encodeLength body.length).length ≤ 4 := length_encodeLengthIn_le _ _
  have hstart : Reading b [] (header :: (encodeLength body.length ++ (body ++ left))) b := by
    refine ⟨Quiet.refl b, rfl, ?_⟩
    rw [← List.append_assoc, ← List.cons_append]
    exact h
  rw [readPacket]
  refine wp_seq (wp_readByteAt_pending hstart) (fun _ hcut => hcut) ?_
  rintro _ b₁ ⟨rfl, hheader⟩
  rw [if_pos rfl]
  have hfirst : [header].length = 5 - 4 := rfl
  have hlength := wp_readLength_pending (by decide) le_rfl hinbound.length hfirst hheader 0 1
  refine wp_seq hlength (fun _ hcut => hcut) ?_
  rintro _ b₂ ⟨rfl, hread⟩
  have hcount : [header].length + (encodeLengthIn 4 body.length).length =
      (header :: encodeLength body.length).length := by
    rw [List.length_cons, List.length_cons, List.length_nil, encodeLength]
    omega
  have hbody : 0 + body.length * 1 = body.length := by omega
  dsimp only
  rw [hcount, hbody]
  refine wp_seq (wp_readBody_pending hdigits hinbound hread) (fun _ hcut => hcut) ?_
  rintro _ b₃ ⟨rfl, hreading⟩
  rw [wp_pure]
  refine ⟨hreading.quiet, hreading.pending, rfl, rfl, fun hfits => ?_⟩
  have hbuffer : Memory.slice b₃.mem.buffer 0 ((frame header body).take mqttMaxPacketSize).length =
      (frame header body).take mqttMaxPacketSize := hreading.buffer
  rwa [List.take_of_length_le hfits] at hbuffer

/-! ## Servicing -/

/-- The packets that were serviced, among some events. -/
def serviced (events : List (Event δ)) : List Bytes :=
  events.filterMap fun event => match event with
    | .serviced packet => some packet
    | _ => none

theorem serviced_append (events more : List (Event δ)) :
    serviced (events ++ more) = serviced events ++ serviced more :=
  List.filterMap_append

/-- The stream is left alone and no packet is serviced. -/
structure Attends (b b' : Board (PubSubClient δ)) : Prop where
  pending : ∀ bytes, Pending bytes b → Pending bytes b'
  serviced : serviced b'.mem.log = serviced b.mem.log

theorem Attends.refl (b : Board (PubSubClient δ)) : Attends b b := ⟨fun _ h => h, rfl⟩

theorem Attends.trans {b' b'' : Board (PubSubClient δ)} (h : Attends b b') (h' : Attends b' b'') :
    Attends b b'' :=
  ⟨fun bytes hb => h'.pending bytes (h.pending bytes hb), h'.serviced.trans h.serviced⟩

theorem attends_after (answer : Answer) :
    Attends b ⟨b.clock + answer.elapsed, { b.mem with link := b.mem.link.after answer }⟩ :=
  ⟨fun _ h => h.after answer, rfl⟩

theorem wp_linkWrite_attends (packet : Bytes) :
    wp (linkWrite packet) (fun _ => Attends b) (Attends b) b := by
  rw [linkWrite, wp_onLink_bind]
  refine ⟨Attends.refl b, fun answer => ?_⟩
  have hafter := attends_after (b := b) answer
  rw [wp_load_bind, wp_ite]
  refine ⟨fun _ => ?_, fun _ => ?_⟩
  · rw [wp_modify_bind, wp_pure]
    refine ⟨hafter.pending, ?_⟩
    dsimp only
    rw [serviced_append]
    exact List.append_nil _
  · rw [wp_modify_bind, wp_pure]
    exact ⟨hafter.pending, rfl⟩

theorem wp_callBack_attends {callback : Callback δ} {packet topic : Bytes} {payload length : ℕ} :
    wp (callBack callback packet topic payload length) (fun _ => Attends b) (Attends b) b := by
  rw [callBack, wp_modify]
  refine ⟨fun _ h => h, ?_⟩
  dsimp only
  rw [serviced_append]
  exact List.append_nil _

theorem wp_deliver_attends (callback : Callback δ) (llen len : ℕ) (t : UInt32) :
    wp (deliver callback llen len t) (fun _ => Attends b) (Attends b) b := by
  have hmoved : ∀ (c : Board (PubSubClient δ)) (f : Memory UInt8 → Memory UInt8),
      Attends c ⟨c.clock, { c.mem with buffer := f c.mem.buffer }⟩ := fun _ _ => ⟨fun _ h => h, rfl⟩
  rw [deliver, wp_load_bind]
  dsimp only
  rw [onBuffer, wp_modify_bind, wp_load_bind, wp_ite]
  have hstart := hmoved b fun buf => topicMoved buf llen
  refine ⟨fun _ => ?_, fun _ => ?_⟩
  · refine wp_seq wp_callBack_attends (fun _ h => hstart.trans h) ?_
    intro _ b₁ hcalled
    rw [onBuffer, wp_modify_bind]
    have hplaced := fun f => (hstart.trans hcalled).trans (hmoved b₁ f)
    refine wp_seq (wp_linkWrite_attends _) (fun _ h => (hplaced _).trans h) ?_
    intro _ b₂ hwritten
    rw [wp_modify]
    exact (hplaced _).trans ⟨hwritten.pending, hwritten.serviced⟩
  · exact wp_mono wp_callBack_attends (fun _ _ h => hstart.trans h) (fun _ h => hstart.trans h)

theorem wp_dispatch_attends (llen len : ℕ) (t : UInt32) :
    wp (dispatch llen len t) (fun _ => Attends b) (Attends b) b := by
  rw [dispatch, wp_load_bind]
  dsimp only
  rw [wp_ite]
  refine ⟨fun _ => ?_, fun _ => ?_⟩
  · cases b.mem.callback with
    | none => exact wp_pure.mpr (Attends.refl b)
    | some callback => exact wp_deliver_attends callback llen len t
  rw [wp_ite]
  refine ⟨fun _ => ?_, fun _ => ?_⟩
  · rw [onBuffer, wp_modify_bind]
    refine wp_seq (wp_linkWrite_attends _) (fun _ h => ⟨h.pending, h.serviced⟩) ?_
    intro _ b₁ hwritten
    rw [wp_pure]
    exact ⟨hwritten.pending, hwritten.serviced⟩
  rw [wp_ite]
  refine ⟨fun _ => ?_, fun _ => wp_pure.mpr (Attends.refl b)⟩
  rw [wp_modify]
  exact ⟨fun _ h => h, rfl⟩

/-- The packet in the buffer is serviced, and the stream behind it left alone. -/
theorem wp_service_pending (llen len : ℕ) (t : UInt32) (h : Pending left b) :
    wp (service llen len t) (fun _ b' => Pending left b' ∧
        serviced b'.mem.log = serviced b.mem.log ++ [Memory.slice b.mem.buffer 0 len])
      (fun b' => serviced b'.mem.log = serviced b.mem.log ++ [Memory.slice b.mem.buffer 0 len]) b := by
  have hlog : serviced (b.mem.log ++ [.serviced (Memory.slice b.mem.buffer 0 len)]) =
      serviced b.mem.log ++ [Memory.slice b.mem.buffer 0 len] := serviced_append _ _
  rw [service, wp_modify_bind]
  refine wp_mono (wp_dispatch_attends llen len t) ?_ ?_
  · exact fun _ b' hattends => ⟨hattends.pending left h, hattends.serviced.trans hlog⟩
  · exact fun b' hattends => hattends.serviced.trans hlog

/-- A client that is connected has left the stream alone. -/
theorem wp_connected_attends :
    wp connected (fun rc b' => serviced b'.mem.log = serviced b.mem.log ∧
        (rc = true → Attends b b') ∧ (rc = false → ¬Live b'))
      (fun b' => serviced b'.mem.log = serviced b.mem.log) b := by
  rw [connected, wp_linkConnected_bind]
  refine ⟨rfl, fun answer => ?_⟩
  have hafter := attends_after (b := b) answer
  rw [wp_load_bind, wp_ite]
  refine ⟨fun _ => ?_, fun hdown => ?_⟩
  · rw [wp_pure]
    refine ⟨hafter.serviced, fun _ => hafter, fun hstate hlive => ?_⟩
    rw [beq_eq_false_iff_ne] at hstate
    exact hstate hlive.2
  · rw [wp_ite]
    refine ⟨fun hstate => ?_, fun _ => ?_⟩
    · rw [setState, stop, wp_modify_bind, wp_modify_bind, wp_pure]
      exact ⟨hafter.serviced, fun h => absurd h Bool.false_ne_true,
        fun _ hlive => absurd hlive.1 Bool.false_ne_true⟩
    · rw [wp_pure]
      exact ⟨hafter.serviced, fun h => absurd h Bool.false_ne_true, fun _ hlive => hdown hlive.1⟩

/-- A client that goes on after the keep-alive part has left the stream alone. -/
theorem wp_keepAlive_attends (t : UInt32) :
    wp (keepAlive t) (fun ok b' => serviced b'.mem.log = serviced b.mem.log ∧
        (ok = true → Attends b b') ∧ (ok = false → ¬Live b'))
      (fun b' => serviced b'.mem.log = serviced b.mem.log) b := by
  rw [keepAlive, wp_load_bind, wp_ite]
  refine ⟨fun _ => ?_, fun _ => wp_pure.mpr ⟨rfl, fun _ => Attends.refl b, by simp⟩⟩
  rw [wp_ite]
  refine ⟨fun _ => ?_, fun _ => ?_⟩
  · rw [setState, stop, wp_modify_bind, wp_modify_bind, wp_pure]
    exact ⟨rfl, fun h => absurd h Bool.false_ne_true, fun _ hlive => absurd hlive.1 Bool.false_ne_true⟩
  · rw [onBuffer, wp_modify_bind]
    refine wp_seq (wp_linkWrite_attends _) (fun _ h => h.serviced) ?_
    intro _ b₁ hwritten
    rw [wp_modify_bind, wp_pure]
    exact ⟨hwritten.serviced, fun _ => ⟨hwritten.pending, hwritten.serviced⟩, by simp⟩

/-! ## One call of `loop` -/

/-- What is serviced of a packet: one that does not fit into the buffer is ignored. -/
def Fitting (packet : Bytes) : Bool := packet.length ≤ mqttMaxPacketSize

/-- A call of `loop` that finds a whole packet takes it off the stream, unless it finds
the session gone. -/
theorem wp_loop_pending {header : UInt8} {body : Bytes} (hinbound : Inbound header body)
    (h : Pending (frame header body ++ left) b) :
    wp loop (fun _ b' => (serviced b'.mem.log = serviced b.mem.log ∧ ¬Live b') ∨
        (serviced b'.mem.log = serviced b.mem.log ++ [frame header body].filter Fitting ∧
          (Live b' → Pending left b')))
      (fun b' => serviced b'.mem.log = serviced b.mem.log ∨
        serviced b'.mem.log = serviced b.mem.log ++ [frame header body].filter Fitting) b := by
  rw [loop]
  refine wp_seq wp_connected_attends (fun _ h => Or.inl h) ?_
  rintro rc b₁ ⟨hlog₁, hrc, hgone⟩
  rw [wp_ite]
  refine ⟨fun hup => ?_, fun hdown => ?_⟩
  swap
  · rw [wp_pure]
    exact Or.inl ⟨hlog₁, hgone (Bool.not_eq_true _ ▸ hdown)⟩
  have hpending₁ := (hrc hup).pending _ h
  rw [wp_millis_bind]
  refine ⟨Or.inl hlog₁, fun elapsed => ?_⟩
  refine wp_seq (wp_keepAlive_attends _) (fun _ h => Or.inl (h.trans hlog₁)) ?_
  rintro ok b₂ ⟨hlog₂, hok, hgone⟩
  have hlog₂ := hlog₂.trans hlog₁
  rw [wp_ite]
  refine ⟨fun hgoes => ?_, fun hstops => ?_⟩
  swap
  · rw [wp_pure]
    exact Or.inl ⟨hlog₂, hgone (Bool.not_eq_true _ ▸ hstops)⟩
  have hpending₂ := (hok hgoes).pending _ hpending₁
  rw [wp_available_bind]
  refine ⟨Or.inl hlog₂, fun answer => ?_⟩
  have hpending₃ := hpending₂.after answer
  have harrived : 0 < (b₂.mem.link.after answer).inbox.length := by
    obtain ⟨later, hinbox⟩ := hpending₃
    dsimp only at hinbox
    rw [hinbox, frame]
    exact Nat.succ_pos _
  rw [if_pos harrived]
  refine wp_seq (wp_readPacket_pending hinbound hpending₃)
    (fun b' h => Or.inl (by rw [h.1.log, List.append_nil]; exact hlog₂)) ?_
  rintro ⟨len, llen⟩ b₄ ⟨hquiet, hpending₄, hlen, -, hbuffer⟩
  have hlog₄ : serviced b₄.mem.log = serviced b.mem.log := by
    rw [hquiet.1.log, List.append_nil]
    exact hlog₂
  dsimp only at hlen ⊢
  by_cases hfits : (frame header body).length ≤ mqttMaxPacketSize
  · rw [if_pos hfits] at hlen
    have hfiltered : [frame header body].filter Fitting = [frame header body] := by
      simp [Fitting, hfits]
    have hpositive : 0 < len := by
      rw [hlen, frame]
      exact Nat.succ_pos _
    rw [if_pos hpositive, hfiltered]
    have hslice : Memory.slice b₄.mem.buffer 0 len = frame header body := by
      rw [hlen]
      exact hbuffer hfits
    have hservice := wp_service_pending llen len (UInt32.ofNat (b₁.clock + elapsed)) hpending₄
    rw [hslice, hlog₄] at hservice
    refine wp_seq hservice (fun _ h => Or.inr h) ?_
    rintro _ b₅ ⟨hpending₅, hlog₅⟩
    rw [wp_pure]
    exact Or.inr ⟨hlog₅, fun _ => hpending₅⟩
  · rw [if_neg hfits] at hlen
    have hfiltered : [frame header body].filter Fitting = [] := by
      simp [Fitting, hfits]
    have hzero : ¬0 < len := by omega
    rw [if_neg hzero, hfiltered, List.append_nil]
    refine wp_mono wp_connected_attends ?_ (fun _ h => Or.inl (h.trans hlog₄))
    rintro rc b₅ ⟨hlog₅, hrc, hgone⟩
    refine Or.inr ⟨hlog₅.trans hlog₄, fun hlive => ?_⟩
    cases rc with
    | true => exact (hrc rfl).pending _ hpending₄
    | false => exact absurd hlive (hgone rfl)

/-! ## Many calls -/

/-- A packet as a server sends it. -/
def IsPacket (packet : Bytes) : Prop := ∃ header body, packet = frame header body ∧ Inbound header body

/-- `n` calls of `loop`, whose results the sketches ignore. -/
def loops (n : ℕ) : Sketch (PubSubClient δ) Unit :=
  iterate (do
    let _ ← loop
    pure ()) n

/-- Of some packets the first ones were serviced, at most `n`. -/
def Served (b : Board (PubSubClient δ)) (packets : List Bytes) (n : ℕ)
    (b' : Board (PubSubClient δ)) : Prop :=
  ∃ k ≤ n, serviced b'.mem.log = serviced b.mem.log ++ (packets.take k).filter Fitting

theorem Served.mono {packets : List Bytes} {n m : ℕ} {b' : Board (PubSubClient δ)}
    (h : Served b packets n b') (hle : n ≤ m) : Served b packets m b' := by
  obtain ⟨k, hk, hlog⟩ := h
  exact ⟨k, hk.trans hle, hlog⟩

/-- Without a session nothing is serviced. -/
theorem wp_loop_gone (h : ¬Live b) :
    wp loop (fun _ b' => b'.mem.log = b.mem.log ∧ ¬Live b') (fun b' => b'.mem.log = b.mem.log) b := by
  have hsame : ∀ b' : Board (PubSubClient δ), (b'.mem.log ≠ b.mem.log → Live b) →
      b'.mem.log = b.mem.log := by
    intro b' hlog
    by_contra hne
    exact h (hlog hne)
  refine wp_mono wp_loop ?_ ?_
  · rintro _ b' ⟨hserves, hlog⟩
    exact ⟨hsame b' hlog, fun hlive => h (hserves.2.live hlive)⟩
  · rintro b' ⟨-, hlog⟩
    exact hsame b' hlog

/-- A session that lasts over `n` calls has serviced the first `n` packets, and the others are still
to be read. -/
theorem wp_loops {packets : List Bytes} (hpackets : ∀ packet ∈ packets, IsPacket packet)
    (h : Pending (packets.flatten ++ left) b) {n : ℕ} (hn : n ≤ packets.length) :
    wp (loops n) (fun _ b' => Served b packets n b' ∧ (Live b' →
        serviced b'.mem.log = serviced b.mem.log ++ (packets.take n).filter Fitting ∧
          Pending ((packets.drop n).flatten ++ left) b'))
      (Served b packets n) b := by
  induction n with
  | zero =>
      rw [loops, iterate, wp_pure]
      exact ⟨⟨0, le_rfl, by simp⟩, fun _ => ⟨by simp, by simpa using h⟩⟩
  | succ n ih =>
      rw [loops, iterate]
      refine wp_seq (ih (by omega)) (fun _ h => h.mono (Nat.le_succ n)) ?_
      rintro - b₁ ⟨hserved, hlive₁⟩
      have hcut : Served b packets (n + 1) b₁ := hserved.mono (Nat.le_succ n)
      by_cases hlive : Live b₁
      · obtain ⟨hlog₁, hpending₁⟩ := hlive₁ hlive
        have hdrop : packets.drop n = packets[n] :: packets.drop (n + 1) :=
          List.drop_eq_getElem_cons (by omega)
        have htake : packets.take (n + 1) = packets.take n ++ [packets[n]] :=
          (List.take_concat_get' packets n (by omega)).symm
        obtain ⟨header, body, hpacket, hinbound⟩ := hpackets packets[n] (List.getElem_mem _)
        rw [hdrop, List.flatten_cons, List.append_assoc, hpacket] at hpending₁
        have hfirst : serviced b.mem.log ++ (packets.take (n + 1)).filter Fitting =
            serviced b₁.mem.log ++ [frame header body].filter Fitting := by
          rw [hlog₁, htake, List.filter_append, List.append_assoc, hpacket]
        have hsame : ∀ b' : Board (PubSubClient δ), serviced b'.mem.log = serviced b₁.mem.log →
            Served b packets (n + 1) b' := by
          intro b' hlog
          exact ⟨n, Nat.le_succ n, hlog.trans hlog₁⟩
        have hmore : ∀ b' : Board (PubSubClient δ), serviced b'.mem.log =
            serviced b₁.mem.log ++ [frame header body].filter Fitting →
              Served b packets (n + 1) b' := by
          intro b' hlog
          exact ⟨n + 1, le_rfl, hlog.trans hfirst.symm⟩
        refine wp_seq (wp_loop_pending hinbound hpending₁) ?_ ?_
        · rintro b' (hlog | hlog)
          · exact hsame b' hlog
          · exact hmore b' hlog
        · intro _ b'
          rw [wp_pure]
          rintro (⟨hlog, hgone⟩ | ⟨hlog, hpending⟩)
          · exact ⟨hsame b' hlog, fun hlive => absurd hlive hgone⟩
          · exact ⟨hmore b' hlog, fun hlive => ⟨hlog.trans hfirst.symm, hpending hlive⟩⟩
      · have hsame : ∀ b' : Board (PubSubClient δ), b'.mem.log = b₁.mem.log →
            Served b packets (n + 1) b' := by
          intro b' hlog
          rw [Served, hlog]
          exact hcut
        refine wp_seq (wp_loop_gone hlive) hsame ?_
        rintro _ b' ⟨hlog, hgone⟩
        rw [wp_pure]
        exact ⟨hsame b' hlog, fun hlive => absurd hlive hgone⟩

/-- Whatever the link does during `n` calls, the packets that have arrived are serviced in their
order, none lost, repeated or cut in between; while the session lasts, each call takes one. -/
theorem services_in_order {packets : List Bytes} (hpackets : ∀ packet ∈ packets, IsPacket packet)
    (hinbox : b.mem.link.inbox = packets.flatten ++ left) {n : ℕ} (hn : n ≤ packets.length)
    (answers : List Answer) :
    Served b packets n ((loops n).run b answers).state ∧
      (((loops n).run b answers).result = some () → Live ((loops n).run b answers).state →
        serviced ((loops n).run b answers).state.mem.log =
            serviced b.mem.log ++ (packets.take n).filter Fitting ∧
          ∃ later, ((loops n).run b answers).state.mem.link.inbox =
            (packets.drop n).flatten ++ left ++ later) := by
  have hrun := wp_loops hpackets ⟨[], by rw [hinbox, List.append_nil]⟩ hn answers
  cases hresult : ((loops n).run b answers).result with
  | none =>
      rw [hresult] at hrun
      exact ⟨hrun, fun h => by cases h⟩
  | some _ =>
      rw [hresult] at hrun
      exact ⟨hrun.1, fun _ => hrun.2⟩

/-- A client that is connected, with two packets and the beginning of a third in its inbox. -/
def busy : Board (PubSubClient Unit) where
  clock := 0
  mem :=
    { link :=
        { up := true
          inbox := [Mqtt.publish false (cstr "inTopic") [0x31], [0xD0, 0]].flatten ++ [0x30, 0x09] }
      state := mqttConnected
      buffer := fun _ => 0
      dev := () }

theorem busy_in_order : serviced ((loops 2).run busy (calm 100)).state.mem.log =
    [Mqtt.publish false (cstr "inTopic") [0x31], [0xD0, 0]] := by
  have hpackets : ∀ packet ∈ [Mqtt.publish false (cstr "inTopic") [0x31], [0xD0, 0]],
      IsPacket packet := by
    rintro packet hmem
    rcases List.mem_pair.mp hmem with rfl | rfl
    · exact ⟨0x30, _, rfl, by decide, by decide⟩
    · exact ⟨0xD0, [], rfl, by decide, by decide⟩
  have hserved := services_in_order (b := busy) hpackets rfl (n := 2) le_rfl (calm 100)
  have hlive : Live ((loops 2).run busy (calm 100)).state :=
    ⟨by decide +kernel, by decide +kernel⟩
  rw [(hserved.2 (by decide +kernel) hlive).1]
  decide

end PubSubClient

end Arduino
