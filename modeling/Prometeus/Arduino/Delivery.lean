import Prometeus.Arduino.Framing
import Prometeus.Foundation.MqttMessage

/-! # Delivery

The messages that have arrived are handed to the callback in their order, each once, with their own
topic and payload; those of quality of service 1 are acknowledged with their own identifier.
-/

namespace Arduino

open Script Sketch Mqtt

namespace PubSubClient

variable {δ : Type} {b b' b₀ : Board (PubSubClient δ)} {left : Bytes}

/-! ## The fields of a message -/

/-- Where the fields of a message are once its topic has been moved. -/
structure FieldsAt (buf : Memory UInt8) (llen len : ℕ) (header : UInt8) (m : Message) : Prop where
  header : topicMoved buf llen 0 = header
  topicLength : topicLength buf llen = m.topic.length
  topic : Memory.slice (topicMoved buf llen) (llen + 2) m.topic.length = m.topic
  id : Memory.slice (topicMoved buf llen) (llen + 3 + m.topic.length) m.id.length = m.id
  payload : Memory.slice (topicMoved buf llen) (llen + 3 + m.topic.length + m.id.length)
    m.payload.length = m.payload
  length : len = llen + 3 + m.topic.length + m.id.length + m.payload.length

theorem length_encodeLength_pos (n : ℕ) : 0 < (encodeLength n).length := by
  rw [encodeLength, encodeLengthIn]
  split <;> simp

/-- Moving the topic overwrites its length and nothing behind it. -/
theorem topicMoved_of_le {buf : Memory UInt8} {llen i : ℕ} (hi : llen + 3 + topicLength buf llen ≤ i) :
    topicMoved buf llen i = buf i := by
  rw [topicMoved, Function.update_of_ne (by omega), Memory.move,
    Memory.place_of_le _ _ (by rw [Memory.length_slice]; omega)]

theorem topicMoved_of_lt {buf : Memory UInt8} {llen i : ℕ} (hi : i < llen + 2) :
    topicMoved buf llen i = buf i := by
  rw [topicMoved, Function.update_of_ne (by omega), Memory.move, Memory.place_of_lt _ _ hi]

theorem slice_topicMoved (buf : Memory UInt8) (llen : ℕ) :
    Memory.slice (topicMoved buf llen) (llen + 2) (topicLength buf llen) =
      Memory.slice buf (llen + 3) (topicLength buf llen) := by
  have hmoved := Memory.slice_place (Memory.slice buf (llen + 3) (topicLength buf llen)) (llen + 2) buf
  rw [Memory.length_slice] at hmoved
  conv_rhs => rw [← hmoved]
  apply Memory.slice_congr
  intro i _ hi
  rw [topicMoved, Function.update_of_ne (by omega), Memory.move]

theorem slice_topicMoved_behind {buf : Memory UInt8} {llen start n : ℕ}
    (hstart : llen + 3 + topicLength buf llen ≤ start) :
    Memory.slice (topicMoved buf llen) start n = Memory.slice buf start n := by
  apply Memory.slice_congr
  intro i hi _
  exact topicMoved_of_le (hstart.trans hi)

theorem fieldsAt_of_message {buf : Memory UInt8} {header : UInt8} {body : Bytes} {m : Message}
    (hbody : body.length < 128 ^ 4) (hm : message (frame header body) = some m)
    (hbuffer : Memory.slice buf 0 (frame header body).length = frame header body) :
    FieldsAt buf (encodeLength body.length).length (frame header body).length header m := by
  obtain ⟨-, hlayout, htopic, -⟩ := body_of_message hbody hm
  have hpositive := length_encodeLength_pos body.length
  generalize hllen : (encodeLength body.length).length = llen at hpositive
  have hframe : frame header body = (header :: encodeLength body.length) ++ body := rfl
  have hlength : (frame header body).length = llen + 1 + body.length := by
    rw [hframe, List.length_append, List.length_cons, hllen]
  -- the packet, field by field
  rw [hframe] at hbuffer
  obtain ⟨hfront, hback⟩ := Memory.slice_eq_append hbuffer
  rw [Nat.zero_add, List.length_cons, hllen, hlayout, text, List.append_assoc] at hback
  obtain ⟨hword, hback⟩ := Memory.slice_eq_append hback
  obtain ⟨htext, hback⟩ := Memory.slice_eq_append hback
  obtain ⟨hid, hpayload⟩ := Memory.slice_eq_append hback
  rw [length_word] at htext hid hpayload
  rw [List.length_cons, Memory.slice_cons, List.cons.injEq] at hfront
  have htl : topicLength buf llen = m.topic.length := by
    rw [length_word, Memory.slice_cons, Memory.slice_cons, word, List.cons.injEq, List.cons.injEq]
      at hword
    rw [topicLength, hword.1, hword.2.1, word_value htopic]
  have hnext : llen + 1 + 2 = llen + 3 := rfl
  rw [hnext] at htext hid hpayload
  constructor
  · rw [topicMoved_of_lt (by omega)]
    exact hfront.1
  · exact htl
  · have hmoved := slice_topicMoved buf llen
    rw [htl, htext] at hmoved
    exact hmoved
  · rw [slice_topicMoved_behind (by omega)]
    exact hid
  · rw [slice_topicMoved_behind (by omega)]
    exact hpayload
  · rw [hlength, hlayout]
    simp only [List.length_append, length_text]
    omega

/-! ## Device and server -/

/-- The acknowledgements written, among some events. -/
def acks (events : List (Event δ)) : List Bytes :=
  events.filterMap fun event => match event with
    | .wrote packet => if packet.head? = some 0x40 then some packet else none
    | _ => none

theorem acks_append (events more : List (Event δ)) : acks (events ++ more) = acks events ++ acks more :=
  List.filterMap_append

/-- The device has handled some messages, in their order, and the server has been told
`written`. -/
structure Hands (handler : δ → Message → δ) (messages : List Message) (written : List Bytes)
    (b b' : Board (PubSubClient δ)) : Prop where
  callback : b'.mem.callback = b.mem.callback
  dev : b'.mem.dev = messages.foldl handler b.mem.dev
  acks : acks b'.mem.log = acks b.mem.log ++ written

variable {handler : δ → Message → δ} {messages more : List Message} {written told : List Bytes}

theorem Hands.refl (handler : δ → Message → δ) (b : Board (PubSubClient δ)) :
    Hands handler [] [] b b :=
  ⟨rfl, rfl, (List.append_nil _).symm⟩

theorem Hands.trans {b'' : Board (PubSubClient δ)} (h : Hands handler messages written b b')
    (h' : Hands handler more told b' b'') :
    Hands handler (messages ++ more) (written ++ told) b b'' := by
  refine ⟨h'.callback.trans h.callback, ?_, ?_⟩
  · rw [h'.dev, h.dev, List.foldl_append]
  · rw [h'.acks, h.acks, List.append_assoc]

theorem Hands.after {b'' : Board (PubSubClient δ)} (h : Hands handler [] [] b b')
    (h' : Hands handler messages written b' b'') : Hands handler messages written b b'' :=
  h.trans h'

/-- Events that neither call the device nor acknowledge anything. -/
theorem Ran.hands (handler : δ → Message → δ) {events : List (Event δ)} (h : Ran events b b')
    (hacks : acks events = []) (hdev : devAfter b.mem.dev events = b.mem.dev) : Hands handler [] [] b b' := by
  refine ⟨h.callback, ?_, ?_⟩
  · rw [h.dev, hdev]
    rfl
  · rw [h.log, acks_append, hacks]

theorem Quiet.hands (handler : δ → Message → δ) (h : Quiet b b') : Hands handler [] [] b b' :=
  h.1.hands handler rfl rfl

/-- What a client writes of its own accord is no acknowledgement. -/
theorem wp_linkWrite_hands (handler : δ → Message → δ) {packet : Bytes} (hne : packet ≠ [])
    (hack : packet.head? ≠ some 0x40) :
    wp (linkWrite packet) (fun _ => Hands handler [] [] b) (Hands handler [] [] b) b := by
  apply wp_mono (wp_linkWrite hne) _ fun _ h => h.hands handler
  rintro written b₁ ⟨-, hwritten⟩
  split at hwritten
  · exact hwritten.hands handler (by simp [acks, hack]) rfl
  · exact hwritten.1.hands handler rfl rfl

/-- An acknowledgement is written, or the connection is gone. -/
theorem wp_linkWrite_pubAck (handler : δ → Message → δ) (id : Bytes) :
    wp (linkWrite (pubAck id)) (fun _ b' => ∃ written, written <+: [pubAck id] ∧
        Hands handler [] written b b' ∧ (Live b' → written = [pubAck id]))
      (Hands handler [] [] b) b := by
  apply wp_mono (wp_linkWrite (List.cons_ne_nil _ _)) _ fun _ h => h.hands handler
  rintro written b₁ ⟨-, hwritten⟩
  split at hwritten
  · refine ⟨[pubAck id], List.prefix_rfl, ⟨hwritten.callback, hwritten.dev, ?_⟩, fun _ => rfl⟩
    rw [hwritten.log, acks_append]
    rfl
  · refine ⟨[], List.nil_prefix, hwritten.1.hands handler rfl rfl, fun hlive => ?_⟩
    rw [hlive.1] at hwritten
    cases hwritten.2

theorem wp_keepAlive_hands (handler : δ → Message → δ) (t : UInt32) :
    wp (keepAlive t) (fun _ => Hands handler [] [] b) (Hands handler [] [] b) b := by
  rw [keepAlive, wp_load_bind, wp_ite]
  refine ⟨fun _ => ?_, fun _ => wp_pure.mpr (Hands.refl handler b)⟩
  rw [wp_ite]
  refine ⟨fun _ => ?_, fun _ => ?_⟩
  · rw [setState, stop, wp_modify_bind, wp_modify_bind, wp_pure]
    exact ⟨rfl, rfl, (List.append_nil _).symm⟩
  · rw [onBuffer, wp_modify_bind]
    have hplaced := (quiet_onBuffer (b := b) (Memory.place [0xC0, 0] 0)).hands handler
    refine wp_seq (wp_linkWrite_hands handler (by decide) (by decide)) (fun _ h => hplaced.after h) ?_
    intro _ b₁ hwritten
    rw [wp_modify_bind, wp_pure]
    exact hplaced.after ⟨hwritten.callback, hwritten.dev, hwritten.acks⟩

/-! ## One message -/

/-- The callback does to the device what the handler does, for this message. -/
def Handles (callback : Callback δ) (handler : δ → Message → δ) (m : Message) : Prop :=
  ∀ view dev, Memory.slice view 0 m.payload.length = m.payload →
    (callback m.topic m.payload.length ⟨view, [], dev⟩).2.dev = handler dev m

/-- The device has handled the messages; of the acknowledgements that the server is owed it has been
given the first. -/
def Partly (handler : δ → Message → δ) (messages : List Message) (b b' : Board (PubSubClient δ)) :
    Prop :=
  ∃ written, written <+: messages.flatMap Message.owed ∧ Hands handler messages written b b'

theorem Hands.partly (h : Hands handler messages (messages.flatMap Message.owed) b b') :
    Partly handler messages b b' := ⟨_, List.prefix_rfl, h⟩

theorem wp_callBack_hands {callback : Callback δ} {packet : Bytes} {m : Message} {start : ℕ}
    (hhandles : Handles callback handler m)
    (hpayload : Memory.slice b.mem.buffer start m.payload.length = m.payload)
    {Q : Unit → Board (PubSubClient δ) → Prop} {C : Board (PubSubClient δ) → Prop}
    (hnext : ∀ b', Hands handler [m] [] b b' → b'.mem.buffer = b.mem.buffer → Q () b') :
    wp (callBack callback packet m.topic start m.payload.length) Q C b := by
  rw [callBack, wp_modify]
  apply hnext
  · refine ⟨rfl, ?_, ?_⟩
    · apply hhandles
      conv_rhs => rw [← hpayload]
      simp [Memory.slice]
    · dsimp only
      rw [acks_append]
      rfl
  · rfl

theorem wp_deliver_hands {callback : Callback δ} {llen len : ℕ} {header : UInt8} {m : Message}
    (hfields : FieldsAt b.mem.buffer llen len header m) (hlen : len ≤ mqttMaxPacketSize)
    (hid : m.id.length = if header &&& 0x06 = 0x02 then 2 else 0)
    (hhandles : Handles callback handler m) (t : UInt32) :
    wp (deliver callback llen len t)
      (fun _ b' => Partly handler [m] b b' ∧ (Live b' → Hands handler [m] m.owed b b'))
      (Partly handler [m] b) b := by
  have howed : [m].flatMap Message.owed = m.owed := by simp
  have hcount : ∀ start, start + m.payload.length = len →
      (UInt32.ofNat len - UInt32.ofNat start).toNat = m.payload.length := by
    intro start hstart
    rw [mqttMaxPacketSize] at hlen
    rw [toNat_millis_sub_of_lt (by omega) (by omega)]
    omega
  have hmoved := (quiet_onBuffer (b := b) fun buf => topicMoved buf llen).hands handler
  rw [deliver, wp_load_bind]
  dsimp only
  rw [onBuffer, wp_modify_bind, wp_load_bind]
  dsimp only
  rw [hfields.topicLength, hfields.topic, wp_ite]
  have hlength := hfields.length
  refine ⟨fun hone => ?_, fun hzero => ?_⟩
  · rw [hfields.header] at hone
    rw [if_pos hone] at hid
    have hmsgId := hfields.id
    have hpayload := hfields.payload
    rw [hid] at hmsgId hpayload hlength
    have howes : m.owed = [pubAck m.id] := by
      rw [Message.owed, if_neg]
      intro hnil
      rw [hnil] at hid
      cases hid
    rw [hmsgId, hcount _ hlength.symm]
    refine wp_seq (wp_callBack_hands (C := Partly handler [m] b) hhandles hpayload
      (Q := fun _ => Hands handler [m] [] b) ?_) (fun _ h => h) ?_
    · exact fun b₁ hcalled _ => hmoved.after hcalled
    intro _ b₁ hcalled
    rw [onBuffer, wp_modify_bind]
    have hplaced : Hands handler [m] [] b ⟨b₁.clock, { b₁.mem with
        buffer := Memory.place (0x40 :: 2 :: m.id) 0 b₁.mem.buffer }⟩ :=
      ⟨hcalled.callback, hcalled.dev, hcalled.acks⟩
    refine wp_seq (wp_linkWrite_pubAck handler m.id) ?_ ?_
    · exact fun b₂ h => ⟨[], List.nil_prefix, hplaced.trans h⟩
    · rintro _ b₂ ⟨written, hprefix, hacked, hlive⟩
      rw [wp_modify]
      have hall : Hands handler [m] written b b₂ := hplaced.trans hacked
      refine ⟨⟨written, ?_, ⟨hall.callback, hall.dev, hall.acks⟩⟩, fun h => ?_⟩
      · rwa [howed, howes]
      · rw [howes, ← hlive h]
        exact ⟨hall.callback, hall.dev, hall.acks⟩
  · rw [hfields.header] at hzero
    rw [if_neg hzero] at hid
    have hpayload := hfields.payload
    rw [hid, Nat.add_zero] at hpayload hlength
    have howes : m.owed = [] := by
      rw [Message.owed, if_pos (List.length_eq_zero_iff.mp hid)]
    rw [hcount _ hlength.symm]
    apply wp_callBack_hands hhandles hpayload
    intro b₁ hcalled _
    have hall := hmoved.after hcalled
    refine ⟨⟨[], List.nil_prefix, hall⟩, fun _ => ?_⟩
    rwa [howes]

/-- A packet that the server may send to this client: a PUBLISH is one of quality of service 0 or 1. -/
structure Deliverable (callback : Callback δ) (handler : δ → Message → δ) (header : UInt8)
    (body : Bytes) : Prop where
  inbound : Inbound header body
  message : packetType header = publishType →
    ∃ m, message (frame header body) = some m ∧ Handles callback handler m

/-- The messages that a client gets out of a packet; one that does not fit is ignored. -/
def received (packet : Bytes) : List Message := if Fitting packet then (message packet).toList else []

/-- The messages have been handled and, in a session that lasts, acknowledged. -/
def Settles (handler : δ → Message → δ) (messages : List Message) (b b' : Board (PubSubClient δ)) :
    Prop :=
  Partly handler messages b b' ∧
    (Live b' → Hands handler messages (messages.flatMap Message.owed) b b')

theorem Hands.settles (h : Hands handler messages (messages.flatMap Message.owed) b b') :
    Settles handler messages b b' := ⟨h.partly, fun _ => h⟩

theorem Partly.after (h : Hands handler [] [] b b₀) (h' : Partly handler messages b₀ b') :
    Partly handler messages b b' := by
  obtain ⟨written, hprefix, hhands⟩ := h'
  exact ⟨written, hprefix, h.after hhands⟩

theorem Settles.after (h : Hands handler [] [] b b₀) (h' : Settles handler messages b₀ b') :
    Settles handler messages b b' :=
  ⟨h'.1.after h, fun hlive => h.after (h'.2 hlive)⟩

variable {callback : Callback δ} {header : UInt8} {body : Bytes}

theorem wp_dispatch_hands (hcallback : b.mem.callback = some callback)
    (hpacket : Deliverable callback handler header body)
    (hfits : (frame header body).length ≤ mqttMaxPacketSize)
    (hbuffer : Memory.slice b.mem.buffer 0 (frame header body).length = frame header body)
    (t : UInt32) :
    wp (dispatch (encodeLength body.length).length (frame header body).length t)
      (fun _ => Settles handler (message (frame header body)).toList b)
      (Partly handler (message (frame header body)).toList b) b := by
  have hheader : b.mem.buffer 0 = header := by
    have hcons := hbuffer
    rw [frame, List.length_cons, Memory.slice_cons, List.cons.injEq] at hcons
    exact hcons.1
  rw [dispatch, wp_load_bind]
  dsimp only
  rw [wp_ite]
  refine ⟨fun htype => ?_, fun htype => ?_⟩
  · rw [hheader] at htype
    obtain ⟨m, hm, hhandles⟩ := hpacket.message htype
    obtain ⟨-, -, -, hid⟩ := body_of_message hpacket.inbound.length hm
    have hfields := fieldsAt_of_message hpacket.inbound.length hm hbuffer
    have hone : (some m).toList.flatMap Message.owed = m.owed := by simp
    rw [hcallback, hm]
    dsimp only
    apply wp_mono (wp_deliver_hands hfields hfits hid hhandles t) _ fun _ h => h
    rintro _ b₁ ⟨hpartly, hlive⟩
    refine ⟨hpartly, fun h => ?_⟩
    rw [hone]
    exact hlive h
  · rw [hheader] at htype
    rw [message_eq_none hpacket.inbound.length htype, Option.toList_none]
    rw [wp_ite]
    refine ⟨fun _ => ?_, fun _ => ?_⟩
    · rw [onBuffer, wp_modify_bind]
      have hplaced := (quiet_onBuffer (b := b) (Memory.place [0xD0, 0] 0)).hands handler
      refine wp_seq (wp_linkWrite_hands handler (by decide) (by decide)) ?_ ?_
      · exact fun _ h => (hplaced.after h).partly
      · intro _ b₁ hwritten
        rw [wp_pure]
        exact (hplaced.after hwritten).settles
    rw [wp_ite]
    refine ⟨fun _ => ?_, fun _ => wp_pure.mpr (Hands.refl handler b).settles⟩
    rw [wp_modify]
    exact Hands.settles ⟨rfl, rfl, (List.append_nil _).symm⟩

theorem wp_service_hands (hcallback : b.mem.callback = some callback)
    (hpacket : Deliverable callback handler header body)
    (hfits : (frame header body).length ≤ mqttMaxPacketSize)
    (hbuffer : Memory.slice b.mem.buffer 0 (frame header body).length = frame header body)
    (t : UInt32) :
    wp (service (encodeLength body.length).length (frame header body).length t)
      (fun _ => Settles handler (message (frame header body)).toList b)
      (Partly handler (message (frame header body)).toList b) b := by
  rw [service, wp_modify_bind]
  have hlogged : Hands handler [] [] b ⟨b.clock, { b.mem with
      lastInActivity := t
      log := b.mem.log ++
        [.serviced (Memory.slice b.mem.buffer 0 (frame header body).length)] }⟩ := by
    refine ⟨rfl, rfl, ?_⟩
    dsimp only
    rw [acks_append]
    rfl
  refine wp_mono (wp_dispatch_hands ?_ hpacket hfits ?_ t) ?_ ?_
  · exact hcallback
  · exact hbuffer
  · exact fun _ b₁ h => h.after hlogged
  · exact fun b₁ h => h.after hlogged

/-- A call of `loop` that finds a whole packet hands its message on, unless it finds the session
gone. -/
theorem wp_loop_hands (hcallback : b.mem.callback = some callback)
    (hpacket : Deliverable callback handler header body)
    (h : Pending (frame header body ++ left) b) :
    wp loop (fun _ b' => (Hands handler [] [] b b' ∧ ¬Live b') ∨
        Settles handler (received (frame header body)) b b')
      (fun b' => Hands handler [] [] b b' ∨ Partly handler (received (frame header body)) b b') b := by
  rw [loop]
  refine wp_seq (wp_and wp_connected wp_connected_attends) (fun _ h => Or.inl (h.1.hands handler)) ?_
  rintro rc b₁ ⟨⟨hquiet₁, -⟩, -, hrc, hgone⟩
  have hhands₁ := hquiet₁.hands handler
  rw [wp_ite]
  refine ⟨fun hup => ?_, fun hdown => ?_⟩
  swap
  · rw [wp_pure]
    exact Or.inl ⟨hhands₁, hgone (Bool.not_eq_true _ ▸ hdown)⟩
  have hpending₁ := (hrc hup).pending _ h
  rw [wp_millis_bind]
  refine ⟨Or.inl hhands₁, fun elapsed => ?_⟩
  have hstart := hhands₁.after ((quiet_millis (b := b₁) elapsed).hands handler)
  refine wp_seq (wp_and (wp_keepAlive_hands handler _) (wp_keepAlive_attends _))
    (fun _ h => Or.inl (hstart.after h.1)) ?_
  rintro ok b₂ ⟨hkept, -, hok, hgone⟩
  have hhands₂ := hstart.after hkept
  rw [wp_ite]
  refine ⟨fun hgoes => ?_, fun hstops => ?_⟩
  swap
  · rw [wp_pure]
    exact Or.inl ⟨hhands₂, hgone (Bool.not_eq_true _ ▸ hstops)⟩
  have hpending₂ := (hok hgoes).pending _ hpending₁
  rw [wp_available_bind]
  refine ⟨Or.inl hhands₂, fun answer => ?_⟩
  have hpending₃ := hpending₂.after answer
  have hhands₃ := hhands₂.after ((quiet_after (b := b₂) answer).hands handler)
  have harrived : 0 < (b₂.mem.link.after answer).inbox.length := by
    obtain ⟨later, hinbox⟩ := hpending₃
    dsimp only at hinbox
    rw [hinbox, frame]
    exact Nat.succ_pos _
  rw [if_pos harrived]
  refine wp_seq (wp_readPacket_pending hpacket.inbound hpending₃)
    (fun b' h => Or.inl (hhands₃.after (h.hands handler))) ?_
  rintro ⟨len, llen⟩ b₄ ⟨hquiet, -, hlen, hllen, hbuffer⟩
  have hhands₄ := hhands₃.after (hquiet.hands handler)
  dsimp only at hlen hllen ⊢
  by_cases hfits : (frame header body).length ≤ mqttMaxPacketSize
  · rw [if_pos hfits] at hlen
    have hreceived : received (frame header body) = (message (frame header body)).toList := by
      rw [received, if_pos (by simpa [Fitting] using hfits)]
    have hpositive : 0 < len := by
      rw [hlen, frame]
      exact Nat.succ_pos _
    rw [if_pos hpositive, hreceived, hlen, hllen]
    have hservice := wp_service_hands (hhands₄.callback.trans hcallback) hpacket hfits (hbuffer hfits)
      (UInt32.ofNat (b₁.clock + elapsed))
    refine wp_seq hservice (fun _ h => Or.inr (h.after hhands₄)) ?_
    intro _ b₅ hsettles
    rw [wp_pure]
    exact Or.inr (hsettles.after hhands₄)
  · rw [if_neg hfits] at hlen
    have hreceived : received (frame header body) = [] := by
      rw [received, if_neg (by simpa [Fitting] using hfits)]
    rw [if_neg (by omega), hreceived]
    apply wp_mono wp_connected
    · exact fun _ b₅ h => Or.inr (hhands₄.after (h.1.hands handler)).settles
    · exact fun b₅ h => Or.inl (hhands₄.after (h.hands handler))

/-! ## Many messages -/

/-- A call of `loop` without a session does nothing. -/
theorem wp_loop_gone_hands (h : ¬Live b) :
    wp loop (fun _ b' => Hands handler [] [] b b' ∧ ¬Live b') (Hands handler [] [] b) b := by
  have hsame : ∀ b', Serves b b' → b'.mem.log = b.mem.log → Hands handler [] [] b b' := by
    rintro b' ⟨⟨events, hran, -⟩, -⟩ hlog
    have hnone : events = [] := by
      have happend := hran.log
      rwa [hlog, List.self_eq_append_right] at happend
    rw [hnone] at hran
    exact hran.hands handler rfl rfl
  apply wp_mono (wp_and wp_loop (wp_loop_gone h))
  · exact fun _ b' hb => ⟨hsame b' hb.1.1 hb.2.1, hb.2.2⟩
  · exact fun b' hb => hsame b' hb.1.1 hb.2

/-- Packets that the server may send to this client. -/
def Conveys (callback : Callback δ) (handler : δ → Message → δ) (packets : List Bytes) : Prop :=
  ∀ packet ∈ packets, ∃ header body, packet = frame header body ∧
    Deliverable callback handler header body

/-- The messages of the first packets, at most `n`, have been handled. -/
def Progress (handler : δ → Message → δ) (packets : List Bytes) (n : ℕ)
    (b b' : Board (PubSubClient δ)) : Prop :=
  ∃ k ≤ n, Partly handler ((packets.take k).flatMap received) b b'

theorem Progress.later {packets : List Bytes} {n : ℕ} {b'' : Board (PubSubClient δ)}
    (h : Progress handler packets n b b') (h' : Hands handler [] [] b' b'') :
    Progress handler packets (n + 1) b b'' := by
  obtain ⟨k, hk, written, hprefix, hhands⟩ := h
  have hall := hhands.trans h'
  rw [List.append_nil, List.append_nil] at hall
  exact ⟨k, hk.trans (Nat.le_succ n), written, hprefix, hall⟩

theorem wp_loops_hands {packets : List Bytes} (hcallback : b.mem.callback = some callback)
    (hpackets : Conveys callback handler packets) (h : Pending (packets.flatten ++ left) b) {n : ℕ}
    (hn : n ≤ packets.length) :
    wp (loops n) (fun _ b' => Progress handler packets n b b' ∧ (Live b' →
        Hands handler ((packets.take n).flatMap received)
            (((packets.take n).flatMap received).flatMap Message.owed) b b' ∧
          Pending ((packets.drop n).flatten ++ left) b'))
      (Progress handler packets n b) b := by
  induction n with
  | zero =>
      rw [loops, iterate, wp_pure]
      have hstart := Hands.refl handler b
      exact ⟨⟨0, le_rfl, hstart.partly⟩, fun _ => ⟨hstart, by simpa using h⟩⟩
  | succ n ih =>
      rw [loops, iterate]
      refine wp_seq (ih (by omega)) (fun b₁ h => h.later (Hands.refl handler b₁)) ?_
      rintro - b₁ ⟨hprogress, hlive₁⟩
      by_cases hlive : Live b₁
      · obtain ⟨hhands₁, hpending₁⟩ := hlive₁ hlive
        have hdrop : packets.drop n = packets[n] :: packets.drop (n + 1) :=
          List.drop_eq_getElem_cons (by omega)
        have htake : packets.take (n + 1) = packets.take n ++ [packets[n]] :=
          (List.take_concat_get' packets n (by omega)).symm
        obtain ⟨header, body, hpacket, hdeliverable⟩ := hpackets packets[n] (List.getElem_mem _)
        rw [hdrop, List.flatten_cons, List.append_assoc, hpacket] at hpending₁
        have hmessages : (packets.take (n + 1)).flatMap received =
            (packets.take n).flatMap received ++ received (frame header body) := by
          rw [htake, List.flatMap_append, hpacket, List.flatMap_singleton]
        have hmore : ∀ b', Partly handler (received (frame header body)) b₁ b' →
            Progress handler packets (n + 1) b b' := by
          rintro b' ⟨written, hprefix, hhands⟩
          refine ⟨n + 1, le_rfl, _, ?_, hmessages ▸ hhands₁.trans hhands⟩
          rw [hmessages, List.flatMap_append]
          exact (List.prefix_append_right_inj _).mpr hprefix
        have hloop := wp_and
          (wp_loop_hands (hhands₁.callback.trans hcallback) hdeliverable hpending₁)
          (wp_loop_pending hdeliverable.inbound hpending₁)
        refine wp_seq hloop ?_ ?_
        · rintro b' ⟨hspared | hpartly, -⟩
          · exact hprogress.later hspared
          · exact hmore b' hpartly
        · rintro _ b' ⟨hoffered, hserviced⟩
          rw [wp_pure]
          rcases hoffered with ⟨hspared, hgone⟩ | hsettles
          · exact ⟨hprogress.later hspared, fun hlive => absurd hlive hgone⟩
          · refine ⟨hmore b' hsettles.1, fun hlive => ⟨?_, ?_⟩⟩
            · rw [hmessages, List.flatMap_append]
              exact hhands₁.trans (hsettles.2 hlive)
            · rcases hserviced with ⟨-, hgone⟩ | ⟨-, hpending⟩
              · exact absurd hlive hgone
              · exact hpending hlive
      · refine wp_seq (wp_loop_gone_hands hlive) (fun b' h => hprogress.later h) ?_
        rintro _ b' ⟨hspared, hgone⟩
        rw [wp_pure]
        exact ⟨hprogress.later hspared, fun hlive => absurd hlive hgone⟩

/-- A callback that keeps the topic and the first byte of what it is called for. -/
def note : Callback (List (Bytes × UInt8)) := fun topic _ => do
  let first ← Handed.byte 0
  modify fun h => { h with dev := h.dev ++ [(topic, first)] }

theorem handles_note {m : Message} (hpayload : m.payload ≠ []) :
    Handles note (fun dev m => dev ++ [(m.topic, m.payload.headD 0)]) m := by
  intro view dev hview
  cases hm : m.payload with
  | nil => exact absurd hm hpayload
  | cons first rest =>
      rw [hm, List.length_cons, Memory.slice_cons, List.cons.injEq] at hview
      change dev ++ [(m.topic, view 0)] = dev ++ [(m.topic, m.payload.headD 0)]
      rw [hview.1, hm, List.headD_cons]

def notedPackets : List Bytes :=
  [frame 0x32 (text (cstr "inTopic") ++ ([0, 7] ++ [0x31])), [0xD0, 0],
    Mqtt.publish false (cstr "otro") [0x32, 0x33]]

/-- A connected client whose inbox holds a message of each quality of service around a ping answer. -/
def noting : Board (PubSubClient (List (Bytes × UInt8))) where
  clock := 0
  mem :=
    { link := { up := true, inbox := notedPackets.flatten }
      state := mqttConnected
      buffer := fun _ => 0
      callback := some note
      dev := [] }

end PubSubClient

end Arduino
