import Prometeus.Arduino.PubSubClientLaws
import Prometeus.Arduino.Usage
import Prometeus.Foundation.Machine

/-! # The order of packets

On every connection the client first writes a CONNECT, and no second one; whatever it writes is a
whole control packet, and it services packets and goes on with its sketch only after the CONNECT.
The order is a machine over the events of the log.
-/

namespace Arduino

open Script Sketch Mqtt

namespace PubSubClient

variable {δ : Type} {b b' b'' : Board (PubSubClient δ)}

/-- How far a connection has come. -/
inductive Phase
  | closed
  | opened
  | established
deriving DecidableEq, Repr

/-- One event. -/
def Phase.next : Phase → Event δ → Option Phase
  | _, .opened => some .opened
  | .opened, .wrote packet =>
      if isConnect packet ∧ (unframe packet).isSome then some .established else none
  | .established, .wrote packet =>
      if ¬isConnect packet ∧ (unframe packet).isSome then some .established else none
  | .established, _ => some .established
  | _, _ => none

/-- What a server can expect of a client. -/
def order : Machine Phase (Event δ) where
  start := .closed
  step := Phase.next

def Conforms (log : List (Event δ)) : Prop := order.run log ≠ none

/-- The connection carries a session, and while it is up the client knows. -/
structure Settled (b : Board (PubSubClient δ)) : Prop where
  phase : order.run b.mem.log = some .established
  state : b.mem.link.up = true → b.mem.state = mqttConnected

/-- There is no connection. -/
structure Idle (b : Board (PubSubClient δ)) : Prop where
  conforms : Conforms b.mem.log
  down : b.mem.link.up = false

/-- Between the operations of a sketch. -/
def Orderly (b : Board (PubSubClient δ)) : Prop := Settled b ∨ Idle b

theorem Settled.conforms (h : Settled b) : Conforms b.mem.log := by
  rw [Conforms, h.phase]
  exact Option.some_ne_none _

theorem Orderly.conforms (h : Orderly b) : Conforms b.mem.log :=
  h.elim Settled.conforms Idle.conforms

/-- Nothing was logged, and the state is the same as long as the connection lasts. -/
structure Steady (b b' : Board (PubSubClient δ)) : Prop where
  log : b'.mem.log = b.mem.log
  up : b'.mem.link.up = true → b.mem.link.up = true ∧ b'.mem.state = b.mem.state

theorem Steady.refl (b : Board (PubSubClient δ)) : Steady b b := ⟨rfl, fun h => ⟨h, rfl⟩⟩

theorem Steady.trans (h : Steady b b') (h' : Steady b' b'') : Steady b b'' := by
  refine ⟨h'.log.trans h.log, fun hup => ?_⟩
  obtain ⟨hup', hstate'⟩ := h'.up hup
  obtain ⟨hup, hstate⟩ := h.up hup'
  exact ⟨hup, hstate'.trans hstate⟩

theorem Settled.steady (h : Settled b) (hsteady : Steady b b') : Settled b' := by
  refine ⟨hsteady.log ▸ h.phase, fun hup => ?_⟩
  obtain ⟨hup, hstate⟩ := hsteady.up hup
  exact hstate.trans (h.state hup)

theorem Idle.steady (h : Idle b) (hsteady : Steady b b') : Idle b' := by
  refine ⟨hsteady.log ▸ h.conforms, ?_⟩
  cases hup : b'.mem.link.up with
  | false => rfl
  | true => rw [← h.down, (hsteady.up hup).1]

theorem Orderly.steady (h : Orderly b) (hsteady : Steady b b') : Orderly b' :=
  h.imp (·.steady hsteady) (·.steady hsteady)

theorem steady_after (answer : Answer) :
    Steady b ⟨b.clock + answer.elapsed, { b.mem with link := b.mem.link.after answer }⟩ := by
  refine ⟨rfl, fun hup => ⟨?_, rfl⟩⟩
  simp only [after_up, Bool.and_eq_true] at hup
  exact hup.1

/-- Time passes. -/
theorem steady_clock (clock : ℕ) : Steady b ⟨clock, b.mem⟩ := ⟨rfl, fun h => ⟨h, rfl⟩⟩

theorem steady_onBuffer (f : Memory UInt8 → Memory UInt8) :
    Steady b ⟨b.clock, { b.mem with buffer := f b.mem.buffer }⟩ :=
  ⟨rfl, fun h => ⟨h, rfl⟩⟩

/-! ## Writing -/

/-- A packet that may be written in a session. -/
structure Control (packet : Bytes) : Prop where
  connect : isConnect packet = false
  whole : (unframe packet).isSome = true

theorem Control.frame {header : UInt8} {body : Bytes} (hheader : packetType header ≠ connectType)
    (hbody : body.length < 128 ^ 4) : Control (frame header body) := by
  refine ⟨?_, ?_⟩
  · simpa [Mqtt.frame, isConnect] using hheader
  · rw [unframe_frame header hbody]
    rfl

theorem Settled.log (h : Settled b) {event : Event δ} {c : PubSubClient δ} {clock : ℕ}
    (hevent : Phase.established.next event = some .established)
    (hlog : c.log = b.mem.log ++ [event])
    (hstate : c.link.up = true → c.state = mqttConnected) : Settled ⟨clock, c⟩ := by
  refine ⟨?_, hstate⟩
  dsimp only
  rw [hlog, Machine.run_snoc, h.phase]
  exact hevent

theorem wp_linkWrite_settled (h : Settled b) {packet : Bytes} (hpacket : Control packet) :
    wp (linkWrite packet) (fun _ => Settled) Settled b := by
  rw [linkWrite, wp_onLink_bind]
  refine ⟨h, fun answer => ?_⟩
  have hafter := h.steady (steady_after answer)
  rw [wp_load_bind, wp_ite]
  refine ⟨fun _ => ?_, fun _ => ?_⟩
  · rw [wp_modify_bind, wp_pure]
    refine hafter.log ?_ rfl hafter.state
    simp [Phase.next, hpacket.connect, hpacket.whole]
  · rw [wp_modify_bind, wp_pure]
    exact ⟨hafter.phase, fun hup => absurd hup Bool.false_ne_true⟩

/-- The packet that `write` sends. -/
theorem slice_write (header : UInt8) {length : ℕ} (hlength : length < 128 ^ 3) (buf : Memory UInt8) :
    Memory.slice (buildHeader header length buf)
      (mqttMaxHeaderSize - ((lengthDigits 3 length).length + 1))
      (length + ((lengthDigits 3 length).length + 1)) =
      frame header (Memory.slice buf mqttMaxHeaderSize length) := by
  rw [slice_buildHeader, lengthDigits_eq_encodeLength hlength, frame, Memory.length_slice]

theorem wp_write_settled (h : Settled b) {header : UInt8} {length : ℕ}
    (hheader : packetType header ≠ connectType) (hlength : length < 128 ^ 3) :
    wp (write header length) (fun _ => Settled) Settled b := by
  rw [write, onBuffer, wp_modify_bind, wp_load_bind]
  dsimp only
  rw [slice_write header hlength]
  have hbuilt := h.steady (steady_onBuffer (buildHeader header length))
  have hcontrol : Control (frame header (Memory.slice b.mem.buffer mqttMaxHeaderSize length)) :=
    Control.frame hheader (by rw [Memory.length_slice]; omega)
  refine wp_seq (wp_linkWrite_settled hbuilt hcontrol) (fun _ h => h) ?_
  intro written b₁ hsettled
  rw [wp_millis_bind]
  refine ⟨hsettled, fun elapsed => ?_⟩
  rw [wp_modify_bind, wp_pure]
  exact ⟨hsettled.phase, hsettled.state⟩

/-- `connected` tells a session from none. -/
theorem wp_connected_orderly (h : Orderly b) :
    wp connected (fun rc b' => if rc then Settled b' else Idle b') Orderly b := by
  rw [connected, wp_linkConnected_bind]
  refine ⟨h, fun answer => ?_⟩
  have hafter := h.steady (steady_after answer)
  rw [wp_load_bind, wp_ite]
  refine ⟨fun hup => ?_, fun hdown => ?_⟩
  · rw [wp_pure]
    rcases hafter with hsettled | hidle
    · have hstate := hsettled.state hup
      dsimp only at hstate
      rw [hstate, if_pos (beq_self_eq_true _)]
      exact hsettled
    · exact absurd (hup.symm.trans hidle.down) (by decide)
  · rw [Bool.not_eq_true] at hdown
    rw [wp_ite]
    refine ⟨fun _ => ?_, fun _ => ?_⟩
    · rw [setState, stop, wp_modify_bind, wp_modify_bind, wp_pure]
      exact ⟨hafter.conforms, rfl⟩
    · rw [wp_pure]
      exact ⟨hafter.conforms, hdown⟩

theorem wp_publishBytes_orderly (h : Orderly b) (topic payload : Bytes) (retained : Bool) :
    wp (publishBytes topic payload retained) (fun _ => Orderly) Orderly b := by
  rw [publishBytes]
  refine wp_seq (wp_connected_orderly h) (fun _ h => h) ?_
  intro rc b₁ hrc
  cases rc with
  | false => exact wp_pure.mpr (Or.inr hrc)
  | true =>
      rw [if_pos rfl] at hrc ⊢
      rw [wp_ite]
      refine ⟨fun _ => wp_pure.mpr (Or.inl hrc), fun hfits => ?_⟩
      rw [Bool.not_eq_true, tooLong_eq_false_iff, mqttMaxPacketSize] at hfits
      rw [onBuffer, onBuffer, wp_modify_bind, wp_modify_bind]
      have hplaced := hrc.steady (steady_onBuffer fun buf =>
        Memory.place payload (mqttMaxHeaderSize + 2 + topic.length)
          (writeString topic mqttMaxHeaderSize buf))
      have htype : packetType (if retained then 0x31 else 0x30) ≠ connectType := by
        cases retained <;> decide
      exact wp_mono (wp_write_settled hplaced htype (by omega)) (fun _ _ h => Or.inl h)
        (fun _ h => Or.inl h)

theorem wp_subscribe_orderly (h : Orderly b) (topic : Bytes) (qos : UInt8) :
    wp (subscribe topic qos) (fun _ => Orderly) Orderly b := by
  rw [subscribe, wp_ite]
  refine ⟨fun _ => wp_pure.mpr h, fun _ => ?_⟩
  rw [wp_ite]
  refine ⟨fun _ => wp_pure.mpr h, fun hlength => ?_⟩
  rw [mqttMaxPacketSize] at hlength
  refine wp_seq (wp_connected_orderly h) (fun _ h => h) ?_
  intro rc b₁ hrc
  cases rc with
  | false => exact wp_pure.mpr (Or.inr hrc)
  | true =>
      rw [if_pos rfl] at hrc ⊢
      rw [wp_modify_bind, wp_load_bind, onBuffer, onBuffer, onBuffer, wp_modify_bind, wp_modify_bind,
        wp_modify_bind]
      have hplaced : ∀ id buf, Settled ⟨b₁.clock, { b₁.mem with nextMsgId := id, buffer := buf }⟩ :=
        fun id buf => ⟨hrc.phase, hrc.state⟩
      exact wp_mono (wp_write_settled (hplaced _ _) (by decide) (by omega)) (fun _ _ h => Or.inl h)
        (fun _ h => Or.inl h)

/-! ## Reading -/

theorem wp_readByte_steady : wp readByte (fun _ => Steady b) (Steady b) b := by
  rw [readByte, wp_millis_bind]
  refine ⟨Steady.refl b, fun elapsed => ?_⟩
  refine wp_seq (P := fun _ => Steady b) (D := Steady b) ?_ (fun _ h => h) ?_
  · apply wp_untilSome (Steady b) (steady_clock _) (fun _ h => h)
    intro b₁ hsteady
    rw [wp_available_bind]
    refine ⟨hsteady, fun answer => ?_⟩
    have hafter := hsteady.trans (steady_after answer)
    rw [wp_ite]
    refine ⟨fun _ => wp_pure.mpr hafter, fun _ => ?_⟩
    rw [wp_millis_bind]
    refine ⟨hafter, fun later => ?_⟩
    have hlate := hafter.trans (steady_clock (b₁.clock + answer.elapsed + later))
    rw [wp_ite]
    exact ⟨fun _ => wp_pure.mpr hlate, fun _ => wp_pure.mpr hlate⟩
  · intro arrived b₁ hsteady
    rw [wp_ite]
    refine ⟨fun _ => ?_, fun _ => wp_pure.mpr hsteady⟩
    rw [linkRead, bind_assoc, wp_load_bind, bind_assoc, wp_modify_bind, pure_bind, wp_pure]
    exact ⟨hsteady.log, hsteady.up⟩

theorem wp_readByteAt_steady (pos : ℕ) : wp (readByteAt pos) (fun _ => Steady b) (Steady b) b := by
  refine wp_seq wp_readByte_steady (fun _ h => h) ?_
  intro read b₁ hsteady
  cases read with
  | none => exact wp_pure.mpr hsteady
  | some byte =>
      dsimp only
      rw [onBuffer, wp_modify_bind, wp_pure]
      exact hsteady.trans (steady_onBuffer fun buf => Function.update buf pos byte)

theorem wp_readLength_steady (room length multiplier : ℕ) :
    wp (readLength room length multiplier) (fun _ => Steady b) (Steady b) b := by
  induction room generalizing b length multiplier with
  | zero =>
      rw [readLength, setState, stop, wp_modify_bind, wp_modify_bind, wp_pure]
      exact ⟨rfl, fun hup => absurd hup Bool.false_ne_true⟩
  | succ room ih =>
      rw [readLength]
      refine wp_seq wp_readByte_steady (fun _ h => h) ?_
      intro read b₁ hsteady
      cases read with
      | none => exact wp_pure.mpr hsteady
      | some digit =>
          dsimp only
          rw [onBuffer, wp_modify_bind]
          have hstored := hsteady.trans
            (steady_onBuffer fun buf => Function.update buf (4 - room) digit)
          rw [wp_ite]
          refine ⟨fun _ => ?_, fun _ => wp_pure.mpr hstored⟩
          exact wp_mono (ih _ _) (fun _ _ h => hstored.trans h) (fun _ h => hstored.trans h)

theorem wp_readRest_steady (n len idx : ℕ) :
    wp (readRest n len idx) (fun _ => Steady b) (Steady b) b := by
  induction n generalizing b len idx with
  | zero => exact wp_pure.mpr (Steady.refl b)
  | succ n ih =>
      rw [readRest]
      refine wp_seq wp_readByte_steady (fun _ h => h) ?_
      intro read b₁ hsteady
      cases read with
      | none => exact wp_pure.mpr hsteady
      | some digit =>
          dsimp only
          rw [wp_ite]
          refine ⟨fun _ => ?_, fun _ => ?_⟩
          · rw [onBuffer, wp_modify_bind]
            have hstored := hsteady.trans (steady_onBuffer fun buf => Function.update buf len digit)
            exact wp_mono (ih _ _) (fun _ _ h => hstored.trans h) (fun _ h => hstored.trans h)
          · exact wp_mono (ih _ _) (fun _ _ h => hsteady.trans h) (fun _ h => hsteady.trans h)

theorem wp_readTopicLength_steady (isPublish : Bool) (len : ℕ) :
    wp (readTopicLength isPublish len) (fun _ => Steady b) (Steady b) b := by
  rw [readTopicLength, wp_ite]
  refine ⟨fun _ => ?_, fun _ => wp_pure.mpr (Steady.refl b)⟩
  refine wp_seq (wp_readByteAt_steady len) (fun _ h => h) ?_
  intro ok b₁ hsteady
  rw [wp_ite]
  refine ⟨fun _ => ?_, fun _ => wp_pure.mpr hsteady⟩
  exact wp_mono (wp_readByteAt_steady _) (fun _ _ h => hsteady.trans h) (fun _ h => hsteady.trans h)

theorem wp_readPacket_steady : wp readPacket (fun _ => Steady b) (Steady b) b := by
  rw [readPacket]
  refine wp_seq (wp_readByteAt_steady 0) (fun _ h => h) ?_
  intro ok b₁ hheader
  rw [wp_ite]
  refine ⟨fun _ => ?_, fun _ => wp_pure.mpr hheader⟩
  refine wp_seq (wp_readLength_steady 4 0 1) (fun _ h => hheader.trans h) ?_
  intro found b₂ hlength
  have hread := hheader.trans hlength
  cases found with
  | none => exact wp_pure.mpr hread
  | some found =>
      obtain ⟨len, length⟩ := found
      dsimp only
      rw [readBody, bind_assoc, wp_load_bind]
      dsimp only
      rw [bind_assoc]
      refine wp_seq (wp_readTopicLength_steady _ len) (fun _ h => hread.trans h) ?_
      intro ok b₃ htopic
      have hread := hread.trans htopic
      split
      · rw [bind_assoc]
        refine wp_seq (wp_readRest_steady _ _ _) (fun _ h => hread.trans h) ?_
        intro rest b₄ hrest
        have hread := hread.trans hrest
        cases rest with
        | none => exact wp_pure.mpr hread
        | some rest => exact wp_pure.mpr hread
      · exact wp_pure.mpr hread

/-! ## Servicing -/

theorem control_pingReq : Control [0xC0, 0] := ⟨by decide, by decide⟩

theorem control_pingResp : Control [0xD0, 0] := ⟨by decide, by decide⟩

theorem control_pubAck {msgId : Bytes} (h : msgId.length = 2) : Control (0x40 :: 2 :: msgId) := by
  have hframe : 0x40 :: 2 :: msgId = frame 0x40 msgId := by
    rw [frame, h]
    rfl
  rw [hframe]
  exact Control.frame (by decide) (by omega)

theorem wp_callBack_settled (h : Settled b) (callback : Callback δ) (packet topic : Bytes)
    (payload length : ℕ) :
    wp (callBack callback packet topic payload length) (fun _ => Settled) Settled b := by
  rw [callBack, wp_modify]
  exact h.log rfl rfl h.state

theorem wp_deliver_settled (h : Settled b) (callback : Callback δ) (llen len : ℕ) (t : UInt32) :
    wp (deliver callback llen len t) (fun _ => Settled) Settled b := by
  rw [deliver, wp_load_bind]
  dsimp only
  rw [onBuffer, wp_modify_bind, wp_load_bind, wp_ite]
  have hmoved := h.steady (steady_onBuffer fun buf => topicMoved buf llen)
  refine ⟨fun _ => ?_, fun _ => wp_callBack_settled hmoved _ _ _ _ _⟩
  refine wp_seq (wp_callBack_settled hmoved _ _ _ _ _) (fun _ h => h) ?_
  intro _ b₁ hcalled
  rw [onBuffer, wp_modify_bind]
  refine wp_seq (wp_linkWrite_settled (hcalled.steady (steady_onBuffer _))
    (control_pubAck (Memory.length_slice _ _ _))) (fun _ h => h) ?_
  intro _ b₂ hwritten
  rw [wp_modify]
  exact ⟨hwritten.phase, hwritten.state⟩

theorem wp_dispatch_settled (h : Settled b) (llen len : ℕ) (t : UInt32) :
    wp (dispatch llen len t) (fun _ => Settled) Settled b := by
  rw [dispatch, wp_load_bind]
  dsimp only
  rw [wp_ite]
  refine ⟨fun _ => ?_, fun _ => ?_⟩
  · cases b.mem.callback with
    | none => exact wp_pure.mpr h
    | some callback => exact wp_deliver_settled h callback llen len t
  rw [wp_ite]
  refine ⟨fun _ => ?_, fun _ => ?_⟩
  · rw [onBuffer, wp_modify_bind]
    refine wp_seq (wp_linkWrite_settled (h.steady (steady_onBuffer _)) control_pingResp)
      (fun _ h => h) ?_
    intro _ b₁ hwritten
    exact wp_pure.mpr hwritten
  rw [wp_ite]
  refine ⟨fun _ => ?_, fun _ => wp_pure.mpr h⟩
  rw [wp_modify]
  exact ⟨h.phase, h.state⟩

theorem wp_service_settled (h : Settled b) (llen len : ℕ) (t : UInt32) :
    wp (service llen len t) (fun _ => Settled) Settled b := by
  have hserviced : Settled ⟨b.clock, { b.mem with
      lastInActivity := t
      log := b.mem.log ++ [.serviced (Memory.slice b.mem.buffer 0 len)] }⟩ := h.log rfl rfl h.state
  rw [service, wp_modify_bind]
  exact wp_dispatch_settled hserviced llen len t

theorem wp_keepAlive_settled (h : Settled b) (t : UInt32) :
    wp (keepAlive t) (fun _ => Settled) Settled b := by
  rw [keepAlive, wp_load_bind, wp_ite]
  refine ⟨fun _ => ?_, fun _ => wp_pure.mpr h⟩
  rw [wp_ite]
  refine ⟨fun _ => ?_, fun _ => ?_⟩
  · rw [setState, stop, wp_modify_bind, wp_modify_bind, wp_pure]
    exact ⟨h.phase, fun hup => absurd hup Bool.false_ne_true⟩
  · rw [onBuffer, wp_modify_bind]
    refine wp_seq (wp_linkWrite_settled (h.steady (steady_onBuffer _)) control_pingReq)
      (fun _ h => h) ?_
    intro _ b₁ hwritten
    rw [wp_modify_bind, wp_pure]
    exact ⟨hwritten.phase, hwritten.state⟩

theorem wp_loop_orderly (h : Orderly b) : wp loop (fun _ => Orderly) Orderly b := by
  rw [loop]
  refine wp_seq (wp_connected_orderly h) (fun _ h => h) ?_
  intro rc b₁ hrc
  cases rc with
  | false => exact wp_pure.mpr (Or.inr hrc)
  | true =>
      rw [if_pos rfl] at hrc ⊢
      rw [wp_millis_bind]
      refine ⟨Or.inl hrc, fun elapsed => ?_⟩
      have hlater := hrc.steady (steady_clock (b₁.clock + elapsed))
      refine wp_seq (wp_keepAlive_settled hlater _) (fun _ h => Or.inl h) ?_
      intro ok b₂ hkept
      rw [wp_ite]
      refine ⟨fun _ => ?_, fun _ => wp_pure.mpr (Or.inl hkept)⟩
      rw [wp_available_bind]
      refine ⟨Or.inl hkept, fun answer => ?_⟩
      have hafter := hkept.steady (steady_after answer)
      rw [wp_ite]
      refine ⟨fun _ => ?_, fun _ => wp_pure.mpr (Or.inl hafter)⟩
      refine wp_seq wp_readPacket_steady (fun _ h => Or.inl (hafter.steady h)) ?_
      rintro ⟨len, llen⟩ b₃ hread
      have hread := hafter.steady hread
      dsimp only
      rw [wp_ite]
      refine ⟨fun _ => ?_, fun _ => ?_⟩
      · refine wp_seq (wp_service_settled hread llen len _) (fun _ h => Or.inl h) ?_
        intro _ b₄ hserviced
        exact wp_pure.mpr (Or.inl hserviced)
      · refine wp_mono (wp_connected_orderly (Or.inl hread)) ?_ (fun _ h => h)
        intro rc b₄ hrc
        cases rc with
        | false => exact Or.inr hrc
        | true => exact Or.inl hrc

/-! ## Connecting -/

/-- A connection on which nothing has been written. -/
def Fresh (b : Board (PubSubClient δ)) : Prop := order.run b.mem.log = some .opened

/-- The CONNECT has been written, or the connection is down again. -/
def Awaiting (b : Board (PubSubClient δ)) : Prop :=
  order.run b.mem.log = some .established ∨ Idle b

theorem Fresh.conforms (h : Fresh b) : Conforms b.mem.log := by
  rw [Conforms, h]
  exact Option.some_ne_none _

theorem Awaiting.conforms (h : Awaiting b) : Conforms b.mem.log := by
  rcases h with hphase | hidle
  · rw [Conforms, hphase]
    exact Option.some_ne_none _
  · exact hidle.conforms

theorem Awaiting.steady (h : Awaiting b) (hsteady : Steady b b') : Awaiting b' := by
  rcases h with hphase | hidle
  · exact Or.inl (hsteady.log ▸ hphase)
  · exact Or.inr (hidle.steady hsteady)

theorem wp_openLink_idle (h : Idle b) :
    wp openLink (fun ok b' => if ok then Fresh b' else Idle b') (fun b' => Conforms b'.mem.log) b := by
  rw [openLink, wp_linkConnected_bind]
  refine ⟨h.conforms, fun answer => ?_⟩
  have hafter := h.steady (steady_after answer)
  have hdown : ¬(b.mem.link.after answer).up = true := by
    rw [after_up, h.down, Bool.false_and]
    exact Bool.false_ne_true
  rw [if_neg hdown, linkConnect, wp_call_bind]
  refine ⟨hafter.conforms, fun reply => ?_⟩
  rw [wp_ite]
  refine ⟨fun hok => ?_, fun hrefused => ?_⟩
  · rw [wp_modify_bind, wp_pure, if_pos hok, Fresh]
    dsimp only
    obtain ⟨phase, hphase⟩ := Option.ne_none_iff_exists'.mp h.conforms
    rw [Machine.run_snoc, hphase]
    cases phase <;> rfl
  · rw [wp_pure, if_neg hrefused]
    exact ⟨hafter.conforms, hafter.down⟩

theorem wp_linkWrite_fresh (h : Fresh b) {packet : Bytes} (hconnect : isConnect packet = true)
    (hwhole : (unframe packet).isSome = true) :
    wp (linkWrite packet) (fun _ => Awaiting) (fun b' => Conforms b'.mem.log) b := by
  rw [linkWrite, wp_onLink_bind]
  refine ⟨h.conforms, fun answer => ?_⟩
  rw [wp_load_bind, wp_ite]
  refine ⟨fun _ => ?_, fun _ => ?_⟩
  · rw [wp_modify_bind, wp_pure]
    refine Or.inl ?_
    dsimp only
    rw [Machine.run_snoc, h]
    simp [order, Phase.next, hconnect, hwhole]
  · rw [wp_modify_bind, wp_pure]
    exact Or.inr ⟨h.conforms, rfl⟩

theorem wp_sendConnect_fresh (h : Fresh b) {id : Bytes} (hid : id.length ≤ mqttMaxPacketSize) :
    wp (sendConnect id) (fun _ => Awaiting) (fun b' => Conforms b'.mem.log) b := by
  have hlength : mqttMaxHeaderSize + connectHeader.length + 2 + id.length - mqttMaxHeaderSize <
      128 ^ 3 := by
    rw [mqttMaxPacketSize] at hid
    simp only [mqttMaxHeaderSize, connectHeader, List.length_append, List.length_cons,
      List.length_nil, length_word]
    omega
  have hwhole : ∀ buf : Memory UInt8, (unframe (frame connectType (Memory.slice buf mqttMaxHeaderSize
      (mqttMaxHeaderSize + connectHeader.length + 2 + id.length - mqttMaxHeaderSize)))).isSome := by
    intro buf
    rw [unframe_frame connectType (by rw [Memory.length_slice]; omega)]
    rfl
  rw [sendConnect, onBuffer, wp_modify_bind, write, onBuffer, bind_assoc, wp_modify_bind, bind_assoc,
    wp_load_bind]
  dsimp only
  rw [slice_write connectType hlength, bind_assoc]
  have hbuilt : ∀ buf, Fresh ⟨b.clock, { b.mem with buffer := buf }⟩ := fun _ => h
  refine wp_seq (wp_linkWrite_fresh (hbuilt _) rfl (hwhole _)) (fun _ h => h) ?_
  intro written b₁ hsent
  rw [bind_assoc, wp_millis_bind]
  refine ⟨hsent.conforms, fun elapsed => ?_⟩
  rw [bind_assoc, wp_modify_bind, pure_bind, wp_millis_bind]
  refine ⟨hsent.conforms, fun later => ?_⟩
  rw [wp_modify]
  exact hsent.imp (fun hphase => hphase) fun hidle => ⟨hidle.conforms, hidle.down⟩

theorem wp_awaitConnack_orderly (h : Awaiting b) :
    wp awaitConnack (fun _ => Orderly) (fun b' => Conforms b'.mem.log) b := by
  have hstopped : ∀ b' : Board (PubSubClient δ), Awaiting b' → ∀ state, Orderly (δ := δ)
      ⟨b'.clock, { b'.mem with state, link := {} }⟩ :=
    fun b' hb' state => Or.inr ⟨hb'.conforms, rfl⟩
  rw [awaitConnack]
  refine wp_seq (P := fun _ => Awaiting) (D := Awaiting) ?_ (fun _ h => h.conforms) ?_
  · apply wp_untilSome Awaiting h (fun _ h => h)
    intro b₁ hb₁
    rw [wp_available_bind]
    refine ⟨hb₁, fun answer => ?_⟩
    have hafter := hb₁.steady (steady_after answer)
    rw [wp_ite]
    refine ⟨fun _ => wp_pure.mpr hafter, fun _ => ?_⟩
    rw [wp_millis_bind]
    refine ⟨hafter, fun later => ?_⟩
    have hlate := hafter.steady (steady_clock (b₁.clock + answer.elapsed + later))
    rw [wp_load_bind, wp_ite]
    exact ⟨fun _ => wp_pure.mpr hlate, fun _ => wp_pure.mpr hlate⟩
  · intro answered b₁ hb₁
    rw [wp_ite]
    refine ⟨fun _ => ?_, fun _ => ?_⟩
    swap
    · rw [setState, stop, wp_modify_bind, wp_modify_bind, wp_pure]
      exact hstopped b₁ hb₁ _
    refine wp_seq wp_readPacket_steady (fun _ h => (hb₁.steady h).conforms) ?_
    rintro ⟨len, llen⟩ b₂ hread
    have hb₂ := hb₁.steady hread
    dsimp only
    rw [wp_load_bind, wp_ite]
    refine ⟨fun _ => ?_, fun _ => ?_⟩
    · rw [wp_millis_bind]
      refine ⟨hb₂.conforms, fun elapsed => ?_⟩
      rw [wp_modify_bind, wp_pure]
      exact hb₂.imp (fun hphase => ⟨hphase, fun _ => rfl⟩) fun hidle => ⟨hidle.conforms, hidle.down⟩
    · rw [stop, wp_ite]
      refine ⟨fun _ => ?_, fun _ => ?_⟩
      · rw [setState, wp_modify_bind, wp_modify_bind, wp_pure]
        exact hstopped b₂ hb₂ _
      · rw [wp_modify_bind, wp_pure]
        exact hstopped b₂ hb₂ b₂.mem.state

theorem wp_connect_orderly (h : Orderly b) (id : Bytes) :
    wp (connect id) (fun _ => Orderly) (fun b' => Conforms b'.mem.log) b := by
  rw [connect]
  refine wp_seq (wp_connected_orderly h) (fun _ h => h.conforms) ?_
  intro rc b₁ hrc
  cases rc with
  | true => exact wp_pure.mpr (Or.inl hrc)
  | false =>
      refine wp_seq (wp_openLink_idle hrc) (fun _ h => h) ?_
      intro ok b₂ hok
      cases ok with
      | false =>
          have hidle : Idle b₂ := hok
          rw [if_neg Bool.false_ne_true, setState, wp_modify_bind, wp_pure]
          exact Or.inr ⟨hidle.conforms, hidle.down⟩
      | true =>
          rw [if_pos rfl] at hok ⊢
          rw [wp_modify_bind, onBuffer, wp_modify_bind, wp_ite]
          refine ⟨fun _ => ?_, fun hlength => ?_⟩
          · rw [stop, wp_modify_bind, wp_pure]
            exact Or.inr ⟨hok.conforms, rfl⟩
          · have hid : id.length ≤ mqttMaxPacketSize := by
              simp only [mqttMaxPacketSize] at hlength ⊢
              omega
            have hplaced : ∀ id buf, Fresh ⟨b₂.clock, { b₂.mem with nextMsgId := id, buffer := buf }⟩ :=
              fun _ _ => hok
            refine wp_seq (wp_sendConnect_fresh (hplaced _ _) hid) (fun _ h => h) ?_
            intro _ b₃ hsent
            exact wp_awaitConnack_orderly hsent

/-! ## Programs that use the client -/

theorem wp_publish_orderly (h : Orderly b) (topic payload : Bytes) (retained : Bool) :
    wp (publish topic payload retained) (fun _ => Orderly) Orderly b :=
  wp_publishBytes_orderly h topic _ retained

theorem wp_operation_orderly {topics : Bytes → Prop} {α : Type} {m : Sketch (PubSubClient δ) α}
    (hm : Operation topics α m) (h : Orderly b) :
    wp m (fun _ => Orderly) (fun b' => Conforms b'.mem.log) b := by
  -- All operations but `connect` are orderly also in their middle.
  have hkept : ∀ {α : Type} {m : Sketch (PubSubClient δ) α}, wp m (fun _ => Orderly) Orderly b →
      wp m (fun _ => Orderly) (fun b' => Conforms b'.mem.log) b :=
    fun hm => wp_mono hm (fun _ _ h => h) (fun _ h => h.conforms)
  cases hm with
  | call =>
      rw [← bind_pure call, wp_call_bind]
      exact ⟨h.conforms, fun answer => wp_pure.mpr (h.steady (steady_clock _))⟩
  | delay ms =>
      rw [wp_delay]
      exact ⟨h.conforms, fun elapsed => h.steady (steady_clock _)⟩
  | connected =>
      apply hkept
      refine wp_mono (wp_connected_orderly h) ?_ (fun _ h => h)
      intro rc b₁ hrc
      cases rc with
      | false => exact Or.inr hrc
      | true => exact Or.inl hrc
  | connect id => exact wp_connect_orderly h id
  | publish topic payload retained => exact hkept (wp_publish_orderly h topic payload retained)
  | subscribe _ qos => exact hkept (wp_subscribe_orderly h _ qos)
  | loop => exact hkept (wp_loop_orderly h)

/-- A client at power-on. -/
def idle : Board (PubSubClient Unit) where
  clock := 0
  mem := { buffer := fun _ => 0, dev := () }

/-- Two sessions, the second one after whatever has become of the first. -/
def twoSessions : Sketch (PubSubClient Unit) Unit :=
  iterate (do
    let _ ← connect (cstr "ESP8266Client")
    let _ ← publish (cstr "outTopic") (cstr "hello world")
    let _ ← loop) 2

end PubSubClient

end Arduino
