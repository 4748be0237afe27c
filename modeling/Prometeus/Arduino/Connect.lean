import Prometeus.Arduino.PubSubClientLaws
import Prometeus.Foundation.MqttConnect

/-! # Connecting with credentials

The full `connect` of the client, with user, password and will. The CONNECT is put together in
the packet buffer, text by text; a text that does not fit ends the attempt.
-/

namespace Arduino

open Script Sketch Mqtt

namespace PubSubClient

variable {δ : Type} {b : Board (PubSubClient δ)}

/-- The flags of `connect`; a password without a user is left out. -/
def connectFlags (user pass : Option Bytes) (will : Option Will) (cleanSession : Bool) : UInt8 :=
  let v := match will with
    | some w => (0x04 : UInt8) ||| (w.qos <<< 3) ||| ((if w.retain then (1 : UInt8) else 0) <<< 5)
    | none => 0x00
  let v := if cleanSession then v ||| 0x02 else v
  match user with
  | none => v
  | some _ =>
      let v := v ||| 0x80
      match pass with
      | none => v
      | some _ => v ||| ((0x80 : UInt8) >>> 1)

def connectHeaderWith (v : UInt8) : Bytes :=
  [0x00, 0x04, 0x4D, 0x51, 0x54, 0x54, 0x04, v] ++ word mqttKeepAlive

/-- `CHECK_STRING_LENGTH` and `writeString` for one text after the other. Gives the position behind
them; where one does not fit the connection is closed. -/
def writeTexts : List Bytes → ℕ → Sketch (PubSubClient δ) (Option ℕ)
  | [], length => pure (some length)
  | string :: strings, length =>
      if mqttMaxPacketSize < length + 2 + min string.length mqttMaxPacketSize then do
        stop
        pure none
      else do
        onBuffer (writeString string length)
        writeTexts strings (length + 2 + string.length)

/-- The texts of the payload, in their order. -/
def connectTexts (id : Bytes) (user pass : Option Bytes) (will : Option Will) : List Bytes :=
  id :: ((match will with
    | some w => [w.topic, w.message]
    | none => []) ++
    match user with
    | none => []
    | some user => user :: pass.toList)

/-- Write the CONNECT that ends at a position. -/
def sendRequest (length : ℕ) : Sketch (PubSubClient δ) Unit := do
  let _ ← write connectType (length - mqttMaxHeaderSize)
  let t ← millis
  modify fun c => { c with lastInActivity := t, lastOutActivity := t }

/-- `connect(id, user, pass, willTopic, willQos, willRetain, willMessage, cleanSession)` -/
def connectWith (id : Bytes) (user pass : Option Bytes) (will : Option Will) (cleanSession : Bool) :
    Sketch (PubSubClient δ) Bool := do
  if ← connected then
    pure true
  else
    if ← openLink then
      modify fun c => { c with nextMsgId := 1 }
      let header := connectHeaderWith (connectFlags user pass will cleanSession)
      onBuffer (Memory.place header mqttMaxHeaderSize)
      match ← writeTexts (connectTexts id user pass will) (mqttMaxHeaderSize + header.length) with
      | none => pure false
      | some length =>
          sendRequest length
          awaitConnack
    else
      setState mqttConnectFailed
      pure false

/-- `connect(id, user, pass)` -/
def connectAs (id user pass : Bytes) : Sketch (PubSubClient δ) Bool :=
  connectWith id (some user) (some pass) none true

/-! ## The packet -/

/-- What the arguments of `connect` ask a server for. -/
def request (id : Bytes) (user pass : Option Bytes) (will : Option Will) (cleanSession : Bool) :
    Connect where
  id
  will
  credentials := user.map fun user => ⟨user, pass⟩
  cleanSession
  keepAlive := mqttKeepAlive

/-- The packet fits the buffer, with the largest fixed header. -/
def Fits (c : Connect) : Prop :=
  mqttMaxHeaderSize + c.variableHeader.length + (c.texts.flatMap text).length ≤ mqttMaxPacketSize

instance (c : Connect) : Decidable (Fits c) := inferInstanceAs (Decidable (_ ≤ _))

section

variable (id : Bytes) (user pass : Option Bytes) (will : Option Will) (cleanSession : Bool)

theorem connectFlags_eq :
    connectFlags user pass will cleanSession = (request id user pass will cleanSession).flags := by
  have hretain : ∀ retain : Bool, (if retain then (1 : UInt8) else 0) <<< 5 =
      if retain then 0x20 else 0 := by decide
  have hpassword : (0x80 : UInt8) >>> 1 = 0x40 := by decide
  cases will with
  | none =>
      cases user <;> cases pass <;> cases cleanSession <;>
        simp [connectFlags, request, Connect.flags, Connect.willFlags, Connect.credentialFlags,
          hpassword, UInt8.or_assoc]
  | some w =>
      rw [Connect.flags, request, Connect.willFlags, ← hretain]
      cases user <;> cases pass <;> cases cleanSession <;>
        simp [connectFlags, Connect.credentialFlags, hpassword, UInt8.or_assoc]

theorem connectTexts_eq :
    connectTexts id user pass will = (request id user pass will cleanSession).texts := by
  cases will <;> cases user <;> rfl

theorem connectHeaderWith_eq :
    connectHeaderWith (connectFlags user pass will cleanSession) =
      (request id user pass will cleanSession).variableHeader := by
  rw [connectFlags_eq id, Connect.variableHeader]
  rfl

end

/-- `connect(id)` is the case without credentials and will. -/
theorem connectWith_id (id : Bytes) :
    (connectWith id none none none true : Sketch (PubSubClient δ) Bool) = connect id := by
  have hheader : connectHeaderWith (connectFlags none none none true) = connectHeader := by decide
  rw [connectWith, connect]
  apply bind_congr
  intro rc
  cases rc with
  | true => rfl
  | false =>
      rw [if_neg Bool.false_ne_true, if_neg Bool.false_ne_true]
      apply bind_congr
      intro ok
      cases ok with
      | false => rfl
      | true =>
          rw [if_pos rfl, if_pos rfl]
          apply bind_congr
          intro _
          rw [hheader]
          dsimp only
          apply bind_congr
          intro _
          rw [connectTexts, List.nil_append, writeTexts]
          split
          · rw [bind_assoc, pure_bind]
          · rw [writeTexts, bind_assoc, pure_bind, sendConnect]
            dsimp only
            simp only [sendRequest, bind_assoc]

/-! ## What is written -/

/-- The texts are written one behind the other, or the connection is closed. -/
theorem wp_writeTexts (strings : List Bytes) {n : ℕ} {C : Board (PubSubClient δ) → Prop}
    (hn : mqttMaxHeaderSize + n ≤ mqttMaxPacketSize) :
    wp (writeTexts strings (mqttMaxHeaderSize + n)) (fun found b' => ∃ buf,
      (mqttMaxHeaderSize + n + (strings.flatMap text).length ≤ mqttMaxPacketSize ∧
        found = some (mqttMaxHeaderSize + n + (strings.flatMap text).length) ∧
        b' = ⟨b.clock, { b.mem with buffer := buf }⟩ ∧
        Memory.slice buf mqttMaxHeaderSize (n + (strings.flatMap text).length) =
          Memory.slice b.mem.buffer mqttMaxHeaderSize n ++ strings.flatMap text) ∨
      (mqttMaxPacketSize < mqttMaxHeaderSize + n + (strings.flatMap text).length ∧ found = none ∧
        b' = ⟨b.clock, { b.mem with buffer := buf, link := {} }⟩)) C b := by
  induction strings generalizing n b with
  | nil =>
      rw [writeTexts, wp_pure]
      exact ⟨b.mem.buffer, Or.inl ⟨hn, rfl, rfl, by simp⟩⟩
  | cons string strings ih =>
      have hmore : (List.flatMap text (string :: strings)).length =
          2 + string.length + (strings.flatMap text).length := by
        rw [List.flatMap_cons, List.length_append, length_text]
        omega
      rw [writeTexts, wp_ite, hmore]
      refine ⟨fun hlong => ?_, fun hfits => ?_⟩
      · rw [stop, wp_modify_bind, wp_pure]
        refine ⟨b.mem.buffer, Or.inr ⟨?_, rfl, rfl⟩⟩
        omega
      · have hnext : mqttMaxHeaderSize + n + 2 + string.length =
            mqttMaxHeaderSize + (n + (2 + string.length)) := by omega
        have hroom : mqttMaxHeaderSize + (n + (2 + string.length)) ≤ mqttMaxPacketSize := by
          simp only [mqttMaxPacketSize] at hfits ⊢
          omega
        rw [onBuffer, wp_modify_bind, hnext]
        refine wp_mono (ih hroom) ?_ (fun _ h => h)
        rintro found b' ⟨buf, hresult⟩
        have hcount : mqttMaxHeaderSize + (n + (2 + string.length)) +
            (strings.flatMap text).length =
            mqttMaxHeaderSize + n + (2 + string.length + (strings.flatMap text).length) := by omega
        rw [hcount] at hresult
        refine ⟨buf, hresult.imp ?_ fun h => h⟩
        rintro ⟨hle, hfound, hboard, hslice⟩
        refine ⟨hle, hfound, hboard, ?_⟩
        have hbefore : Memory.slice (writeString string (mqttMaxHeaderSize + n) b.mem.buffer)
            mqttMaxHeaderSize (n + (2 + string.length)) =
            Memory.slice b.mem.buffer mqttMaxHeaderSize n ++ text string := by
          rw [Memory.slice_add, slice_writeString]
          congr 1
          apply Memory.slice_congr
          exact fun i _ hi => writeString_of_lt string b.mem.buffer hi
        rw [← Nat.add_assoc, hslice, hbefore, List.flatMap_cons, List.append_assoc]

/-- At most one connection is opened, and at most the one CONNECT is written. -/
def Requests (c : Connect) (b b' : Board (PubSubClient δ)) : Prop :=
  ∃ opened sent, Ran (opened ++ sent) b b' ∧ (opened = [] ∨ opened = [.opened]) ∧
    (sent = [] ∨ Fits c ∧ sent = [.wrote c.packet])

theorem Requests.quiet {c : Connect} {b' b'' : Board (PubSubClient δ)} (h : Requests c b b')
    (h' : Ran [] b' b'') : Requests c b b'' := by
  obtain ⟨opened, sent, hran, hopened, hsent⟩ := h
  exact ⟨opened, sent, by simpa using hran.trans h', hopened, hsent⟩

theorem wp_openLink_requests (c : Connect) :
    wp openLink (fun _ b' => (∃ opened, Ran opened b b' ∧ (opened = [] ∨ opened = [.opened])) ∧
      (b'.mem.state = mqttConnected → b.mem.state = mqttConnected)) (Requests c b) b := by
  rw [openLink, wp_linkConnected_bind]
  refine ⟨⟨[], [], Ran.refl b, Or.inl rfl, Or.inl rfl⟩, fun answer => ?_⟩
  have hafter := quiet_after (b := b) answer
  rw [wp_ite]
  refine ⟨fun _ => wp_pure.mpr ⟨⟨[], hafter.1, Or.inl rfl⟩, hafter.2.state⟩, fun _ => ?_⟩
  rw [linkConnect, wp_call_bind]
  refine ⟨⟨[], [], hafter.1, Or.inl rfl, Or.inl rfl⟩, fun reply => ?_⟩
  have hclock : b.clock ≤ b.clock + answer.elapsed + reply.elapsed := by omega
  rw [wp_ite]
  refine ⟨fun _ => ?_, fun _ => ?_⟩
  · rw [wp_modify_bind, wp_pure]
    exact ⟨⟨[.opened], ⟨hclock, rfl, rfl, rfl⟩, Or.inr rfl⟩, fun h => h⟩
  · rw [wp_pure]
    exact ⟨⟨[], ⟨hclock, by simp, rfl, rfl⟩, Or.inl rfl⟩, fun h => h⟩

theorem wp_sendRequest {c : Connect} (hfits : Fits c)
    (hbody : Memory.slice b.mem.buffer mqttMaxHeaderSize
      (c.variableHeader.length + (c.texts.flatMap text).length) =
        c.variableHeader ++ c.texts.flatMap text) :
    wp (sendRequest (mqttMaxHeaderSize + c.variableHeader.length + (c.texts.flatMap text).length))
      (fun _ b' => (Ran [] b b' ∨ Ran [.wrote c.packet] b b') ∧ Fades b b')
      (fun b' => Ran [] b b' ∨ Ran [.wrote c.packet] b b') b := by
  have hcount : mqttMaxHeaderSize + c.variableHeader.length + (c.texts.flatMap text).length -
      mqttMaxHeaderSize = c.variableHeader.length + (c.texts.flatMap text).length := by omega
  have hlength : c.variableHeader.length + (c.texts.flatMap text).length < 128 ^ 3 := by
    rw [Fits, mqttMaxPacketSize] at hfits
    omega
  have hwrite := wp_write (b := b) connectType hlength
  rw [hbody] at hwrite
  rw [sendRequest, hcount]
  refine wp_seq hwrite (fun _ h => h.2) ?_
  rintro ok b₁ ⟨hfades, hsent⟩
  have hran : Ran [] b b₁ ∨ Ran [.wrote c.packet] b b₁ := by
    cases ok with
    | false => exact Or.inl hsent.1
    | true => exact Or.inr hsent
  rw [wp_millis_bind]
  refine ⟨hran, fun elapsed => ?_⟩
  rw [wp_modify]
  have hlater : ∀ {events}, Ran events b b₁ → Ran events b ⟨b₁.clock + elapsed, { b₁.mem with
      lastInActivity := UInt32.ofNat (b₁.clock + elapsed)
      lastOutActivity := UInt32.ofNat (b₁.clock + elapsed) }⟩ :=
    fun h => ⟨h.clock.trans (Nat.le_add_right _ _), h.log, h.callback, h.dev⟩
  exact ⟨hran.imp hlater hlater, hfades.up, hfades.state⟩

/-- A call of `connect` writes the CONNECT that its arguments ask for, or nothing; it succeeds only
when there was a session before or that packet fits. -/
theorem wp_connectWith (id : Bytes) (user pass : Option Bytes) (will : Option Will)
    (cleanSession : Bool) :
    wp (connectWith id user pass will cleanSession) (fun ok b' =>
      Requests (request id user pass will cleanSession) b b' ∧
        (ok = true → Live b ∨ Fits (request id user pass will cleanSession)) ∧
        (ok = false → b'.mem.state ≠ mqttConnected))
      (Requests (request id user pass will cleanSession) b) b := by
  have hheader := connectHeaderWith_eq id user pass will cleanSession
  have htexts := connectTexts_eq id user pass will cleanSession
  generalize request id user pass will cleanSession = c at hheader htexts ⊢
  have hten : mqttMaxHeaderSize + c.variableHeader.length ≤ mqttMaxPacketSize := by
    rw [Connect.length_variableHeader]
    decide
  have hnothing : ∀ b', Ran [] b b' → Requests c b b' :=
    fun b' h => ⟨[], [], h, Or.inl rfl, Or.inl rfl⟩
  rw [connectWith, hheader, htexts]
  refine wp_seq wp_connected (fun _ h => hnothing _ h.1) ?_
  rintro rc b₁ ⟨hquiet, hrc⟩
  cases rc with
  | true => exact wp_pure.mpr ⟨hnothing _ hquiet.1, fun _ => Or.inl (hquiet.2.live hrc), by simp⟩
  | false =>
      refine wp_seq (wp_openLink_requests c) (fun _ h => ?_) ?_
      · obtain ⟨opened, sent, hran, hopened, hsent⟩ := h
        exact ⟨opened, sent, hquiet.ran hran, hopened, hsent⟩
      rintro ok b₂ ⟨⟨opened, hran, hopened⟩, hstate⟩
      have hran := hquiet.ran hran
      have hnot : b₂.mem.state ≠ mqttConnected := fun h => hrc (hstate h)
      have hopen : Requests c b b₂ := ⟨opened, [], by simpa using hran, hopened, Or.inl rfl⟩
      cases ok with
      | false =>
          rw [if_neg Bool.false_ne_true, setState, wp_modify_bind, wp_pure]
          refine ⟨hopen.quiet ⟨le_rfl, by simp, rfl, rfl⟩, by simp, fun _ => ?_⟩
          exact (by decide : mqttConnectFailed ≠ mqttConnected)
      | true =>
          rw [if_pos rfl, wp_modify_bind]
          dsimp only
          rw [onBuffer, wp_modify_bind]
          refine wp_seq (wp_writeTexts c.texts hten) (fun _ h => h) ?_
          rintro found b₃ ⟨buf, ⟨hfits, rfl, rfl, hslice⟩ | ⟨-, rfl, rfl⟩⟩
          · rw [Memory.slice_place] at hslice
            have hassembled : Ran opened b ⟨b₂.clock, { b₂.mem with nextMsgId := 1, buffer := buf }⟩ :=
              ⟨hran.clock, hran.log, hran.callback, hran.dev⟩
            have hsend : ∀ b', Ran [] ⟨b₂.clock, { b₂.mem with nextMsgId := 1, buffer := buf }⟩ b' ∨
                Ran [.wrote c.packet] ⟨b₂.clock, { b₂.mem with nextMsgId := 1, buffer := buf }⟩ b' →
                  Requests c b b' := by
              rintro b' (h | h)
              · exact ⟨opened, [], hassembled.trans h, hopened, Or.inl rfl⟩
              · exact ⟨opened, _, hassembled.trans h, hopened, Or.inr ⟨hfits, rfl⟩⟩
            refine wp_seq (wp_sendRequest hfits hslice) hsend ?_
            rintro _ b₄ ⟨hsent, hfades⟩
            have hwaiting : b₄.mem.state ≠ mqttConnected := fun h => hnot (hfades.state h)
            refine wp_mono (wp_awaitConnack hwaiting) ?_ fun _ h => (hsend _ hsent).quiet h
            rintro ok b₅ ⟨hawait, hfailed⟩
            exact ⟨(hsend _ hsent).quiet hawait, fun _ => Or.inr hfits, hfailed⟩
          · rw [wp_pure]
            exact ⟨hopen.quiet ⟨le_rfl, by simp, rfl, rfl⟩, by simp, fun _ => hnot⟩

/-! ## What a server makes of it -/

/-- What fits the buffer is well formed. -/
theorem Fits.wellFormed {c : Connect} (h : Fits c) (hqos : ∀ w ∈ c.will, w.qos ≤ 2)
    (hkeepAlive : c.keepAlive < 65536) : c.WellFormed := by
  rw [Fits, mqttMaxPacketSize] at h
  refine ⟨fun t ht => ?_, hqos, hkeepAlive, ?_⟩
  · obtain ⟨before, after, hsplit⟩ := List.append_of_mem ht
    rw [hsplit, List.flatMap_append, List.flatMap_cons, List.length_append, List.length_append,
      length_text] at h
    omega
  · rw [List.length_append]
    omega

/-- A client before its first connection. -/
def unconnected : Board (PubSubClient Unit) := ⟨0, { buffer := fun _ => 0, dev := () }⟩

end PubSubClient

end Arduino
