import Mathlib.Data.Nat.Bitwise
import Prometeus.Arduino.PubSubClient

/-! # What the operations of PubSubClient leave

Each operation extends the log by events of one kind and, except for `connect`, cannot
bring a closed connection back. Both are said by relations between the board before and
after, also when the run is cut in the middle of the operation.
-/

namespace Arduino

open Script Sketch Mqtt

namespace PubSubClient

variable {δ : Type}

/-- The device after the calls of the callback among some events. -/
def devAfter (dev : δ) (events : List (Event δ)) : δ :=
  events.foldl (fun dev event => match event with
    | .delivered delivery => delivery.dev
    | _ => dev) dev

theorem devAfter_append (dev : δ) (events more : List (Event δ)) :
    devAfter dev (events ++ more) = devAfter (devAfter dev events) more :=
  List.foldl_append

/-- The board `b'` is reached from `b` by operations that logged `events`. -/
structure Ran (events : List (Event δ)) (b b' : Board (PubSubClient δ)) : Prop where
  clock : b.clock ≤ b'.clock
  log : b'.mem.log = b.mem.log ++ events
  callback : b'.mem.callback = b.mem.callback
  dev : b'.mem.dev = devAfter b.mem.dev events

/-- Neither the connection nor the MQTT session has come up since. -/
structure Fades (b b' : Board (PubSubClient δ)) : Prop where
  up : b'.mem.link.up = true → b.mem.link.up = true
  state : b'.mem.state = mqttConnected → b.mem.state = mqttConnected

/-- The client holds a session on an open connection. -/
def Live (b : Board (PubSubClient δ)) : Prop := b.mem.link.up = true ∧ b.mem.state = mqttConnected

/-- Nothing was logged and nothing came up. -/
def Quiet (b b' : Board (PubSubClient δ)) : Prop := Ran [] b b' ∧ Fades b b'

variable {b b' b'' : Board (PubSubClient δ)} {C : Board (PubSubClient δ) → Prop}

theorem Ran.refl (b : Board (PubSubClient δ)) : Ran [] b b := ⟨le_rfl, by simp, rfl, rfl⟩

theorem Ran.trans {events more : List (Event δ)} (h : Ran events b b') (h' : Ran more b' b'') :
    Ran (events ++ more) b b'' where
  clock := h.clock.trans h'.clock
  log := by rw [h'.log, h.log, List.append_assoc]
  callback := h'.callback.trans h.callback
  dev := by rw [h'.dev, h.dev, devAfter_append]

theorem Fades.refl (b : Board (PubSubClient δ)) : Fades b b := ⟨id, id⟩

theorem Fades.trans (h : Fades b b') (h' : Fades b' b'') : Fades b b'' :=
  ⟨h.up ∘ h'.up, h.state ∘ h'.state⟩

theorem Fades.live (h : Fades b b') (hlive : Live b') : Live b := ⟨h.up hlive.1, h.state hlive.2⟩

theorem Quiet.refl (b : Board (PubSubClient δ)) : Quiet b b := ⟨Ran.refl b, Fades.refl b⟩

theorem Quiet.trans (h : Quiet b b') (h' : Quiet b' b'') : Quiet b b'' :=
  ⟨h.1.trans h'.1, h.2.trans h'.2⟩

theorem Quiet.ran {events : List (Event δ)} (h : Quiet b b') (h' : Ran events b' b'') :
    Ran events b b'' := by
  simpa using h.1.trans h'

theorem Ran.quiet {events : List (Event δ)} (h : Ran events b b') (h' : Quiet b' b'') :
    Ran events b b'' := by
  simpa using h.trans h'.1

@[simp] theorem after_up (link : Link) (answer : Answer) :
    (link.after answer).up = (link.up && !answer.drops) := rfl

/-! ## The socket -/

section Socket

variable {α : Type} {Q : α → Board (PubSubClient δ) → Prop}

@[simp] theorem wp_onLink_bind {f : Answer → Sketch (PubSubClient δ) α} :
    wp (onLink >>= f) Q C b ↔ C b ∧ ∀ answer, wp (f answer) Q C
      ⟨b.clock + answer.elapsed, { b.mem with link := b.mem.link.after answer }⟩ := by
  simp [onLink]

@[simp] theorem wp_linkConnected_bind {f : Bool → Sketch (PubSubClient δ) α} :
    wp (linkConnected >>= f) Q C b ↔ C b ∧ ∀ answer : Answer, wp (f (b.mem.link.after answer).up) Q C
      ⟨b.clock + answer.elapsed, { b.mem with link := b.mem.link.after answer }⟩ := by
  simp [linkConnected]

@[simp] theorem wp_available_bind {f : ℕ → Sketch (PubSubClient δ) α} :
    wp (available >>= f) Q C b ↔ C b ∧ ∀ answer : Answer,
      wp (f (b.mem.link.after answer).inbox.length) Q C
        ⟨b.clock + answer.elapsed, { b.mem with link := b.mem.link.after answer }⟩ := by
  simp [available]

theorem quiet_after (answer : Answer) :
    Quiet b ⟨b.clock + answer.elapsed, { b.mem with link := b.mem.link.after answer }⟩ := by
  refine ⟨⟨Nat.le_add_right _ _, by simp, rfl, rfl⟩, ?_, id⟩
  intro hup
  simp only [after_up, Bool.and_eq_true] at hup
  exact hup.1

theorem quiet_of_le {clock : ℕ} (h : b.clock ≤ clock) : Quiet b ⟨clock, b.mem⟩ :=
  ⟨⟨h, by simp, rfl, rfl⟩, id, id⟩

theorem quiet_millis (elapsed : ℕ) : Quiet b ⟨b.clock + elapsed, b.mem⟩ :=
  quiet_of_le (Nat.le_add_right _ _)

/-- A packet that is not written whole leaves the connection closed. -/
theorem wp_linkWrite {packet : Bytes} (hpacket : packet ≠ []) :
    wp (linkWrite packet) (fun written b' => Fades b b' ∧
      if written = packet.length then Ran [.wrote packet] b b'
      else Ran [] b b' ∧ b'.mem.link.up = false) (Quiet b) b := by
  rw [linkWrite, wp_onLink_bind]
  refine ⟨Quiet.refl b, fun answer => ?_⟩
  have hafter := quiet_after (b := b) answer
  rw [wp_load_bind, wp_ite]
  constructor
  · intro _
    rw [wp_modify_bind, wp_pure]
    refine ⟨⟨hafter.2.up, hafter.2.state⟩, ?_⟩
    rw [if_pos rfl]
    exact ⟨hafter.1.clock, rfl, rfl, rfl⟩
  · intro _
    rw [wp_modify_bind, wp_pure]
    have hshort : answer.number % packet.length ≠ packet.length :=
      (Nat.mod_lt _ (List.length_pos_of_ne_nil hpacket)).ne
    refine ⟨⟨fun hup => absurd hup Bool.false_ne_true, hafter.2.state⟩, ?_⟩
    rw [if_neg hshort]
    exact ⟨⟨hafter.1.clock, hafter.1.log, rfl, rfl⟩, rfl⟩

end Socket

/-! ## connected -/

theorem wp_connected :
    wp connected (fun rc b' => Quiet b b' ∧ if rc then Live b' else b'.mem.state ≠ mqttConnected)
      (Quiet b) b := by
  rw [connected, wp_linkConnected_bind]
  refine ⟨Quiet.refl b, fun answer => ?_⟩
  have hafter := quiet_after (b := b) answer
  rw [wp_load_bind, wp_ite]
  by_cases hstate : b.mem.state = mqttConnected
  · refine ⟨fun hup => ?_, fun _ => ?_⟩
    · rw [wp_pure, hstate]
      exact ⟨hafter, hup, hstate⟩
    · rw [if_pos hstate, setState, stop, wp_modify_bind, wp_modify_bind, wp_pure]
      refine ⟨⟨⟨hafter.1.clock, hafter.1.log, rfl, rfl⟩, ?_, fun _ => hstate⟩, ?_⟩
      swap
      · exact (by decide : mqttConnectionLost ≠ mqttConnected)
      intro hup
      exact absurd hup Bool.false_ne_true
  · refine ⟨fun _ => ?_, fun _ => ?_⟩
    · rw [wp_pure, beq_eq_false_iff_ne.mpr hstate]
      exact ⟨hafter, hstate⟩
    · rw [if_neg hstate, wp_pure]
      exact ⟨hafter, hstate⟩

/-! ## Writing packets -/

theorem length_lengthDigits_pos (room n : ℕ) : 0 < (lengthDigits (room + 1) n).length := by
  unfold lengthDigits
  dsimp only
  split <;> simp

theorem length_lengthDigits_le (room n : ℕ) : (lengthDigits room n).length ≤ room := by
  induction room generalizing n with
  | zero => simp [lengthDigits]
  | succ room ih =>
      unfold lengthDigits
      dsimp only
      split
      · have hrest := ih (n / 128)
        simp only [List.length_cons]
        omega
      · simp

/-- The digits are the standard's encoding, as long as there is room for them. -/
theorem lengthDigits_eq {room more n : ℕ} (hroom : n < 128 ^ room) (hmore : room ≤ more)
    (hpos : 0 < room) : lengthDigits room n = encodeLengthIn more n := by
  induction room generalizing more n with
  | zero => omega
  | succ room ih =>
      obtain ⟨more, rfl⟩ : ∃ k, more = k + 1 := ⟨more - 1, by omega⟩
      unfold lengthDigits encodeLengthIn
      dsimp only
      by_cases hsmall : n < 128
      · rw [if_neg (by omega), if_pos hsmall, Nat.mod_eq_of_lt hsmall]
      · have hrest : n / 128 < 128 ^ room := by
          rw [Nat.pow_succ] at hroom
          omega
        have hroom' : 0 < room := by
          rcases Nat.eq_zero_or_pos room with rfl | hpos'
          · simp only [Nat.pow_zero] at hrest
            omega
          · exact hpos'
        rw [if_pos (by omega), if_neg hsmall, ih hrest (Nat.le_of_succ_le_succ hmore) hroom']

theorem lengthDigits_eq_encodeLength {n : ℕ} (hn : n < 128 ^ 3) :
    lengthDigits 3 n = encodeLength n :=
  lengthDigits_eq hn (by decide) (by decide)

/-- The header is built in front of the five reserved bytes' end, right before the body. -/
theorem slice_buildHeader (header : UInt8) (length : ℕ) (buf : Memory UInt8) :
    Memory.slice (buildHeader header length buf)
      (mqttMaxHeaderSize - ((lengthDigits 3 length).length + 1))
      (length + ((lengthDigits 3 length).length + 1)) =
    header :: (lengthDigits 3 length ++ Memory.slice buf mqttMaxHeaderSize length) := by
  have hle := length_lengthDigits_le 3 length
  have hpos := length_lengthDigits_pos 2 length
  set digits := lengthDigits 3 length with hdigits
  have hbuild : buildHeader header length buf = Memory.place digits
      (mqttMaxHeaderSize - digits.length)
      (Function.update buf (4 - digits.length) header) := rfl
  have hstart : mqttMaxHeaderSize - (digits.length + 1) = 4 - digits.length := by
    simp only [mqttMaxHeaderSize]
    omega
  have hnext : 4 - digits.length + 1 = mqttMaxHeaderSize - digits.length := by
    simp only [mqttMaxHeaderSize]
    omega
  have hbody : mqttMaxHeaderSize - digits.length + digits.length = mqttMaxHeaderSize := by
    simp only [mqttMaxHeaderSize]
    omega
  have hcount : length + (digits.length + 1) = digits.length + length + 1 := by omega
  rw [hstart, hcount, Memory.slice_cons, hnext, Memory.slice_add, hbody, hbuild]
  congr 1
  · rw [Memory.place_of_lt _ _ (by omega), Function.update_self]
  · rw [Memory.slice_place, Memory.slice_place_of_disjoint _ (Or.inr hbody.le)]
    congr 1
    apply Memory.slice_congr
    intro i hi _
    simp only [mqttMaxHeaderSize] at hi
    rw [Function.update_of_ne (by omega)]

/-- `writeString` writes a text field. -/
theorem slice_writeString (string : Bytes) (pos : ℕ) (buf : Memory UInt8) :
    Memory.slice (writeString string pos buf) pos (2 + string.length) = text string := by
  have hstring : Memory.slice (writeString string pos buf) (pos + 2) string.length = string := by
    have hplace := Memory.slice_place string (pos + 2) buf
    rw [← hplace]
    rw [hplace]
    conv_rhs => rw [← hplace]
    apply Memory.slice_congr
    intro i hi _
    rw [writeString, Function.update_of_ne (by omega), Function.update_of_ne (by omega)]
  rw [Memory.slice_add, hstring]
  simp [Memory.slice, List.range_succ, writeString, text, word]

theorem writeString_of_lt (string : Bytes) {pos i : ℕ} (buf : Memory UInt8) (hi : i < pos) :
    writeString string pos buf i = buf i := by
  rw [writeString, Function.update_of_ne (by omega), Function.update_of_ne (by omega),
    Memory.place_of_lt _ _ (by omega)]

/-- `write` sends the packet whose body stands behind the reserved bytes. -/
theorem wp_write (header : UInt8) {length : ℕ} (hlength : length < 128 ^ 3) :
    wp (write header length) (fun ok b' => Fades b b' ∧
      if ok then
        Ran [.wrote (frame header (Memory.slice b.mem.buffer mqttMaxHeaderSize length))] b b'
      else Ran [] b b' ∧ b'.mem.link.up = false)
      (fun b' => Fades b b' ∧ (Ran [] b b' ∨
        Ran [.wrote (frame header (Memory.slice b.mem.buffer mqttMaxHeaderSize length))] b b')) b := by
  have hpacket : Memory.slice (buildHeader header length b.mem.buffer)
      (mqttMaxHeaderSize - ((lengthDigits 3 length).length + 1))
      (length + ((lengthDigits 3 length).length + 1)) =
      frame header (Memory.slice b.mem.buffer mqttMaxHeaderSize length) := by
    rw [slice_buildHeader, lengthDigits_eq_encodeLength hlength, frame, Memory.length_slice]
  have hbuffer : Quiet b ⟨b.clock, { b.mem with buffer := buildHeader header length b.mem.buffer }⟩ :=
    ⟨⟨le_rfl, by simp, rfl, rfl⟩, id, id⟩
  rw [write, onBuffer, wp_modify_bind, wp_load_bind]
  dsimp only
  rw [hpacket]
  refine wp_seq (wp_linkWrite (List.cons_ne_nil _ _)) ?_ ?_
  · intro b' hb'
    exact ⟨(hbuffer.trans hb').2, Or.inl (hbuffer.trans hb').1⟩
  · rintro written b' ⟨hfades, hwritten⟩
    rw [wp_millis_bind]
    have hgone := hbuffer.2.trans hfades
    by_cases hall : written = (frame header
        (Memory.slice b.mem.buffer mqttMaxHeaderSize length)).length
    · rw [if_pos hall] at hwritten
      have hran := hbuffer.ran hwritten
      refine ⟨⟨hgone, Or.inr hran⟩, fun elapsed => ?_⟩
      rw [wp_modify_bind, wp_pure, hall]
      refine ⟨⟨hgone.up, hgone.state⟩, ?_⟩
      have hcount : (frame header (Memory.slice b.mem.buffer mqttMaxHeaderSize length)).length =
          (lengthDigits 3 length).length + 1 + length := by
        rw [← hpacket, Memory.length_slice, Nat.add_comm]
      rw [hcount, beq_self_eq_true, if_pos rfl]
      exact ⟨hran.clock.trans (Nat.le_add_right _ _), hran.log, hran.callback, hran.dev⟩
    · rw [if_neg hall] at hwritten
      have hran := hbuffer.ran hwritten.1
      refine ⟨⟨hgone, Or.inl hran⟩, fun elapsed => ?_⟩
      rw [wp_modify_bind, wp_pure]
      refine ⟨⟨hgone.up, hgone.state⟩, ?_⟩
      have hcount : written ≠ (lengthDigits 3 length).length + 1 + length := by
        rw [← hpacket, Memory.length_slice, Nat.add_comm] at hall
        exact hall
      rw [beq_eq_false_iff_ne.mpr hcount, if_neg Bool.false_ne_true]
      exact ⟨⟨hran.clock.trans (Nat.le_add_right _ _), hran.log, hran.callback, hran.dev⟩,
        hwritten.2⟩

/-- The guard of `publish` is about the packet, and the largest header there may be. -/
theorem tooLong_eq_false_iff {topic payload : Bytes} :
    tooLong topic payload = false ↔ topic.length + payload.length + 7 ≤ mqttMaxPacketSize := by
  unfold tooLong mqttMaxHeaderSize
  rw [decide_eq_false_iff_not]
  unfold mqttMaxPacketSize
  omega

/-- The body that `publish` puts together. -/
theorem slice_publish (topic payload : Bytes) (buf : Memory UInt8) :
    Memory.slice (Memory.place payload (mqttMaxHeaderSize + 2 + topic.length)
      (writeString topic mqttMaxHeaderSize buf)) mqttMaxHeaderSize
      (2 + topic.length + payload.length) = text topic ++ payload := by
  have hstart : mqttMaxHeaderSize + (2 + topic.length) = mqttMaxHeaderSize + 2 + topic.length :=
    (Nat.add_assoc _ _ _).symm
  rw [Memory.slice_add, hstart, Memory.slice_place,
    Memory.slice_place_of_disjoint _ (Or.inl hstart.le), slice_writeString]

theorem quiet_onBuffer (f : Memory UInt8 → Memory UInt8) :
    Quiet b ⟨b.clock, { b.mem with buffer := f b.mem.buffer }⟩ :=
  ⟨⟨le_rfl, by simp, rfl, rfl⟩, id, id⟩

/-- `publish` either writes its PUBLISH packet or returns false. -/
theorem wp_publishBytes (topic payload : Bytes) (retained : Bool) :
    wp (publishBytes topic payload retained) (fun ok b' => Fades b b' ∧
      if ok then Ran [.wrote (Mqtt.publish retained topic payload)] b b' ∧
        tooLong topic payload = false
      else Ran [] b b')
      (fun b' => Fades b b' ∧
        (Ran [] b b' ∨ Ran [.wrote (Mqtt.publish retained topic payload)] b b')) b := by
  rw [publishBytes]
  refine wp_seq wp_connected (fun b' h => ⟨h.2, Or.inl h.1⟩) ?_
  rintro rc b₁ ⟨hquiet, -⟩
  rw [wp_ite]
  refine ⟨fun _ => ?_, fun _ => ?_⟩
  swap
  · rw [wp_pure]
    exact ⟨hquiet.2, hquiet.1⟩
  rw [wp_ite]
  refine ⟨fun _ => ?_, fun hfits => ?_⟩
  · rw [wp_pure]
    exact ⟨hquiet.2, hquiet.1⟩
  rw [Bool.not_eq_true] at hfits
  have hlength := tooLong_eq_false_iff.mp hfits
  simp only [mqttMaxPacketSize] at hlength
  rw [onBuffer, onBuffer, wp_modify_bind, wp_modify_bind]
  have hassembled := hquiet.trans (quiet_onBuffer fun buf =>
    Memory.place payload (mqttMaxHeaderSize + 2 + topic.length)
      (writeString topic mqttMaxHeaderSize buf))
  refine wp_mono (wp_write _ (by omega)) ?_ ?_
  · rintro ok b₂ ⟨hfades, hwrote⟩
    rw [slice_publish] at hwrote
    refine ⟨hassembled.2.trans hfades, ?_⟩
    cases ok with
    | false => exact hassembled.ran hwrote.1
    | true => exact ⟨hassembled.ran hwrote, hfits⟩
  · rintro b₂ ⟨hfades, hwrote⟩
    rw [slice_publish] at hwrote
    refine ⟨hassembled.2.trans hfades, ?_⟩
    rcases hwrote with hnone | hwrote
    · exact Or.inl (hassembled.ran hnone)
    · exact Or.inr (hassembled.ran hwrote)

theorem wp_publish {topic payload : Bytes} {retained : Bool}
    (hpayload : payload.length ≤ mqttMaxPacketSize) :
    wp (publish topic payload retained) (fun ok b' => Fades b b' ∧
      if ok then Ran [.wrote (Mqtt.publish retained topic payload)] b b' ∧
        tooLong topic payload = false
      else Ran [] b b')
      (fun b' => Fades b b' ∧
        (Ran [] b b' ∨ Ran [.wrote (Mqtt.publish retained topic payload)] b b')) b := by
  rw [publish, List.take_of_length_le hpayload]
  exact wp_publishBytes topic payload retained

/-- The body that `subscribe` puts together. -/
theorem slice_subscribe (id : ℕ) (topic : Bytes) (qos : UInt8) (buf : Memory UInt8) :
    Memory.slice (Function.update (writeString topic (mqttMaxHeaderSize + 2)
      (Memory.place (word id) mqttMaxHeaderSize buf)) (mqttMaxHeaderSize + 2 + 2 + topic.length) qos)
      mqttMaxHeaderSize (2 + 2 + topic.length + 1) = word id ++ (text topic ++ [qos]) := by
  have hcount : 2 + 2 + topic.length + 1 = 2 + ((2 + topic.length) + 1) := by omega
  have hlast : mqttMaxHeaderSize + 2 + (2 + topic.length) =
      mqttMaxHeaderSize + 2 + 2 + topic.length := by omega
  rw [hcount, Memory.slice_add, Memory.slice_succ _ _ (2 + topic.length), hlast,
    Function.update_self]
  congr 1
  · have hid := Memory.slice_place (word id) mqttMaxHeaderSize buf
    rw [length_word] at hid
    rw [← hid]
    apply Memory.slice_congr
    intro i _ hi
    rw [Function.update_of_ne (by omega), writeString_of_lt _ _ hi, hid]
  · congr 1
    rw [← slice_writeString]
    apply Memory.slice_congr
    intro i _ hi
    rw [Function.update_of_ne (by omega)]

/-- After `subscribe` either its SUBSCRIBE packet has been written or there is no session. -/
theorem wp_subscribe {topic : Bytes} {qos : UInt8} (hqos : ¬ 1 < qos)
    (hlength : topic.length + 9 ≤ mqttMaxPacketSize) :
    wp (subscribe topic qos) (fun _ b' => Fades b b' ∧
      ((∃ id, Ran [.wrote (Mqtt.subscribe id topic qos)] b b') ∨ (Ran [] b b' ∧ ¬ Live b')))
      (fun b' => Fades b b' ∧
        (Ran [] b b' ∨ ∃ id, Ran [.wrote (Mqtt.subscribe id topic qos)] b b')) b := by
  simp only [mqttMaxPacketSize] at hlength
  rw [subscribe, if_neg hqos, if_neg (by simp only [mqttMaxPacketSize]; omega)]
  refine wp_seq wp_connected (fun b' h => ⟨h.2, Or.inl h.1⟩) ?_
  rintro rc b₁ ⟨hquiet, hrc⟩
  rw [wp_ite]
  refine ⟨fun _ => ?_, fun hdown => ?_⟩
  swap
  · rw [wp_pure]
    rw [Bool.not_eq_true] at hdown
    rw [hdown] at hrc
    exact ⟨hquiet.2, Or.inr ⟨hquiet.1, fun hlive => hrc hlive.2⟩⟩
  rw [wp_modify_bind, wp_load_bind, onBuffer, onBuffer, onBuffer, wp_modify_bind, wp_modify_bind,
    wp_modify_bind]
  dsimp only
  generalize (if b₁.mem.nextMsgId + 1 = 0 then 1 else b₁.mem.nextMsgId + 1) = id
  have hassembled : Quiet b ⟨b₁.clock, { b₁.mem with
      nextMsgId := id
      buffer := Function.update (writeString topic (mqttMaxHeaderSize + 2)
        (Memory.place (word id.toNat) mqttMaxHeaderSize b₁.mem.buffer))
        (mqttMaxHeaderSize + 2 + 2 + topic.length) qos }⟩ :=
    hquiet.trans ⟨⟨le_rfl, by simp, rfl, rfl⟩, fun h => h, fun h => h⟩
  refine wp_mono (wp_write _ (by omega)) ?_ ?_
  · rintro ok b₂ ⟨hfades, hwrote⟩
    rw [slice_subscribe] at hwrote
    refine ⟨hassembled.2.trans hfades, ?_⟩
    cases ok with
    | false =>
        refine Or.inr ⟨hassembled.ran hwrote.1, fun hlive => ?_⟩
        exact absurd (hlive.1.symm.trans hwrote.2) (by decide)
    | true => exact Or.inl ⟨id.toNat, hassembled.ran hwrote⟩
  · rintro b₂ ⟨hfades, hwrote⟩
    rw [slice_subscribe] at hwrote
    refine ⟨hassembled.2.trans hfades, ?_⟩
    rcases hwrote with hnone | hwrote
    · exact Or.inl (hassembled.ran hnone)
    · exact Or.inr ⟨id.toNat, hassembled.ran hwrote⟩

/-! ## Reading packets -/

/-- Quiet, and the buffer is as it was. -/
def Waits (b b' : Board (PubSubClient δ)) : Prop := Quiet b b' ∧ b'.mem.buffer = b.mem.buffer

theorem Waits.refl (b : Board (PubSubClient δ)) : Waits b b := ⟨Quiet.refl b, rfl⟩

theorem Waits.trans (h : Waits b b') (h' : Waits b' b'') : Waits b b'' :=
  ⟨h.1.trans h'.1, h'.2.trans h.2⟩

theorem waits_after (answer : Answer) :
    Waits b ⟨b.clock + answer.elapsed, { b.mem with link := b.mem.link.after answer }⟩ :=
  ⟨quiet_after answer, rfl⟩

theorem waits_millis (elapsed : ℕ) : Waits b ⟨b.clock + elapsed, b.mem⟩ :=
  ⟨quiet_millis elapsed, rfl⟩

theorem wp_readByte : wp readByte (fun _ => Waits b) (Waits b) b := by
  rw [readByte, wp_millis_bind]
  refine ⟨Waits.refl b, fun elapsed => ?_⟩
  have hloop : wp (untilSome do
      if 0 < (← available) then
        pure (some true)
      else
        let currentMillis ← millis
        if UInt32.ofNat (mqttSocketTimeout * 1000) ≤
            currentMillis - UInt32.ofNat (b.clock + elapsed) then
          pure (some false)
        else
          pure none) (fun _ => Waits b) (Waits b) ⟨b.clock + elapsed, b.mem⟩ := by
    refine wp_untilSome (Waits b) (waits_millis elapsed) (fun _ h => h) ?_
    intro b₁ hwaits
    rw [wp_available_bind]
    refine ⟨hwaits, fun answer => ?_⟩
    have hafter := hwaits.trans (waits_after answer)
    rw [wp_ite]
    refine ⟨fun _ => wp_pure.mpr hafter, fun _ => ?_⟩
    rw [wp_millis_bind]
    refine ⟨hafter, fun later => ?_⟩
    have hlate := hafter.trans (waits_millis later)
    rw [wp_ite]
    exact ⟨fun _ => wp_pure.mpr hlate, fun _ => wp_pure.mpr hlate⟩
  refine wp_seq hloop (fun _ h => h) ?_
  intro arrived b₁ hwaits
  rw [wp_ite]
  refine ⟨fun _ => ?_, fun _ => wp_pure.mpr hwaits⟩
  rw [linkRead, bind_assoc, wp_load_bind, bind_assoc, wp_modify_bind, pure_bind, wp_pure]
  exact hwaits.trans ⟨⟨⟨le_rfl, by simp, rfl, rfl⟩, id, id⟩, rfl⟩

/-- Quiet, and the buffer is as it was before `pos`. -/
def Reads (pos : ℕ) (b b' : Board (PubSubClient δ)) : Prop :=
  Quiet b b' ∧ ∀ i < pos, b'.mem.buffer i = b.mem.buffer i

theorem Waits.reads {pos : ℕ} (h : Waits b b') : Reads pos b b' := ⟨h.1, fun i _ => by rw [h.2]⟩

theorem Reads.trans {pos more : ℕ} (h : Reads pos b b') (h' : Reads more b' b'')
    (hmore : pos ≤ more) : Reads pos b b'' :=
  ⟨h.1.trans h'.1, fun i hi => (h'.2 i (by omega)).trans (h.2 i hi)⟩

theorem reads_update (pos : ℕ) (byte : UInt8) :
    Reads pos b ⟨b.clock, { b.mem with buffer := Function.update b.mem.buffer pos byte }⟩ := by
  refine ⟨quiet_onBuffer fun buf => Function.update buf pos byte, fun i hi => ?_⟩
  exact Function.update_of_ne (by omega) _ _

theorem wp_readByteAt (pos : ℕ) : wp (readByteAt pos) (fun _ => Reads pos b) (Quiet b) b := by
  refine wp_seq wp_readByte (fun _ h => h.1) ?_
  intro read b₁ hwaits
  cases read with
  | none => exact wp_pure.mpr hwaits.reads
  | some byte =>
      dsimp only
      rw [onBuffer, wp_modify_bind, wp_pure]
      exact hwaits.reads.trans (reads_update pos byte) le_rfl

/-- The top bit of a length digit. -/
theorem and_128_ne_zero_iff (digit : UInt8) : digit &&& 128 ≠ 0 ↔ 128 ≤ digit.toNat := by
  have hsmall := digit.toNat_lt
  have hbit : (128 : UInt8).toNat = 2 ^ 7 := rfl
  rw [ne_eq, ← UInt8.toNat_inj, UInt8.toNat_and, hbit, Nat.and_two_pow,
    Nat.testBit_eq_decide_div_mod_eq]
  by_cases hset : digit.toNat / 2 ^ 7 % 2 = 1
  · simp only [hset, decide_true, Bool.toNat_true]
    simp
    omega
  · simp only [hset, decide_false, Bool.toNat_false]
    simp
    omega

/-- A length stands in the buffer from `start` up to `stop`: only its last byte has the top bit
clear. -/
def LengthAt (buf : Memory UInt8) (start stop : ℕ) : Prop :=
  (∀ i, start ≤ i → i < stop → 128 ≤ (buf i).toNat) ∧ (buf stop).toNat < 128

theorem wp_readLength {room : ℕ} (hroom : room ≤ 4) (length multiplier : ℕ) :
    wp (readLength room length multiplier) (fun read b' => Reads (5 - room) b b' ∧
      ∀ len length', read = some (len, length') →
        ∃ stop, len = stop + 1 ∧ 5 - room ≤ stop ∧ stop ≤ 4 ∧
          LengthAt b'.mem.buffer (5 - room) stop)
      (Quiet b) b := by
  induction room generalizing b length multiplier with
  | zero =>
      rw [readLength, setState, stop, wp_modify_bind, wp_modify_bind, wp_pure]
      refine ⟨⟨⟨⟨le_rfl, by simp, rfl, rfl⟩, ?_, ?_⟩, fun _ _ => rfl⟩, by simp⟩
      · intro hup
        exact absurd hup Bool.false_ne_true
      · intro hstate
        exact absurd hstate (by decide : mqttDisconnected ≠ mqttConnected)
  | succ room ih =>
      rw [readLength]
      refine wp_seq wp_readByte (fun _ h => h.1) ?_
      intro read b₁ hwaits
      have hpos : 4 - room = 5 - (room + 1) := by omega
      cases read with
      | none =>
          rw [wp_pure]
          exact ⟨hwaits.reads, by simp⟩
      | some digit =>
          dsimp only
          rw [onBuffer, wp_modify_bind, hpos]
          have hread := (hwaits.reads).trans (reads_update (5 - (room + 1)) digit) le_rfl
          have hself : Function.update b₁.mem.buffer (5 - (room + 1)) digit (5 - (room + 1)) = digit :=
            Function.update_self _ _ _
          rw [wp_ite]
          refine ⟨fun hmore => ?_, fun hlast => ?_⟩
          · rw [and_128_ne_zero_iff] at hmore
            refine wp_mono (ih (by omega) _ _) ?_ (fun _ h => hread.1.trans h)
            rintro read b₂ ⟨hrest, hlength⟩
            refine ⟨hread.trans hrest (by omega), ?_⟩
            intro len length' hsome
            obtain ⟨stop, hstop, hle, hroom', hdigits⟩ := hlength len length' hsome
            refine ⟨stop, hstop, by omega, hroom', ?_, hdigits.2⟩
            intro i hlow hhigh
            by_cases hfirst : i = 5 - (room + 1)
            · rw [hrest.2 i (by omega), hfirst]
              dsimp only
              rw [hself]
              exact hmore
            · exact hdigits.1 i (by omega) hhigh
          · rw [and_128_ne_zero_iff] at hlast
            rw [wp_pure]
            refine ⟨hread, ?_⟩
            intro len length' hsome
            simp only [Option.some.injEq, Prod.mk.injEq] at hsome
            refine ⟨5 - (room + 1), hsome.1.symm, le_rfl, by omega, ?_, ?_⟩
            · intro i hlow hhigh
              omega
            · dsimp only
              rw [hself]
              omega

theorem LengthAt.congr {buf buf' : Memory UInt8} {start stop : ℕ} (h : LengthAt buf start stop)
    (heq : ∀ i ≤ stop, buf' i = buf i) : LengthAt buf' start stop := by
  refine ⟨fun i hlow hhigh => ?_, ?_⟩
  · rw [heq i hhigh.le]
    exact h.1 i hlow hhigh
  · rw [heq stop le_rfl]
    exact h.2

theorem wp_readRest (n len idx : ℕ) :
    wp (readRest n len idx) (fun read b' => Reads len b b' ∧
      ∀ len' idx', read = some (len', idx') → len ≤ len' ∧ len' ≤ max len mqttMaxPacketSize)
      (Quiet b) b := by
  induction n generalizing b len idx with
  | zero =>
      rw [readRest, wp_pure]
      refine ⟨(Waits.refl b).reads, fun len' idx' hsome => ?_⟩
      simp only [Option.some.injEq, Prod.mk.injEq] at hsome
      exact ⟨hsome.1.le, hsome.1 ▸ le_max_left _ _⟩
  | succ n ih =>
      rw [readRest]
      refine wp_seq wp_readByte (fun _ h => h.1) ?_
      intro read b₁ hwaits
      cases read with
      | none =>
          rw [wp_pure]
          exact ⟨hwaits.reads, by simp⟩
      | some digit =>
          dsimp only
          rw [wp_ite]
          refine ⟨fun hroom => ?_, fun _ => ?_⟩
          · rw [onBuffer, wp_modify_bind]
            have hread := (hwaits.reads).trans (reads_update len digit) le_rfl
            refine wp_mono (ih _ _) ?_ (fun _ h => hread.1.trans h)
            rintro read b₂ ⟨hrest, hlen⟩
            refine ⟨hread.trans hrest (Nat.le_succ len), fun len' idx' hsome => ?_⟩
            obtain ⟨hlow, hhigh⟩ := hlen len' idx' hsome
            exact ⟨by omega, by omega⟩
          · refine wp_mono (ih _ _) ?_ (fun _ h => hwaits.1.trans h)
            rintro read b₂ ⟨hrest, hlen⟩
            exact ⟨hwaits.reads.trans hrest le_rfl, hlen⟩

theorem wp_readTopicLength (isPublish : Bool) (pos : ℕ) :
    wp (readTopicLength isPublish pos) (fun _ => Reads pos b) (Quiet b) b := by
  cases isPublish with
  | false =>
      rw [readTopicLength, if_neg Bool.false_ne_true, wp_pure]
      exact (Waits.refl b).reads
  | true =>
      rw [readTopicLength, if_pos rfl]
      refine wp_seq (wp_readByteAt pos) (fun _ h => h) ?_
      intro read b₁ hread
      rw [wp_ite]
      refine ⟨fun _ => ?_, fun _ => wp_pure.mpr hread⟩
      exact wp_mono (wp_readByteAt (pos + 1)) (fun _ _ h => hread.trans h (Nat.le_succ pos))
        (fun _ h => hread.1.trans h)

theorem wp_readBody {pos : ℕ} (hpos : pos ≤ 5) (length : ℕ) :
    wp (readBody pos length) (fun read b' => Reads pos b b' ∧
      (0 < read → pos ≤ read ∧ read ≤ mqttMaxPacketSize)) (Quiet b) b := by
  rw [readBody, wp_load_bind]
  refine wp_seq (wp_readTopicLength _ pos) (fun _ h => h) ?_
  intro begun b₁ hread
  rw [wp_ite]
  refine ⟨fun _ => ?_, fun _ => ?_⟩
  swap
  · rw [wp_pure]
    exact ⟨hread, by simp⟩
  dsimp only
  generalize hstart : (if (b.mem.buffer 0 &&& 0xF0 == publishType) = true then 2 else 0) = start
  have hstart' : start ≤ 2 := by
    rw [← hstart]
    split <;> omega
  refine wp_seq (wp_readRest _ _ _) (fun _ h => hread.1.trans h) ?_
  rintro read b₂ ⟨hrest, hlen⟩
  have hall := hread.trans hrest (Nat.le_add_right pos start)
  cases read with
  | none =>
      rw [wp_pure]
      exact ⟨hall, by simp⟩
  | some pair =>
      obtain ⟨len, idx⟩ := pair
      dsimp only
      rw [wp_pure]
      refine ⟨hall, fun hpositive => ?_⟩
      obtain ⟨hlow, hhigh⟩ := hlen len idx rfl
      by_cases hbig : mqttMaxPacketSize < idx
      · rw [if_pos hbig] at hpositive
        exact absurd hpositive (Nat.lt_irrefl 0)
      · rw [if_neg hbig]
        refine ⟨by omega, hhigh.trans (max_le ?_ le_rfl)⟩
        simp only [mqttMaxPacketSize]
        omega

/-- What `readPacket` leaves in the buffer: a length in `llen` bytes behind the header, in a
packet of `len` bytes. -/
structure PacketAt (buf : Memory UInt8) (llen len : ℕ) : Prop where
  pos : 1 ≤ llen
  lt : llen < len
  le : len ≤ mqttMaxPacketSize
  length : LengthAt buf 1 llen

theorem wp_readPacket :
    wp readPacket (fun read b' => Quiet b b' ∧ (0 < read.1 → PacketAt b'.mem.buffer read.2 read.1))
      (Quiet b) b := by
  rw [readPacket]
  refine wp_seq (wp_readByteAt 0) (fun _ h => h) ?_
  intro read b₁ hfirst
  rw [wp_ite]
  refine ⟨fun _ => ?_, fun _ => ?_⟩
  swap
  · rw [wp_pure]
    exact ⟨hfirst.1, by simp⟩
  refine wp_seq (wp_readLength le_rfl 0 1) (fun _ h => hfirst.1.trans h) ?_
  rintro read b₂ ⟨hlength, hdigits⟩
  cases read with
  | none =>
      rw [wp_pure]
      exact ⟨hfirst.1.trans hlength.1, by simp⟩
  | some pair =>
      obtain ⟨len, length⟩ := pair
      dsimp only
      obtain ⟨stop, hstop, hlow, hroom, hat⟩ := hdigits len length rfl
      refine wp_seq (wp_readBody (by omega) _) (fun _ h => (hfirst.1.trans hlength.1).trans h) ?_
      rintro read b₃ ⟨hbody, hread⟩
      rw [wp_pure]
      refine ⟨(hfirst.1.trans hlength.1).trans hbody.1, fun hpositive => ?_⟩
      obtain ⟨hle, hmax⟩ := hread hpositive
      dsimp only
      rw [hstop, Nat.add_sub_cancel]
      refine ⟨hlow, by omega, hmax, hat.congr fun i hi => hbody.2 i (by omega)⟩

/-! ## Connecting -/

/-- Events of establishing a session: opened connections and CONNECT packets. -/
def Connecting (events : List (Event δ)) : Prop :=
  ∀ event ∈ events, event = .opened ∨ ∃ rest, event = .wrote (connectType :: rest)

theorem Connecting.nil : Connecting ([] : List (Event δ)) := by simp [Connecting]

theorem Connecting.append {events more : List (Event δ)} (h : Connecting events)
    (h' : Connecting more) : Connecting (events ++ more) := by
  intro event hmem
  rcases List.mem_append.mp hmem with hmem | hmem
  · exact h event hmem
  · exact h' event hmem

theorem wp_openLink :
    wp openLink (fun _ b' => (∃ events, Ran events b b' ∧ Connecting events) ∧
      (b'.mem.state = mqttConnected → b.mem.state = mqttConnected)) (Ran [] b) b := by
  rw [openLink, wp_linkConnected_bind]
  refine ⟨Ran.refl b, fun answer => ?_⟩
  have hafter := quiet_after (b := b) answer
  rw [wp_ite]
  refine ⟨fun _ => ?_, fun _ => ?_⟩
  · rw [wp_pure]
    exact ⟨⟨[], hafter.1, Connecting.nil⟩, hafter.2.state⟩
  · rw [linkConnect, wp_call_bind]
    refine ⟨hafter.1, fun reply => ?_⟩
    have hclock : b.clock ≤ b.clock + answer.elapsed + reply.elapsed := by omega
    rw [wp_ite]
    refine ⟨fun _ => ?_, fun _ => ?_⟩
    · rw [wp_modify_bind, wp_pure]
      refine ⟨⟨[.opened], ⟨hclock, rfl, rfl, rfl⟩, ?_⟩, fun h => h⟩
      intro event hmem
      exact Or.inl (List.mem_singleton.mp hmem)
    · rw [wp_pure]
      exact ⟨⟨[], ⟨hclock, by simp, rfl, rfl⟩, Connecting.nil⟩, fun h => h⟩

theorem wp_awaitConnack (hstate : b.mem.state ≠ mqttConnected) :
    wp awaitConnack (fun ok b' => Ran [] b b' ∧ (ok = false → b'.mem.state ≠ mqttConnected))
      (Ran [] b) b := by
  have hloop : wp (untilSome do
      if 0 < (← available) then
        pure (some true)
      else
        let t ← millis
        let c ← load
        if UInt32.ofNat (mqttSocketTimeout * 1000) ≤ t - c.lastInActivity then
          pure (some false)
        else
          pure none) (fun _ => Quiet b) (Quiet b) b := by
    refine wp_untilSome (Quiet b) (Quiet.refl b) (fun _ h => h) ?_
    intro b₁ hquiet
    rw [wp_available_bind]
    refine ⟨hquiet, fun answer => ?_⟩
    have hafter := hquiet.trans (quiet_after answer)
    rw [wp_ite]
    refine ⟨fun _ => wp_pure.mpr hafter, fun _ => ?_⟩
    rw [wp_millis_bind]
    refine ⟨hafter, fun later => ?_⟩
    have hlate := hafter.trans (quiet_millis later)
    rw [wp_load_bind, wp_ite]
    exact ⟨fun _ => wp_pure.mpr hlate, fun _ => wp_pure.mpr hlate⟩
  rw [awaitConnack]
  refine wp_seq hloop (fun _ h => h.1) ?_
  intro answered b₁ hwaited
  rw [wp_ite]
  refine ⟨fun _ => ?_, fun _ => ?_⟩
  swap
  · rw [setState, stop, wp_modify_bind, wp_modify_bind, wp_pure]
    refine ⟨⟨hwaited.1.clock, hwaited.1.log, hwaited.1.callback, hwaited.1.dev⟩, fun _ => ?_⟩
    exact (by decide : mqttConnectionTimeout ≠ mqttConnected)
  refine wp_seq wp_readPacket (fun _ h => (hwaited.trans h).1) ?_
  rintro ⟨len, llen⟩ b₂ ⟨hread, -⟩
  have hquiet := hwaited.trans hread
  dsimp only
  rw [wp_load_bind, wp_ite]
  refine ⟨fun _ => ?_, fun hrefused => ?_⟩
  · rw [wp_millis_bind]
    refine ⟨hquiet.1, fun elapsed => ?_⟩
    rw [wp_modify_bind, wp_pure]
    exact ⟨⟨hquiet.1.clock.trans (Nat.le_add_right _ _), hquiet.1.log, hquiet.1.callback,
      hquiet.1.dev⟩, by simp⟩
  · rw [stop, wp_ite]
    refine ⟨fun hfour => ?_, fun _ => ?_⟩
    · -- the broker refused with a nonzero return code
      rw [setState, wp_modify_bind, wp_modify_bind, wp_pure]
      refine ⟨⟨hquiet.1.clock, hquiet.1.log, hquiet.1.callback, hquiet.1.dev⟩, fun _ => ?_⟩
      intro hzero
      apply hrefused
      refine ⟨hfour, ?_⟩
      rw [← UInt8.toNat_inj]
      simp only [mqttConnected] at hzero
      exact_mod_cast hzero
    · rw [wp_modify_bind, wp_pure]
      refine ⟨⟨hquiet.1.clock, hquiet.1.log, hquiet.1.callback, hquiet.1.dev⟩, fun _ => ?_⟩
      exact fun hconnected => hstate (hquiet.2.state hconnected)

theorem wp_sendConnect {id : Bytes} (hid : id.length ≤ mqttMaxPacketSize) :
    wp (sendConnect id) (fun _ b' => (∃ events, Ran events b b' ∧ Connecting events) ∧ Fades b b')
      (fun b' => ∃ events, Ran events b b' ∧ Connecting events) b := by
  simp only [mqttMaxPacketSize] at hid
  have hconnecting : ∀ body : Bytes, Connecting (δ := δ) [.wrote (frame connectType body)] := by
    intro body event hmem
    exact Or.inr ⟨_, List.mem_singleton.mp hmem⟩
  have hlength : mqttMaxHeaderSize + connectHeader.length + 2 + id.length - mqttMaxHeaderSize <
      128 ^ 3 := by
    simp only [mqttMaxHeaderSize, connectHeader, List.length_append, List.length_cons,
      List.length_nil, length_word]
    omega
  rw [sendConnect, onBuffer, wp_modify_bind]
  have hassembled := quiet_onBuffer (b := b) (writeString id (mqttMaxHeaderSize + connectHeader.length))
  refine wp_seq (wp_write connectType hlength) ?_ ?_
  · rintro b₁ ⟨-, hnone | hsent⟩
    · exact ⟨[], hassembled.ran hnone, Connecting.nil⟩
    · exact ⟨_, hassembled.ran hsent, hconnecting _⟩
  rintro ok b₁ ⟨hfades, hsent⟩
  have hran : ∃ events, Ran events b b₁ ∧ Connecting events := by
    cases ok with
    | false => exact ⟨[], hassembled.ran hsent.1, Connecting.nil⟩
    | true => exact ⟨_, hassembled.ran hsent, hconnecting _⟩
  rw [wp_millis_bind]
  refine ⟨hran, fun elapsed => ?_⟩
  rw [wp_modify]
  obtain ⟨events, hran, hconnecting⟩ := hran
  refine ⟨⟨events, ?_, hconnecting⟩, hfades.up, hfades.state⟩
  exact ⟨hran.clock.trans (Nat.le_add_right _ _), hran.log, hran.callback, hran.dev⟩

/-- `connect` logs opened connections and CONNECT packets; when it fails there is no session. -/
theorem wp_connect (id : Bytes) :
    wp (connect id) (fun ok b' => (∃ events, Ran events b b' ∧ Connecting events) ∧
      (ok = false → b'.mem.state ≠ mqttConnected))
      (fun b' => ∃ events, Ran events b b' ∧ Connecting events) b := by
  rw [connect]
  refine wp_seq wp_connected (fun _ h => ⟨[], h.1, Connecting.nil⟩) ?_
  rintro rc b₁ ⟨hquiet, hrc⟩
  rw [wp_ite]
  refine ⟨fun _ => ?_, fun hdown => ?_⟩
  · rw [wp_pure]
    exact ⟨⟨[], hquiet.1, Connecting.nil⟩, by simp⟩
  rw [Bool.not_eq_true] at hdown
  rw [hdown, if_neg Bool.false_ne_true] at hrc
  refine wp_seq wp_openLink (fun _ h => ⟨[], hquiet.ran h, Connecting.nil⟩) ?_
  rintro result b₂ ⟨⟨events, hopened, hconnecting⟩, hstate⟩
  have hran := hquiet.ran hopened
  have hnot : b₂.mem.state ≠ mqttConnected := fun h => hrc (hstate h)
  rw [wp_ite]
  refine ⟨fun _ => ?_, fun _ => ?_⟩
  swap
  · rw [setState, wp_modify_bind, wp_pure]
    refine ⟨⟨events, ⟨hran.clock, hran.log, hran.callback, hran.dev⟩, hconnecting⟩, fun _ => ?_⟩
    exact (by decide : mqttConnectFailed ≠ mqttConnected)
  rw [wp_modify_bind, onBuffer, wp_modify_bind, wp_ite]
  refine ⟨fun _ => ?_, fun hlength => ?_⟩
  · rw [stop, wp_modify_bind, wp_pure]
    exact ⟨⟨events, ⟨hran.clock, hran.log, hran.callback, hran.dev⟩, hconnecting⟩, fun _ => hnot⟩
  have hid : id.length ≤ mqttMaxPacketSize := by
    simp only [mqttMaxPacketSize] at hlength ⊢
    omega
  refine wp_seq (wp_sendConnect hid) ?_ ?_
  · rintro b₃ ⟨sent, hsent, hconnecting'⟩
    exact ⟨events ++ sent, hran.trans ⟨hsent.clock, hsent.log, hsent.callback, hsent.dev⟩,
      hconnecting.append hconnecting'⟩
  rintro _ b₃ ⟨⟨sent, hsent, hconnecting'⟩, hfades⟩
  have hran' : Ran (events ++ sent) b b₃ :=
    hran.trans ⟨hsent.clock, hsent.log, hsent.callback, hsent.dev⟩
  have hwaiting := hconnecting.append hconnecting'
  refine wp_mono (wp_awaitConnack fun h => hnot (hfades.state h)) ?_ ?_
  · rintro ok b₄ ⟨hawait, hfailed⟩
    exact ⟨⟨events ++ sent, by simpa using hran'.trans hawait, hwaiting⟩, hfailed⟩
  · intro b₄ hawait
    exact ⟨events ++ sent, by simpa using hran'.trans hawait, hwaiting⟩

/-! ## Servicing the link -/

/-- Where the payload begins, behind the message identifier if there is one. -/
def payloadAt (buf : Memory UInt8) (llen : ℕ) : ℕ :=
  llen + 3 + topicLength buf llen + if topicMoved buf llen 0 &&& 0x06 = 0x02 then 2 else 0

/-- The call of the callback for the packet of `len` bytes in a buffer. -/
def callFor (callback : Callback δ) (buf : Memory UInt8) (llen len : ℕ) (dev : δ) : Delivery δ :=
  let length := (UInt32.ofNat len - UInt32.ofNat (payloadAt buf llen)).toNat
  let topic := Memory.slice (topicMoved buf llen) (llen + 2) (topicLength buf llen)
  let h := (callback topic length ⟨fun i => topicMoved buf llen (payloadAt buf llen + i), [], dev⟩).2
  ⟨Memory.slice buf 0 len, length, h.reads, h.dev⟩

/-- A packet that neither begins a session, nor subscribes, nor publishes. -/
def Upkeep (packet : Bytes) : Prop :=
  ∃ header rest, packet = header :: rest ∧ packetType header ≠ connectType ∧
    packetType header ≠ subscribeType ∧ packetType header ≠ publishType

/-- Events of servicing the link. -/
def Serving (callback : Option (Callback δ)) (events : List (Event δ)) : Prop :=
  ∀ event ∈ events, match event with
    | .opened | .resumed => False
    | .wrote packet => Upkeep packet
    | .serviced _ => True
    | .delivered delivery => ∃ f buf llen len dev, callback = some f ∧ PacketAt buf llen len ∧
        delivery = callFor f buf llen len dev

theorem Serving.nil {callback : Option (Callback δ)} : Serving callback [] := by simp [Serving]

/-- The board `b'` is reached from `b` by servicing the link. -/
def Serves (b b' : Board (PubSubClient δ)) : Prop :=
  (∃ events, Ran events b b' ∧ Serving b.mem.callback events) ∧ Fades b b'

theorem Quiet.serves (h : Quiet b b') : Serves b b' := ⟨⟨[], h.1, Serving.nil⟩, h.2⟩

theorem Serves.trans (h : Serves b b') (h' : Serves b' b'') : Serves b b'' := by
  obtain ⟨⟨events, hran, hserving⟩, hfades⟩ := h
  obtain ⟨⟨more, hran', hserving'⟩, hfades'⟩ := h'
  refine ⟨⟨events ++ more, hran.trans hran', ?_⟩, hfades.trans hfades'⟩
  intro event hmem
  rcases List.mem_append.mp hmem with hmem | hmem
  · exact hserving event hmem
  · rw [← hran.callback]
    exact hserving' event hmem

theorem wp_linkWrite_upkeep {packet : Bytes} (hpacket : Upkeep packet) :
    wp (linkWrite packet) (fun _ => Serves b) (Serves b) b := by
  have hne : packet ≠ [] := by
    obtain ⟨header, rest, rfl, _⟩ := hpacket
    exact List.cons_ne_nil _ _
  refine wp_mono (wp_linkWrite hne) ?_ (fun _ h => h.serves)
  rintro written b₁ ⟨hfades, hwritten⟩
  by_cases hall : written = packet.length
  · rw [if_pos hall] at hwritten
    refine ⟨⟨_, hwritten, ?_⟩, hfades⟩
    intro event hmem
    rw [List.mem_singleton.mp hmem]
    exact hpacket
  · rw [if_neg hall] at hwritten
    exact ⟨⟨[], hwritten.1, Serving.nil⟩, hfades⟩

theorem upkeep_pingReq : Upkeep [0xC0, 0] := ⟨0xC0, [0], rfl, by decide, by decide, by decide⟩

theorem upkeep_pingResp : Upkeep [0xD0, 0] := ⟨0xD0, [0], rfl, by decide, by decide, by decide⟩

theorem upkeep_pubAck (rest : Bytes) : Upkeep (0x40 :: rest) :=
  ⟨0x40, rest, rfl, by decide, by decide, by decide⟩

theorem wp_keepAlive (t : UInt32) : wp (keepAlive t) (fun _ => Serves b) (Serves b) b := by
  have hstay := (Quiet.refl b).serves
  rw [keepAlive, wp_load_bind, wp_ite]
  refine ⟨fun _ => ?_, fun _ => wp_pure.mpr hstay⟩
  rw [wp_ite]
  refine ⟨fun _ => ?_, fun _ => ?_⟩
  · rw [setState, stop, wp_modify_bind, wp_modify_bind, wp_pure]
    refine ⟨⟨[], ⟨le_rfl, by simp, rfl, rfl⟩, Serving.nil⟩, ?_, ?_⟩
    · intro hup
      exact absurd hup Bool.false_ne_true
    · intro hstate
      exact absurd hstate (by decide : mqttConnectionTimeout ≠ mqttConnected)
  · rw [onBuffer, wp_modify_bind]
    have hping := (quiet_onBuffer (b := b) (Memory.place [0xC0, 0] 0)).serves
    refine wp_seq (wp_linkWrite_upkeep upkeep_pingReq) (fun _ h => hping.trans h) ?_
    intro _ b₁ hserves
    rw [wp_modify_bind, wp_pure]
    refine hping.trans (hserves.trans (Quiet.serves ⟨⟨le_rfl, by simp, rfl, rfl⟩, ?_, ?_⟩))
    · exact fun h => h
    · exact fun h => h

/-- The callback, called on the packet whose topic has just been moved. -/
theorem wp_callBack {callback : Callback δ} {llen len : ℕ} {Q : Unit → Board (PubSubClient δ) → Prop}
    (hcallback : b.mem.callback = some callback) (hpacket : PacketAt b.mem.buffer llen len)
    (hnext : ∀ b', Serves b b' → Q () b') :
    wp (callBack callback (Memory.slice b.mem.buffer 0 len)
      (Memory.slice (topicMoved b.mem.buffer llen) (llen + 2) (topicLength b.mem.buffer llen))
      (payloadAt b.mem.buffer llen)
      (UInt32.ofNat len - UInt32.ofNat (payloadAt b.mem.buffer llen)).toNat) Q C
      ⟨b.clock, { b.mem with buffer := topicMoved b.mem.buffer llen }⟩ := by
  rw [callBack, wp_modify]
  apply hnext
  refine ⟨⟨[.delivered (callFor callback b.mem.buffer llen len b.mem.dev)],
    ⟨le_rfl, rfl, rfl, rfl⟩, ?_⟩, fun h => h, fun h => h⟩
  intro event hmem
  rw [List.mem_singleton.mp hmem]
  exact ⟨callback, b.mem.buffer, llen, len, b.mem.dev, hcallback, hpacket, rfl⟩

theorem wp_deliver {callback : Callback δ} {llen len : ℕ} (t : UInt32)
    (hcallback : b.mem.callback = some callback) (hpacket : PacketAt b.mem.buffer llen len) :
    wp (deliver callback llen len t) (fun _ => Serves b) (Serves b) b := by
  rw [deliver, wp_load_bind]
  dsimp only
  rw [onBuffer, wp_modify_bind, wp_load_bind, wp_ite]
  refine ⟨fun hqos => ?_, fun hqos => ?_⟩
  · change topicMoved b.mem.buffer llen 0 &&& 0x06 = 0x02 at hqos
    have hpayload : payloadAt b.mem.buffer llen =
        llen + 3 + topicLength b.mem.buffer llen + 2 := by
      rw [payloadAt, if_pos hqos]
    have hcall := wp_callBack (C := Serves b) (Q := fun _ => Serves b) hcallback hpacket
      (fun _ h => h)
    rw [hpayload] at hcall
    refine wp_seq hcall (fun _ h => h) ?_
    intro _ b₁ hserves
    dsimp only
    rw [onBuffer, wp_modify_bind]
    have hbuffer := fun f => hserves.trans (quiet_onBuffer (b := b₁) f).serves
    refine wp_seq (wp_linkWrite_upkeep (upkeep_pubAck _)) (fun _ h => (hbuffer _).trans h) ?_
    intro _ b₂ hwritten
    rw [wp_modify]
    exact (hbuffer _).trans (hwritten.trans
      (Quiet.serves ⟨⟨le_rfl, by simp, rfl, rfl⟩, fun h => h, fun h => h⟩))
  · change ¬ topicMoved b.mem.buffer llen 0 &&& 0x06 = 0x02 at hqos
    have hpayload : payloadAt b.mem.buffer llen = llen + 3 + topicLength b.mem.buffer llen := by
      rw [payloadAt, if_neg hqos, Nat.add_zero]
    have hcall := wp_callBack (C := Serves b) (Q := fun _ => Serves b) hcallback hpacket
      (fun _ h => h)
    rw [hpayload] at hcall
    exact hcall

theorem wp_dispatch {llen len : ℕ} (t : UInt32) (hpacket : PacketAt b.mem.buffer llen len) :
    wp (dispatch llen len t) (fun _ => Serves b) (Serves b) b := by
  have hstay := (Quiet.refl b).serves
  rw [dispatch, wp_load_bind]
  dsimp only
  rw [wp_ite]
  refine ⟨fun _ => ?_, fun _ => ?_⟩
  · cases hcallback : b.mem.callback with
    | none => exact wp_pure.mpr hstay
    | some callback => exact wp_deliver t hcallback hpacket
  rw [wp_ite]
  refine ⟨fun _ => ?_, fun _ => ?_⟩
  · rw [onBuffer, wp_modify_bind]
    have hresp := (quiet_onBuffer (b := b) (Memory.place [0xD0, 0] 0)).serves
    refine wp_seq (wp_linkWrite_upkeep upkeep_pingResp) (fun _ h => hresp.trans h) ?_
    intro _ b₁ hwritten
    rw [wp_pure]
    exact hresp.trans hwritten
  rw [wp_ite]
  refine ⟨fun _ => ?_, fun _ => wp_pure.mpr hstay⟩
  rw [wp_modify]
  exact Quiet.serves ⟨⟨le_rfl, by simp, rfl, rfl⟩, fun h => h, fun h => h⟩

theorem wp_service {llen len : ℕ} (t : UInt32) (hpacket : PacketAt b.mem.buffer llen len) :
    wp (service llen len t) (fun _ => Serves b) (Serves b) b := by
  have hserviced : Serves b ⟨b.clock, { b.mem with
      lastInActivity := t
      log := b.mem.log ++ [.serviced (Memory.slice b.mem.buffer 0 len)] }⟩ := by
    refine ⟨⟨[.serviced (Memory.slice b.mem.buffer 0 len)], ⟨le_rfl, rfl, rfl, rfl⟩, ?_⟩,
      fun h => h, fun h => h⟩
    intro event hmem
    rw [List.mem_singleton.mp hmem]
    trivial
  rw [service, wp_modify_bind]
  exact wp_mono (wp_dispatch t hpacket) (fun _ _ h => hserviced.trans h)
    (fun _ h => hserviced.trans h)

/-- `loop` services the link, and only when it finds a session. -/
theorem wp_loop :
    wp loop (fun _ b' => Serves b b' ∧ (b'.mem.log ≠ b.mem.log → Live b))
      (fun b' => Serves b b' ∧ (b'.mem.log ≠ b.mem.log → Live b)) b := by
  have hquiet : ∀ b', Quiet b b' → Serves b b' ∧ (b'.mem.log ≠ b.mem.log → Live b) := by
    intro b' h
    refine ⟨h.serves, fun hlog => absurd ?_ hlog⟩
    rw [h.1.log, List.append_nil]
  rw [loop]
  refine wp_seq wp_connected (fun _ h => hquiet _ h) ?_
  rintro rc b₁ ⟨hfound, hrc⟩
  rw [wp_ite]
  refine ⟨fun hup => ?_, fun _ => wp_pure.mpr (hquiet _ hfound)⟩
  rw [if_pos hup] at hrc
  have hlive := hfound.2.live hrc
  have hserved : ∀ b', Serves b b' → Serves b b' ∧ (b'.mem.log ≠ b.mem.log → Live b) :=
    fun b' h => ⟨h, fun _ => hlive⟩
  rw [wp_millis_bind]
  refine ⟨hquiet _ hfound, fun elapsed => ?_⟩
  have hstart := (hfound.trans (quiet_millis elapsed)).serves
  refine wp_seq (wp_keepAlive _) (fun _ h => hserved _ (hstart.trans h)) ?_
  intro alive b₂ hkept
  rw [wp_ite]
  refine ⟨fun _ => ?_, fun _ => wp_pure.mpr (hserved _ (hstart.trans hkept))⟩
  rw [wp_available_bind]
  refine ⟨hserved _ (hstart.trans hkept), fun answer => ?_⟩
  have hready := (hstart.trans hkept).trans (quiet_after answer).serves
  rw [wp_ite]
  refine ⟨fun _ => ?_, fun _ => wp_pure.mpr (hserved _ hready)⟩
  refine wp_seq wp_readPacket (fun _ h => hserved _ (hready.trans h.serves)) ?_
  rintro ⟨len, llen⟩ b₃ ⟨hread, hpacket⟩
  have hread := hready.trans hread.serves
  dsimp only
  rw [wp_ite]
  refine ⟨fun hpositive => ?_, fun _ => ?_⟩
  · refine wp_seq (wp_service _ (hpacket hpositive)) (fun _ h => hserved _ (hread.trans h)) ?_
    intro _ b₄ hserviced
    rw [wp_pure]
    exact hserved _ (hread.trans hserviced)
  · exact wp_mono wp_connected (fun _ _ h => hserved _ (hread.trans h.1.serves))
      (fun _ h => hserved _ (hread.trans h.serves))

/-! ## Delivered messages -/

/-- The end of a length is where the bytes say it is. -/
theorem LengthAt.unique {buf : Memory UInt8} {start stop stop' : ℕ} (h : LengthAt buf start stop)
    (h' : LengthAt buf start stop') (hle : start ≤ stop) (hle' : start ≤ stop') : stop = stop' := by
  rcases Nat.lt_trichotomy stop stop' with hlt | heq | hgt
  · exact absurd (h'.1 stop hle hlt) (Nat.not_le.mpr h.2)
  · exact heq
  · exact absurd (h.1 stop' hle' hgt) (Nat.not_le.mpr h'.2)

/-- The length digits of a packet that fits into the buffer end where its body begins. -/
theorem lengthAt_of_slice {buf : Memory UInt8} {header : UInt8} {body : Bytes} {len : ℕ}
    (hpacket : Memory.slice buf 0 len = frame header body) (hlen : len ≤ mqttMaxPacketSize) :
    LengthAt buf 1 (encodeLength body.length).length := by
  have hcount : len = (encodeLength body.length).length + body.length + 1 := by
    have hlength := congrArg List.length hpacket
    simpa [frame] using hlength
  have hbyte : ∀ i, i < (encodeLength body.length).length →
      some (buf (i + 1)) = (encodeLength body.length)[i]? := by
    intro i hi
    have hget := congrArg (·[i + 1]?) hpacket
    simp only [frame, List.getElem?_cons_succ] at hget
    rw [Memory.getElem?_slice (by omega), List.getElem?_append_left hi, Nat.zero_add] at hget
    exact hget
  simp only [mqttMaxPacketSize] at hlen
  by_cases hsmall : body.length < 128
  · rw [encodeLength_of_lt hsmall] at hbyte ⊢
    have hfirst := hbyte 0 (by simp)
    simp only [List.getElem?_cons_zero, Option.some.injEq] at hfirst
    refine ⟨fun i hlow hhigh => ?_, ?_⟩
    · simp only [List.length_cons, List.length_nil] at hhigh
      omega
    · change (buf 1).toNat < 128
      rw [hfirst, UInt8.toNat_ofNat']
      omega
  · have hlarge : body.length < 16384 := by omega
    rw [encodeLength_of_le (by omega) hlarge] at hbyte ⊢
    have hfirst := hbyte 0 (by simp)
    have hsecond := hbyte 1 (by simp)
    simp only [List.getElem?_cons_zero, List.getElem?_cons_succ, Option.some.injEq] at hfirst hsecond
    refine ⟨fun i hlow hhigh => ?_, ?_⟩
    · simp only [List.length_cons, List.length_nil] at hhigh
      obtain rfl : i = 1 := by omega
      rw [hfirst, UInt8.toNat_ofNat']
      omega
    · change (buf 2).toNat < 128
      rw [hsecond, UInt8.toNat_ofNat']
      omega

/-- For a PUBLISH of quality of service 0 the callback is handed its payload. -/
theorem payload_of_publish {buf : Memory UInt8} {llen len : ℕ} {retained : Bool}
    {topic payload : Bytes} (hat : PacketAt buf llen len)
    (hpacket : Memory.slice buf 0 len = Mqtt.publish retained topic payload) :
    len = payloadAt buf llen + payload.length ∧
      Memory.slice (topicMoved buf llen) (payloadAt buf llen) payload.length = payload := by
  have hlength := lengthAt_of_slice hpacket hat.le
  set body := text topic ++ payload with hbody
  have hdigits : 1 ≤ (encodeLength body.length).length := by
    unfold encodeLength encodeLengthIn
    split <;> simp
  obtain rfl := hlength.unique hat.length hdigits hat.pos
  set llen := (encodeLength body.length).length with hllen
  have hcount : len = llen + 1 + body.length := by
    have hcount := congrArg List.length hpacket
    simp only [Memory.length_slice, Mqtt.publish, frame, List.length_cons, List.length_append] at hcount
    simp only [hllen, hbody, List.length_append]
    omega
  have hsplit : Memory.slice buf 0 (llen + 1) ++ Memory.slice buf (llen + 1) body.length =
      ((if retained then 0x31 else 0x30) :: encodeLength body.length) ++ body := by
    have hadd := Memory.slice_add buf 0 (llen + 1) body.length
    rw [Nat.zero_add, ← hcount, hpacket] at hadd
    rw [← hadd]
    rfl
  obtain ⟨hfront, hback⟩ := List.append_inj hsplit (by simp [hllen])
  have htopic : topic.length < 65536 := by
    have hle := hat.le
    simp only [mqttMaxPacketSize, hbody, List.length_append, length_text] at hle hcount
    omega
  -- the body is the length of the topic, the topic, and the payload
  have hfields : Memory.slice buf (llen + 1) 2 ++ (Memory.slice buf (llen + 3) topic.length ++
      Memory.slice buf (llen + 3 + topic.length) payload.length) =
      word topic.length ++ (topic ++ payload) := by
    have hadd := Memory.slice_add buf (llen + 1) 2 (topic.length + payload.length)
    rw [Memory.slice_add buf (llen + 1 + 2)] at hadd
    rw [← hadd, ← List.append_assoc (word topic.length), ← text, ← hbody, ← hback]
    congr 1
    simp only [hbody, List.length_append, length_text]
    omega
  obtain ⟨hword, hrest⟩ := List.append_inj hfields (by simp)
  obtain ⟨-, hpayload⟩ := List.append_inj hrest (by simp)
  have htl : topicLength buf llen = topic.length := by
    simp only [Memory.slice, List.range_succ, List.range_zero, List.nil_append,
      List.map_cons, List.map_nil, List.cons_append, Nat.add_zero, word, List.cons.injEq,
      and_true] at hword
    rw [topicLength, hword.1, hword.2, word_value htopic]
  have hzero : topicMoved buf llen 0 = if retained then 0x31 else 0x30 := by
    have hfirst := congrArg (·[0]?) hfront
    simp only [List.getElem?_cons_zero] at hfirst
    rw [Memory.getElem?_slice (by omega), Nat.zero_add, Option.some.injEq] at hfirst
    rw [topicMoved, Function.update_of_ne (by omega), Memory.move, Memory.place_of_lt _ _ (by omega),
      hfirst]
  have hstart : payloadAt buf llen = llen + 3 + topic.length := by
    rw [payloadAt, htl, hzero]
    cases retained <;> rfl
  refine ⟨?_, ?_⟩
  · rw [hstart, hcount]
    simp only [hbody, List.length_append, length_text]
    omega
  · rw [hstart]
    conv_rhs => rw [← hpayload]
    apply Memory.slice_congr
    intro i hi _
    rw [topicMoved, htl, Function.update_of_ne (by omega), Memory.move,
      Memory.place_of_le _ _ (by rw [Memory.length_slice]; omega)]

/-- The length and the bytes the callback is handed for a PUBLISH. -/
theorem callFor_publish {callback : Callback δ} {buf : Memory UInt8} {llen len : ℕ} {dev : δ}
    {retained : Bool} {topic payload : Bytes} (hat : PacketAt buf llen len)
    (hpacket : Memory.slice buf 0 len = Mqtt.publish retained topic payload) :
    ∃ view topic', Memory.slice view 0 payload.length = payload ∧
      callFor callback buf llen len dev = ⟨Mqtt.publish retained topic payload, payload.length,
        (callback topic' payload.length ⟨view, [], dev⟩).2.reads,
        (callback topic' payload.length ⟨view, [], dev⟩).2.dev⟩ := by
  obtain ⟨hlen, hbytes⟩ := payload_of_publish hat hpacket
  have hlength : (UInt32.ofNat len - UInt32.ofNat (payloadAt buf llen)).toNat = payload.length := by
    have hle := hat.le
    simp only [mqttMaxPacketSize] at hle
    rw [toNat_millis_sub_of_lt (by omega) (by omega)]
    omega
  refine ⟨fun i => topicMoved buf llen (payloadAt buf llen + i),
    Memory.slice (topicMoved buf llen) (llen + 2) (topicLength buf llen), ?_, ?_⟩
  · conv_rhs => rw [← hbytes]
    simp [Memory.slice]
  · rw [callFor, hlength, hpacket]

/-- The calls of the callback among some events. -/
def deliveries (events : List (Event δ)) : List (Delivery δ) :=
  events.filterMap fun event => match event with
    | .delivered delivery => some delivery
    | _ => none

theorem mem_deliveries {events : List (Event δ)} {delivery : Delivery δ} :
    delivery ∈ deliveries events ↔ .delivered delivery ∈ events := by
  rw [deliveries, List.mem_filterMap]
  constructor
  · rintro ⟨event, hmem, hsome⟩
    cases event with
    | delivered d =>
        obtain rfl := Option.some.inj hsome
        exact hmem
    | opened => cases hsome
    | wrote packet => cases hsome
    | serviced packet => cases hsome
    | resumed => cases hsome
  · exact fun hmem => ⟨_, hmem, rfl⟩

/-- The device is as the last call of the callback left it. -/
theorem devAfter_eq (dev : δ) (events : List (Event δ)) :
    devAfter dev events = ((deliveries events).getLast?.map Delivery.dev).getD dev := by
  induction events using List.reverseRecOn with
  | nil => rfl
  | append_singleton events event ih =>
      rw [devAfter_append, deliveries, List.filterMap_append]
      cases event with
      | delivered d => simp [devAfter]
      | opened => simpa [devAfter, deliveries] using ih
      | wrote packet => simpa [devAfter, deliveries] using ih
      | serviced packet => simpa [devAfter, deliveries] using ih
      | resumed => simpa [devAfter, deliveries] using ih

end PubSubClient

end Arduino
